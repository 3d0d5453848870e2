import SpanTree.Settings
import SpanTree.Proofs.Depiction
import SpanTree.Proofs.Reading
import SpanTree.Proofs.Rounding

/-!
# Writing a tree as JSON

The walk that writes a node prints the document that the node is read as.

* `Tree.Writes`: pieces on the stack are written as a text in so many steps, whatever lies below;
* `Depicts.writes`: a node is written as its document is printed;
* `writePieces_bounded`: a greatest length makes no other difference than that a text is refused;
* `render_eq`: so a node is rendered as its printed document, as far as that is not too long;
* `render_reads`: that text is a sentence of the grammar, and it is read as the document again.
-/

namespace SpanTree

open Json (gap colon lastGap printed printedItems printedMembers laterTexts)

def Layout.unbounded (l : Layout) : Layout := ⟨l.indent, none⟩

namespace Tree

variable {t : Tree} {l : Layout} {k : Nat}

/-! ## Pieces -/

/-- Pieces on the stack are written as a text, in no more than `most` steps. -/
def Writes (t : Tree) (l : Layout) (pieces : List Piece) (text : Text) (most : Nat) : Prop :=
  ∃ (parts : List Spaced) (steps : Nat), parts.flatMap Spaced.text = text ∧ steps ≤ most ∧
    ∀ fuel rest out, t.writePieces l (fuel + steps) (pieces ++ rest) out =
      t.writePieces l fuel rest (parts.reverse ++ out)

theorem Writes.nil : Writes t l [] [] 0 :=
  ⟨[], 0, rfl, Nat.le_refl 0, fun _ _ _ => rfl⟩

theorem Writes.text (s : Spaced) : Writes t l [.text s] s.text 1 := by
  refine ⟨[s], 1, List.flatMap_singleton _ s, Nat.le_refl 1, ?_⟩
  intro fuel rest out
  rw [List.singleton_append, writePieces_text]
  rfl

theorem Writes.append {pieces pieces' : List Piece} {text text' : Text} {most most' : Nat}
    (h : Writes t l pieces text most) (h' : Writes t l pieces' text' most') :
    Writes t l (pieces ++ pieces') (text ++ text') (most + most') := by
  obtain ⟨parts, steps, rfl, hs, hw⟩ := h
  obtain ⟨parts', steps', rfl, hs', hw'⟩ := h'
  refine ⟨parts ++ parts', steps' + steps, List.flatMap_append, by omega, ?_⟩
  intro fuel rest out
  rw [← Nat.add_assoc, List.append_assoc, hw, hw', List.reverse_append, List.append_assoc]

theorem Writes.node {id : Quantity} {depth : Nat} {pieces : List Piece} {text : Text}
    {most : Nat} (opens : t.expand l id depth = .ok pieces) (h : Writes t l pieces text most) :
    Writes t l [.node id depth] text (most + 1) := by
  obtain ⟨parts, steps, htext, hs, hw⟩ := h
  refine ⟨parts, steps + 1, htext, by omega, ?_⟩
  intro fuel rest out
  rw [List.singleton_append, ← Nat.add_assoc, writePieces_node, opens]
  exact hw fuel rest out

theorem Writes.mono {pieces : List Piece} {text : Text} {most most' : Nat}
    (h : Writes t l pieces text most) (hle : most ≤ most') : Writes t l pieces text most' := by
  obtain ⟨parts, steps, htext, hs, hw⟩ := h
  exact ⟨parts, steps, htext, Nat.le_trans hs hle, hw⟩

/-! ## Layouts without a greatest length -/

/-- A layout of `k` spaces for each level, and texts of any length. -/
def Indents (l : Layout) (k : Nat) : Prop := l.indent = .natural k ∧ l.longest = none

theorem text_plain (s : Text) : ({ before := s } : Spaced).text = s := by
  simp only [Spaced.text, Text.spaces, List.replicate_zero, List.append_nil]

theorem Indents.lineBreak (h : Indents l k) :
    l.lineBreak = if 0 < k then [unit '\n'] else [] := by
  simp only [Layout.lineBreak, Layout.breaksLines, h.1, decide_eq_true_eq]

theorem Indents.separator (h : Indents l k) : l.separator = colon k := by
  simp only [Layout.separator, Layout.breaksLines, h.1, decide_eq_true_eq, colon]

theorem Indents.padded (h : Indents l k) (before after : Text) (depth : Nat) :
    ∃ s, l.padded before after depth = .ok s ∧ s.text = before ++ (gap k depth ++ after) := by
  refine ⟨⟨before ++ l.lineBreak, k * depth, after⟩, ?_, ?_⟩
  · simp only [Layout.padded, Layout.padding, h.1, Layout.admits, h.2, Option.all_none, if_true]
    rfl
  · simp only [Spaced.text, gap, h.lineBreak, List.append_assoc]

/-! ## Children -/

/-- The texts of children, the first behind a given text and each other one behind a comma. -/
def childTexts (comma : Text) : List Text → Text
  | [] => []
  | s :: rest => comma ++ (s ++ laterTexts rest)

theorem childTexts_comma (texts : List Text) :
    childTexts [unit ','] texts = laterTexts texts := by
  cases texts with
  | nil => rfl
  | cons s rest =>
    rw [childTexts, laterTexts, laterTexts, List.flatMap_cons]
    rfl

theorem childTexts_nil (texts : List Text) :
    childTexts [] texts = Text.join [unit ','] texts := by
  cases texts with
  | nil => rfl
  | cons s rest => rw [Json.join_cons, childTexts, List.nil_append]

/-- A child is written behind its gap and its label, in fewer steps than its entry says. -/
def ChildWrites (t : Tree) (l : Layout) (k : Nat) (kind : Kind) (depth : Nat) (c : Nat)
    (entry : Text × Nat) : Prop :=
  ∃ label body, t.label l kind c = .ok label ∧ 0 < entry.2 ∧
    Writes t l [.node (.natural c) depth] body (4 * entry.2 - 1) ∧
    entry.1 = gap k depth ++ (label ++ body)

theorem childPieces_writes (hl : Indents l k) {kind : Kind} {depth : Nat} {children : List Nat}
    {entries : List (Text × Nat)}
    (h : List.Forall₂ (ChildWrites t l k kind depth) children entries) (comma : Text) :
    ∃ pieces, t.childPieces l kind depth comma children = .ok pieces ∧
      Writes t l pieces (childTexts comma (entries.map (·.1))) (4 * (entries.map (·.2)).sum) := by
  induction h generalizing comma with
  | nil => exact ⟨[], rfl, .nil⟩
  | @cons c entry children entries head _ ih =>
    obtain ⟨label, body, hlabel, pos, hbody, hentry⟩ := head
    obtain ⟨s, hpadded, htext⟩ := hl.padded comma label depth
    obtain ⟨pieces, hpieces, hwrites⟩ := ih [unit ',']
    refine ⟨.text s :: .node (.natural c) depth :: pieces, ?_, ?_⟩
    · rw [childPieces_cons, hlabel]
      change (do
        let before ← l.padded comma label depth
        let pieces ← t.childPieces l kind depth [unit ','] children
        return Piece.text before :: .node (.natural c) depth :: pieces : Except Failure _) = _
      rw [hpadded, hpieces]
      rfl
    · have all := (Writes.text (t := t) (l := l) s).append (hbody.append hwrites)
      rw [childTexts_comma, htext] at all
      simp only [List.map_cons, childTexts, hentry, List.append_assoc, List.sum_cons] at all ⊢
      exact all.mono (by omega)

/-! ## Containers -/

theorem expand_eq {id : Nat} {n : Node} (found : t.nodes[id]? = some n) (depth : Nat) :
    t.expand l (.natural id) depth = do
      match n.kind with
      | .unset => return [.text { before := lit "null" }]
      | .scalar => return [.text { before := ← t.scalarText n }]
      | kind =>
        if n.children.isEmpty then return [.text { before := opening kind ++ closing kind }]
        else
          let pieces ← t.childPieces l kind (depth + 1) [] n.children.toList
          let last ← l.padded [] (closing kind) depth
          return .text { before := opening kind } :: (pieces ++ [.text last]) := by
  rw [expand_def, node_natural found]
  rfl

theorem expand_empty {id : Nat} {n : Node} (found : t.nodes[id]? = some n)
    (container : n.kind.isContainer = true) (empty : n.children.isEmpty = true) (depth : Nat) :
    t.expand l (.natural id) depth =
      .ok [.text { before := opening n.kind ++ closing n.kind }] := by
  rw [expand_eq found]
  cases hk : n.kind with
  | unset | scalar =>
    rw [hk] at container
    cases container
  | map | seq =>
    dsimp only
    rw [if_pos empty]
    rfl

theorem expand_container {id : Nat} {n : Node} (found : t.nodes[id]? = some n)
    (container : n.kind.isContainer = true) (some : n.children.isEmpty = false) (depth : Nat) :
    t.expand l (.natural id) depth = (do
      let pieces ← t.childPieces l n.kind (depth + 1) [] n.children.toList
      let last ← l.padded [] (closing n.kind) depth
      return .text { before := opening n.kind } :: (pieces ++ [.text last])) := by
  rw [expand_eq found]
  cases hk : n.kind with
  | unset | scalar =>
    rw [hk] at container
    cases container
  | map | seq =>
    dsimp only
    rw [if_neg (by rw [some]; decide)]

/-- A container is written as its brackets around its children. -/
theorem container_writes (hl : Indents l k) {id depth : Nat} {n : Node}
    (found : t.nodes[id]? = some n) (container : n.kind.isContainer = true)
    {entries : List (Text × Nat)}
    (h : List.Forall₂ (ChildWrites t l k n.kind (depth + 1)) n.children.toList entries) :
    Writes t l [.node (.natural id) depth]
      (opening n.kind ++ (Text.join [unit ','] (entries.map (·.1)) ++
        (lastGap k depth entries ++ closing n.kind))) (4 * (1 + (entries.map (·.2)).sum) - 1) := by
  have length := h.length_eq
  rw [Array.length_toList] at length
  cases entries with
  | nil =>
    have empty : n.children.isEmpty = true := Array.isEmpty_iff_size_eq_zero.2 length
    have all := Writes.node (l := l) (expand_empty found container empty depth) (Writes.text _)
    rw [text_plain] at all
    exact all.mono (by omega)
  | cons entry entries =>
    have some : n.children.isEmpty = false := by
      apply Bool.eq_false_iff.2
      intro empty
      rw [Array.isEmpty_iff_size_eq_zero.1 empty] at length
      cases length
    obtain ⟨pieces, hpieces, hwrites⟩ := childPieces_writes hl h []
    obtain ⟨last, hlast, htext⟩ := hl.padded [] (closing n.kind) depth
    have opens : t.expand l (.natural id) depth =
        .ok (.text { before := opening n.kind } :: (pieces ++ [.text last])) := by
      rw [expand_container found container some, hpieces]
      change (do
        let last ← l.padded [] (closing n.kind) depth
        return Piece.text { before := opening n.kind } :: (pieces ++ [.text last]) :
          Except Failure (List Piece)) = _
      rw [hlast]
      rfl
    have inside := (Writes.text { before := opening n.kind }).append
      (hwrites.append (Writes.text last))
    rw [text_plain, childTexts_nil, htext, List.nil_append] at inside
    exact (Writes.node opens inside).mono (by omega)

/-! ## Nodes -/

theorem scalarText_of_reading {n : Node} {j : Json} (h : t.reading n = .ok j) (depth : Nat) :
    t.scalarText n = .ok (printed k j depth) := by
  rcases reading_ok h with ⟨blank, rfl⟩ | ⟨span, text, known, htext, rfl⟩
  · rw [scalarText_def, blank]
    rfl
  · rw [scalarText_def, known]
    dsimp only
    rw [htext]
    change (if n.isQuoted then pure (Quoted.quote text)
      else if Json.isLiteral text || Json.isNumber text then pure text
      else pure (Quoted.quote text) : Except Failure Text) = _
    cases quoted : n.isQuoted with
    | true => rfl
    | false =>
      simp only [Bool.false_eq_true, if_false]
      unfold Json.ofBare Json.isLiteral
      by_cases ht : text = lit "true"
      · subst ht
        rfl
      by_cases hf : text = lit "false"
      · subst hf
        rfl
      by_cases hn : text = lit "null"
      · subst hn
        rfl
      simp only [ht, hf, hn, decide_false, Bool.or_self, Bool.false_or, if_false]
      by_cases number : Json.isNumber text = true
      · rw [if_pos number, if_pos (Json.isNumber_iff.1 number)]
        rfl
      · rw [if_neg number, if_neg (mt Json.isNumber_iff.2 number)]
        rfl

theorem count_pos (j : Json) : 0 < j.count := by
  cases j <;> simp only [Json.count] <;> omega

theorem lastGap_map {α β : Type} (depth : Nat) (f : α → β) (members : List α) :
    lastGap k depth (members.map f) = lastGap k depth members := by
  cases members <;> rfl

/-- A node is written as the document that it is read as is printed. -/
theorem Depicts.writes {id : Nat} {j : Json} (hl : Indents l k) (h : t.Depicts id j)
    (depth : Nat) :
    Writes t l [.node (.natural id) depth] (printed k j depth) (4 * j.count - 1) := by
  induction h generalizing depth with
  | unset found kind =>
    refine (Writes.node ?_ (Writes.text { before := lit "null" })).mono (by decide)
    rw [expand_eq found, kind]
    rfl
  | @scalar id n j found kind reads =>
    have text : t.scalarText n = .ok (printed k j depth) := scalarText_of_reading reads depth
    have opens : t.expand l (.natural id) depth =
        .ok [.text { before := printed k j depth }] := by
      rw [expand_eq found, kind]
      dsimp only
      rw [text]
      rfl
    have all := Writes.node opens (Writes.text _)
    rw [text_plain] at all
    have := count_pos j
    exact all.mono (by omega)
  | @seq id n items found kind length below ih =>
    let entry (item : Json) : Text × Nat :=
      (gap k (depth + 1) ++ printed k item (depth + 1), item.count)
    have children : List.Forall₂ (ChildWrites t l k n.kind (depth + 1)) n.children.toList
        (items.map entry) := by
      refine forall₂_children length fun i c item hc hitem => ?_
      refine ⟨[], printed k item (depth + 1), ?_, count_pos item, ih i c item hc hitem _, rfl⟩
      rw [label, kind]
      rfl
    have all := container_writes hl found (by rw [kind]; rfl) children
    rw [List.map_map, List.map_map, lastGap_map, kind] at all
    rw [printed, Json.printedItems_eq, Json.count, Json.itemsCount_eq]
    exact all
  | @map id n members found kind length keys below ih =>
    let entry (m : Text × Json) : Text × Nat :=
      (gap k (depth + 1) ++ (Quoted.quote m.1 ++ colon k) ++ printed k m.2 (depth + 1),
        m.2.count)
    have children : List.Forall₂ (ChildWrites t l k n.kind (depth + 1)) n.children.toList
        (members.map entry) := by
      refine forall₂_children length fun i c m hc hm => ?_
      refine ⟨Quoted.quote m.1 ++ colon k, printed k m.2 (depth + 1), ?_, count_pos m.2,
        ih i c m.1 m.2 hc hm _, List.append_assoc _ _ _⟩
      rw [label_def, kind, if_pos rfl, keys i c m.1 m.2 hc hm, hl.separator]
      rfl
    have all := container_writes hl found (by rw [kind]; rfl) children
    rw [List.map_map, List.map_map, lastGap_map, kind] at all
    rw [printed, Json.printedMembers_eq, Json.count, Json.membersCount_eq]
    exact all

/-! ## The greatest length -/

theorem padded_bounded {before after : Text} {depth : Nat} {s : Spaced}
    (h : l.unbounded.padded before after depth = .ok s) :
    l.padded before after depth = if l.admits s.length then .ok s else .error .overlong := by
  unfold Layout.padded at h ⊢
  have same : l.unbounded.padding depth = l.padding depth := rfl
  rw [same] at h
  cases hp : l.padding depth with
  | error f =>
    rw [hp] at h
    cases h
  | ok count =>
    rw [hp] at h
    cases h
    rfl

/-- A text among pieces is longer than the layout admits. -/
def Overlong (l : Layout) (pieces : List Piece) : Prop :=
  ∃ s, .text s ∈ pieces ∧ l.admits s.length = false

/-- Without a greatest length the pieces are the same, but one that is too long may be refused. -/
def Bounds (l : Layout) (pieces : List Piece) (r : Except Failure (List Piece)) : Prop :=
  r = .ok pieces ∨ (r = .error .overlong ∧ Overlong l pieces)

theorem childPieces_bounded {kind : Kind} {depth : Nat} {children : List Nat} {comma : Text}
    {pieces : List Piece}
    (h : t.childPieces l.unbounded kind depth comma children = .ok pieces) :
    Bounds l pieces (t.childPieces l kind depth comma children) := by
  induction children generalizing comma pieces with
  | nil => exact .inl h
  | cons c rest ih =>
    have same : t.label l.unbounded kind c = t.label l kind c := rfl
    rw [childPieces_cons, same] at h
    rw [childPieces_cons]
    cases hlabel : t.label l kind c with
    | error f =>
      rw [hlabel] at h
      cases h
    | ok text =>
      rw [hlabel] at h
      cases hs : l.unbounded.padded comma text depth with
      | error f =>
        simp only [hs, bind, Except.bind] at h
        cases h
      | ok s =>
        cases hp : t.childPieces l.unbounded kind depth [unit ','] rest with
        | error f =>
          simp only [hs, hp, bind, Except.bind] at h
          cases h
        | ok more =>
          simp only [hs, hp, bind, Except.bind] at h
          cases h
          simp only [bind, Except.bind]
          rw [padded_bounded hs]
          cases admitted : l.admits s.length with
          | false => exact .inr ⟨rfl, s, List.mem_cons_self, admitted⟩
          | true =>
            rw [if_pos rfl]
            rcases ih hp with ok | ⟨overlong, s', hs', long⟩
            · rw [ok]
              exact .inl rfl
            · rw [overlong]
              refine .inr ⟨rfl, s', ?_, long⟩
              exact List.mem_cons_of_mem _ (List.mem_cons_of_mem _ hs')

theorem expand_bounded {id : Quantity} {depth : Nat} {pieces : List Piece}
    (h : t.expand l.unbounded id depth = .ok pieces) :
    Bounds l pieces (t.expand l id depth) := by
  cases id with
  | irregular x => cases h
  | natural id =>
    cases found : t.nodes[id]? with
    | none =>
      have none : t.node? (.natural id) = none := found
      rw [expand_def, node_none none] at h
      cases h
    | some n =>
      by_cases container : n.kind.isContainer = true
      · by_cases empty : n.children.isEmpty = true
        · rw [expand_empty found container empty] at h ⊢
          exact .inl h
        · have some : n.children.isEmpty = false := Bool.eq_false_iff.2 empty
          rw [expand_container found container some] at h ⊢
          cases hp : t.childPieces l.unbounded n.kind (depth + 1) [] n.children.toList with
          | error f =>
            rw [hp] at h
            cases h
          | ok inner =>
            rw [hp] at h
            cases hs : l.unbounded.padded [] (closing n.kind) depth with
            | error f =>
              simp only [hs, bind, Except.bind] at h
              cases h
            | ok last =>
              simp only [hs, bind, Except.bind] at h
              cases h
              rcases childPieces_bounded hp with ok | ⟨overlong, s, hs', long⟩
              · rw [ok]
                simp only [bind, Except.bind]
                rw [padded_bounded hs]
                cases admitted : l.admits last.length with
                | false =>
                  refine .inr ⟨rfl, last, ?_, admitted⟩
                  simp
                | true => exact .inl rfl
              · rw [overlong]
                refine .inr ⟨rfl, s, ?_, long⟩
                simp [hs']
      · left
        rw [expand_eq found] at h ⊢
        cases hk : n.kind with
        | unset | scalar =>
          rw [hk] at h
          exact h
        | map | seq =>
          rw [hk] at container
          exact absurd rfl container

/-- Every text on the stack, and everything that was listed, is listed in the end. -/
theorem mem_writePieces {fuel : Nat} {pieces : List Piece} {out parts : List Spaced}
    (h : t.writePieces l fuel pieces out = .ok parts) {s : Spaced}
    (hs : s ∈ out ∨ .text s ∈ pieces) : s ∈ parts := by
  induction fuel, pieces, out using walk_induction with
  | done fuel out =>
    rw [writePieces_nil] at h
    cases h
    rcases hs with hs | hs
    · exact List.mem_reverse.2 hs
    · cases hs
  | spent => cases h
  | text fuel s' rest out ih =>
    rw [writePieces_text] at h
    apply ih h
    rcases hs with hs | hs
    · exact .inl (List.mem_cons_of_mem _ hs)
    · rcases List.mem_cons.1 hs with same | hs
      · cases same
        exact .inl List.mem_cons_self
      · exact .inr hs
  | node fuel id depth rest out ih =>
    rw [writePieces_node] at h
    cases opens : t.expand l id depth with
    | error f =>
      rw [opens] at h
      cases h
    | ok pieces =>
      rw [opens] at h
      apply ih pieces h
      rcases hs with hs | hs
      · exact .inl hs
      · rcases List.mem_cons.1 hs with same | hs
        · cases same
        · exact .inr (List.mem_append_right _ hs)

/-- A greatest length makes no other difference than that a text is refused which is too long by
one of its parts. -/
theorem writePieces_bounded {fuel : Nat} {pieces : List Piece} {out parts : List Spaced}
    (h : t.writePieces l.unbounded fuel pieces out = .ok parts) :
    t.writePieces l fuel pieces out = .ok parts ∨
      (t.writePieces l fuel pieces out = .error .overlong ∧
        ∃ s ∈ parts, l.admits s.length = false) := by
  induction fuel, pieces, out using walk_induction with
  | done fuel out =>
    rw [writePieces_nil] at h ⊢
    exact .inl h
  | spent => cases h
  | text fuel s rest out ih =>
    rw [writePieces_text] at h ⊢
    exact ih h
  | node fuel id depth rest out ih =>
    rw [writePieces_node] at h ⊢
    cases opens : t.expand l.unbounded id depth with
    | error f =>
      rw [opens] at h
      cases h
    | ok pieces =>
      rw [opens] at h
      rcases expand_bounded opens with ok | ⟨overlong, s, hs, long⟩
      · rw [ok]
        exact ih pieces h
      · rw [overlong]
        exact .inr ⟨rfl, s, mem_writePieces h (.inr (List.mem_append_left _ hs)), long⟩

theorem length_text (s : Spaced) : s.text.length = s.length := by
  simp only [Spaced.text, Spaced.length, List.length_append, Text.spaces, List.length_replicate]

theorem totalLength_eq (parts : List Spaced) :
    Spaced.totalLength parts = (parts.flatMap Spaced.text).length := by
  have from_ (n : Nat) : parts.foldl (fun n s => n + s.length) n =
      n + (parts.flatMap Spaced.text).length := by
    induction parts generalizing n with
    | nil => rfl
    | cons s rest ih =>
      rw [List.foldl_cons, ih, List.flatMap_cons, List.length_append, length_text]
      omega
  exact (from_ 0).trans (Nat.zero_add _)

/-- What the walk of a node listed is its text, as far as that is not too long. -/
theorem render_of_walk {id : Quantity} {parts : List Spaced}
    (walk : t.writePieces l t.renderFuel [.node id 0] [] = .ok parts) :
    t.render l id = if l.admits (parts.flatMap Spaced.text).length then
      .ok (parts.flatMap Spaced.text) else .error .overlong := by
  rw [render_def, walk]
  change (if l.admits (Spaced.totalLength parts) then pure (parts.flatMap Spaced.text)
    else throw Failure.overlong : Except Failure Text) = _
  rw [totalLength_eq]
  rfl

theorem Writes.walk {id : Quantity} {text : Text} {most : Nat}
    (h : Writes t l [.node id 0] text most) (enough : most ≤ t.renderFuel) :
    ∃ parts, t.writePieces l t.renderFuel [.node id 0] [] = .ok parts ∧
      parts.flatMap Spaced.text = text := by
  obtain ⟨parts, steps, htext, hsteps, hw⟩ := h
  refine ⟨parts, ?_, htext⟩
  have run := hw (t.renderFuel - steps) [] []
  rw [Nat.sub_add_cancel (Nat.le_trans hsteps enough), List.append_nil] at run
  rw [run, writePieces_nil, List.append_nil, List.reverse_reverse]

/-- A node is rendered as its document is printed, as far as that is not too long. -/
theorem render_eq (wf : t.WellFormed) {id : Nat} (existing : id < t.size) {j : Json}
    (h : t.Depicts id j) (hl : l.indent = .natural k) :
    t.render l (.natural id) =
      if l.admits (printed k j 0).length then .ok (printed k j 0) else .error .overlong := by
  have enough : 4 * j.count - 1 ≤ t.renderFuel := by
    have := h.count_le wf existing
    unfold renderFuel
    omega
  have unbounded : Indents l.unbounded k := ⟨hl, rfl⟩
  obtain ⟨parts, walk, htext⟩ := (h.writes unbounded 0).walk enough
  rcases writePieces_bounded walk with ok | ⟨overlong, s, hs, long⟩
  · rw [render_of_walk ok, htext]
  · -- A part that is too long makes the whole text too long.
    have part : s.length ≤ (printed k j 0).length := by
      rw [← htext, ← length_text]
      exact (List.sublist_flatten_of_mem (List.mem_map_of_mem hs)).length_le
    have refused : l.admits (printed k j 0).length = false := by
      unfold Layout.admits at long ⊢
      cases hm : l.longest with
      | none =>
        rw [hm] at long
        cases long
      | some most =>
        rw [hm] at long
        simp only [Option.all_some, decide_eq_false_iff_not] at long ⊢
        omega
    rw [render_def, overlong, refused]
    rfl

/-! ## Numbers of spaces beyond all texts -/

theorem padding_finite {x : Binary64} {negative : Bool} {r : Fin rankCount} {depth : Nat}
    (hl : l.indent = .irregular x) (h : x.mul (.ofNat depth) = .finite negative r) :
    l.padding depth =
      let length := (Binary64.finite negative r).truncate.getD 0
      if length < 0 then .error (.invalidPadding (.finite negative r))
      else .ok length.toNat := by
  unfold Layout.padding
  rw [hl]
  dsimp only
  rw [h]

/-- A whole number of spaces beyond the usual range is what the first level is indented by. -/
theorem padding_huge {x : Binary64} (hl : l.indent = .irregular x)
    (whole : x.toInt? = some (k : Int)) : l.padding 1 = .ok k := by
  have truncate := Binary64.truncate_of_toInt? whole
  cases x with
  | nan | infinite s => cases whole
  | finite s r =>
    have positive : ¬ (k : Int) < 0 := by omega
    rw [padding_finite hl (Binary64.mul_one s r)]
    dsimp only
    rw [truncate, Option.getD_some, if_neg positive, Int.toNat_natCast]

/-- A container whose first child would be indented too far is refused. -/
theorem render_refused {id c : Nat} {rest : List Nat} {n : Node} {most : Nat} {text : Text}
    (found : t.nodes[id]? = some n) (container : n.kind.isContainer = true)
    (children : n.children.toList = c :: rest) (hlabel : t.label l n.kind c = .ok text)
    (padding : l.padding 1 = .ok k) (longest : l.longest = some most) (less : most < k) :
    t.render l (.natural id) = .error .overlong := by
  have padded : l.padded [] text 1 = .error .overlong := by
    have refused : l.admits (Spaced.length ⟨[] ++ l.lineBreak, k, text⟩) = false := by
      have long : ¬ ([] ++ l.lineBreak).length + k + text.length ≤ most := by omega
      simp only [Layout.admits, longest, Option.all_some, Spaced.length, long, decide_false]
    rw [Layout.padded, padding]
    change (if l.admits (Spaced.length ⟨[] ++ l.lineBreak, k, text⟩) then _ else _) = _
    rw [refused]
    rfl
  have pieces : t.childPieces l n.kind 1 [] n.children.toList = .error .overlong := by
    rw [children, childPieces_cons, hlabel]
    simp only [bind, Except.bind, padded]
  have some : n.children.isEmpty = false := by
    apply Bool.eq_false_iff.2
    intro empty
    rw [Array.isEmpty_iff.1 empty] at children
    cases children
  have opens : t.expand l (.natural id) 0 = .error .overlong := by
    rw [expand_container found container some, pieces]
    rfl
  rw [render_def, renderFuel, writePieces_node, opens]
  rfl

theorem le_length_gap (k : Nat) : k ≤ (gap k 1).length := by
  simp only [gap, List.length_append, Text.spaces, List.length_replicate]
  omega

/-- The text of a container with children is longer than a level is indented. -/
theorem le_length_join {first : Text} {texts : List Text} (h : k ≤ first.length) (u : CodeUnit)
    (rest : Text) : k ≤ (u :: (Text.join [unit ','] (first :: texts) ++ rest)).length := by
  rw [Json.join_cons]
  simp only [List.length_cons, List.length_append]
  omega

/-- A node without children is written as it is opened, in no more than the greatest length. -/
theorem render_childless {id most : Nat} {text : Text} (existing : id < t.size)
    (longest : l.longest = some most)
    (opens : t.expand l (.natural id) 0 = .ok [.text { before := text }]) :
    t.render l (.natural id) = if text.length ≤ most then .ok text else .error .overlong := by
  have enough : 2 ≤ t.renderFuel := by
    unfold renderFuel
    omega
  obtain ⟨parts, walk, same⟩ := (Writes.node opens (Writes.text _)).walk enough
  rw [render_of_walk walk, same, text_plain, Layout.admits, longest, Option.all_some]
  simp only [decide_eq_true_eq]

/-- A node is rendered in the same way with any whole number of spaces: where there are too many
for any text, a container with children is refused. -/
theorem render_huge {id : Nat} (existing : id < t.size) {j : Json} (h : t.Depicts id j)
    {x : Binary64} {most : Nat} (hl : l = ⟨.irregular x, some most⟩)
    (whole : x.toInt? = some (k : Int)) (less : most < k) :
    t.render l (.natural id) =
      if (printed k j 0).length ≤ most then .ok (printed k j 0) else .error .overlong := by
  have padding : l.padding 1 = .ok k := padding_huge (by rw [hl]) whole
  have longest : l.longest = some most := by rw [hl]
  cases h with
  | unset found kind =>
    apply render_childless existing longest
    rw [expand_eq found, kind]
    rfl
  | @scalar _ n _ found kind reads =>
    apply render_childless existing longest
    rw [expand_eq found, kind]
    dsimp only
    rw [scalarText_of_reading reads 0]
    rfl
  | @seq _ n items found kind length below =>
    have container : n.kind.isContainer = true := by
      rw [kind]
      rfl
    cases items with
    | nil =>
      apply render_childless existing longest
      rw [expand_empty found container (Array.isEmpty_iff_size_eq_zero.2 length), kind]
      rfl
    | cons item items =>
      obtain ⟨c, rest, children⟩ := List.exists_cons_of_length_eq_add_one
        (l := n.children.toList) length
      have label : t.label l n.kind c = .ok [] := by
        rw [Tree.label, kind]
        rfl
      have long : k ≤ (printed k (.array (item :: items)) 0).length := by
        apply le_length_join
        rw [List.length_append]
        exact Nat.le_trans (le_length_gap k) (Nat.le_add_right _ _)
      rw [render_refused found container children label padding longest less,
        if_neg (by omega)]
  | @map _ n members found kind length keys below =>
    have container : n.kind.isContainer = true := by
      rw [kind]
      rfl
    cases members with
    | nil =>
      apply render_childless existing longest
      rw [expand_empty found container (Array.isEmpty_iff_size_eq_zero.2 length), kind]
      rfl
    | cons m members =>
      obtain ⟨c, rest, children⟩ := List.exists_cons_of_length_eq_add_one
        (l := n.children.toList) length
      have first : n.children[0]? = some c := by
        rw [← Array.getElem?_toList, children]
        rfl
      obtain ⟨text, label⟩ : ∃ text, t.label l n.kind c = .ok text := by
        rw [label_def, kind, if_pos rfl, keys 0 c m.1 m.2 first rfl]
        exact ⟨_, rfl⟩
      have long : k ≤ (printed k (.object (m :: members)) 0).length := by
        have wide : k ≤ (gap k (0 + 1)).length := le_length_gap k
        apply le_length_join
        rw [List.length_append, List.length_append]
        omega
      rw [render_refused found container children label padding longest less,
        if_neg (by omega)]

/-! ## Reading it again -/

/-- A node is rendered as a text with a whole number of spaces, by any layout and any settings that
ask for so many, unless the text is longer than they allow. -/
def Emits (t : Tree) (id k : Nat) (text : Text) : Prop :=
  (∀ longest, t.render ⟨.natural k, longest⟩ (.natural id) =
    if longest.all fun most => text.length ≤ most then .ok text else .error .overlong) ∧
  ∀ s : RenderSettings, nodeOf s.node? = .natural id →
    (∃ indent, s.indent? = some indent ∧ indent.toInt? = some (k : Int)) →
    s.render t = if text.length ≤ RenderSettings.longestText then .ok text else .error .overlong

theorem Depicts.emits (wf : t.WellFormed) {id : Nat} (existing : id < t.size) {j : Json}
    (h : t.Depicts id j) (k : Nat) : t.Emits id k (printed k j 0) := by
  constructor
  · intro longest
    exact render_eq wf existing h rfl
  · rintro s node ⟨indent, given, whole⟩
    rw [RenderSettings.render_def, node, RenderSettings.layout, given, Option.getD_some]
    rw [Quantity.ofBinary64_whole whole]
    by_cases usual : k < 2 ^ 53
    · rw [if_pos (by omega), Int.toNat_natCast, render_eq wf existing h rfl]
      simp only [Layout.admits, Option.all_some, decide_eq_true_eq]
    · have less : RenderSettings.longestText < k := by
        have : RenderSettings.longestText < 2 ^ 53 := by decide
        omega
      rw [if_neg (by omega), render_huge existing h rfl whole less]

/-- The text of a node is read as its document. -/
theorem Depicts.read {id : Nat} {j : Json} (h : t.Depicts id j) (k : Nat) :
    Json.read (printed k j 0) = .ok j :=
  Json.read_sentence (Json.printed_sentence h.numeric k 0)

/-- **A rendered node is JSON for what it says.** In every reachable tree whose spans its arena
handed out, every node at or below which the children of maps have keys stands for a document. With
any whole number of spaces it is rendered as a sentence of the grammar that spells that document,
and that is read as it, members in order and numbers digit for digit, as far as the text is not too
long. -/
theorem render_reads (reachable : t.Reachable) (grounded : t.Grounded) {id : Nat}
    (existing : id < t.size) (keyed : t.Keyed id) :
    ∃ document, t.Depicts id document ∧ ∀ k : Nat, ∃ text,
      Json.Sentence document text ∧ Json.read text = .ok document ∧ t.Emits id k text := by
  have wf := reachable.wellFormed
  obtain ⟨document, depicts⟩ := exists_depicts wf grounded existing keyed
  refine ⟨document, depicts, fun k => ⟨printed k document 0, ?_, depicts.read k, ?_⟩⟩
  · exact Json.printed_sentence depicts.numeric k 0
  · exact depicts.emits wf existing k

/-- A map with one child, whose key is the empty text and which has no value. -/
theorem render_reads_member :
    let t := (ofArena (.empty 1)).after [.makeMap (.natural 0) .blank, .addChild (.natural 0),
      .makeScalar (.natural 1) (.known ⟨.natural 0, .natural 0⟩) .blank]
    ∃ (document : Json) (text : Text), t.Depicts 0 document ∧ Json.read text = .ok document ∧
      t.render ⟨.natural 2, none⟩ (.natural 0) = .ok text := by
  intro t
  have reachable : t.Reachable :=
    .step (.step (.step (.new create_infinite) (.makeMap (.natural 0) .blank))
      (.addChild (.natural 0)))
      (.makeScalar (.natural 1) (.known ⟨.natural 0, .natural 0⟩) .blank)
  let top : Node := { kind := .map, children := #[1] }
  let child : Node :=
    { kind := .scalar, key := .known ⟨.natural 0, .natural 0⟩, parent := some 0 }
  have nodes {i : Nat} {n : Node} (h : t.nodes[i]? = some n) :
      (i = 0 ∧ n = top) ∨ (i = 1 ∧ n = child) := by
    have hlt : i < 2 := lt_size h
    obtain rfl | rfl : i = 0 ∨ i = 1 := by omega
    · exact .inl ⟨rfl, (Option.some.inj h).symm⟩
    · exact .inr ⟨rfl, (Option.some.inj h).symm⟩
  have grounded : t.Grounded := by
    intro i n h
    rcases nodes h with ⟨_, rfl⟩ | ⟨_, rfl⟩
    · exact ⟨.inl rfl, .inl rfl⟩
    · exact ⟨.inr ⟨_, rfl, 0, 0, rfl, Nat.le_refl 0⟩, .inl rfl⟩
  have keyed : t.Keyed 0 := by
    intro i n _ h _ c hc m hm
    rcases nodes hm with ⟨rfl, _⟩ | ⟨_, rfl⟩
    · have := (reachable.wellFormed.down i n 0 h hc).1
      omega
    · nofun
  have existing : 0 < t.size := Nat.zero_lt_two
  obtain ⟨document, depicts, all⟩ := render_reads reachable grounded existing keyed
  obtain ⟨text, _, reads, emits⟩ := all 2
  exact ⟨document, text, depicts, reads, emits.1 none⟩

end Tree

end SpanTree
