import SpanTree.Proofs.Handlers
import SpanTree.Proofs.Traversal

/-!
# When a node is not written

A node is written unless a map at or below it has a child without a key.

* `Tree.firstKeyless?`: the first keyless child of the first map that has one, in pre-order;
* `Decides`, `decides_mapM`: results that are missing for the first thing that keeps one of them
  from being there;
* `print_decided`, `writePieces_error`: the recursion fails for that child, and so does the walk;
* `Crowded`, `writePieces_restricts`: a greatest length makes no other difference than that the walk
  may end at a name that has no room behind its gap;
* `render_reported`: what a caller and a handler see of a node that is written, or is not.
-/

namespace SpanTree.Tree

variable {t : Tree} {l : Layout} {k id depth : Nat} {n : Node}

/-! ## The first keyless child -/

def isKeyless (t : Tree) (id : Nat) : Bool := t.nodes[id]?.any fun n => n.key = .blank

/-- The first keyless child of a map. -/
def keyless? (t : Tree) (id : Nat) : Option Nat :=
  t.nodes[id]?.bind fun n =>
    if n.kind = .map then n.children.toList.find? t.isKeyless else none

/-- The first keyless child of the first map, in pre-order, that has one at or below a node. -/
def firstKeyless? (t : Tree) (id : Nat) : Option Nat := (t.preorder id).findSome? t.keyless?

theorem isKeyless_iff (found : t.nodes[id]? = some n) :
    t.isKeyless id = true ↔ n.key = .blank := by
  rw [isKeyless, found, Option.any_some, decide_eq_true_eq]

theorem keyText_missing (found : t.nodes[id]? = some n) (blank : n.key = .blank) :
    t.keyText (.natural id) = .error (.noKey (.natural id)) := by
  rw [keyText_def, key_natural found, blank]
  rfl

theorem keyless?_map (found : t.nodes[id]? = some n) (kind : n.kind = .map) :
    t.keyless? id = n.children.toList.find? t.isKeyless := by
  rw [keyless?, found, Option.bind_some, if_pos kind]

theorem keyless?_other (found : t.nodes[id]? = some n) (kind : n.kind ≠ .map) :
    t.keyless? id = none := by
  rw [keyless?, found, Option.bind_some, if_neg kind]

/-- No child of a map is keyless if there is no first one. -/
theorem keyless?_none (wf : t.WellFormed) :
    t.keyless? id = none ↔ ∀ n, t.nodes[id]? = some n → n.kind = .map →
      ∀ c ∈ n.children, ∀ m, t.nodes[c]? = some m → m.key ≠ .blank := by
  constructor
  · intro none n found kind c hc m hm blank
    rw [keyless?_map found kind, List.find?_eq_none] at none
    exact none c (Array.mem_toList_iff.2 hc) ((isKeyless_iff hm).2 blank)
  · intro keyed
    cases found : t.nodes[id]? with
    | none => rw [keyless?, found, Option.bind_none]
    | some n =>
      by_cases kind : n.kind = .map
      · rw [keyless?_map found kind, List.find?_eq_none]
        intro c hc blank
        have hc := Array.mem_toList_iff.1 hc
        obtain ⟨_, m, hm, _⟩ := wf.down id n c found hc
        exact keyed n found kind c hc m hm ((isKeyless_iff hm).1 blank)
      · exact keyless?_other found kind

/-- The children of the maps at and below a node have keys if there is no first one without. -/
theorem keyed_iff (wf : t.WellFormed) (existing : id < t.size) :
    t.Keyed id ↔ t.firstKeyless? id = none := by
  rw [firstKeyless?, List.findSome?_eq_none_iff]
  constructor
  · intro keyed i hi
    have below := (mem_preorder wf existing).1 hi
    exact (keyless?_none wf).2 fun n found kind c hc m hm => keyed i n below found kind c hc m hm
  · intro none i n below found kind c hc m hm
    have hi := (mem_preorder wf existing).2 below
    exact (keyless?_none wf).1 (none i hi) n found kind c hc m hm

theorem firstKeyless?_cons (wf : t.WellFormed) (found : t.nodes[id]? = some n) :
    t.firstKeyless? id = (t.keyless? id).or (n.children.toList.findSome? t.firstKeyless?) := by
  have below (cs : List Nat) : (cs.flatMap t.preorder).findSome? t.keyless? =
      cs.findSome? t.firstKeyless? := by
    induction cs with
    | nil => rfl
    | cons c rest ih =>
      rw [List.flatMap_cons, List.findSome?_append, ih, List.findSome?_cons, firstKeyless?]
      cases (t.preorder c).findSome? t.keyless? <;> rfl
  rw [firstKeyless?, preorder_eq wf found, List.findSome?_cons, below]
  cases t.keyless? id <;> rfl

/-! ## Failing for it -/

/-- A result that is missing for the sake of a keyless child, if there is one. -/
def Decides {α : Type} (first : Option Nat) (r : Except Failure α) : Prop :=
  match first with
  | some c => r = .error (.noKey (.natural c))
  | none => ∃ a, r = .ok a

theorem Decides.ok {α : Type} (a : α) : Decides none (.ok a) := ⟨a, rfl⟩

theorem Decides.bind {α β : Type} {first second : Option Nat} {r : Except Failure α}
    {f : α → Except Failure β} (h : Decides first r) (h' : ∀ a, Decides second (f a)) :
    Decides (first.or second) (r >>= f) := by
  cases first with
  | some c =>
    rw [show r = .error (.noKey (.natural c)) from h]
    rfl
  | none =>
    obtain ⟨a, rfl⟩ := h
    rw [Option.none_or]
    exact h' a

/-- A list of results is missing for the first of them that is. -/
theorem decides_mapM {α β : Type} {first : α → Option Nat} {f : α → Except Failure β}
    {as : List α} (h : ∀ a ∈ as, Decides (first a) (f a)) :
    Decides (as.findSome? first) (as.mapM f) := by
  induction as with
  | nil => exact .ok []
  | cons a as ih =>
    obtain ⟨head, rest⟩ := List.forall_mem_cons.1 h
    have cons : (a :: as).findSome? first = (first a).or ((as.findSome? first).or none) := by
      rw [List.findSome?_cons, Option.or_none]
      cases first a <;> rfl
    rw [cons, List.mapM_cons]
    exact head.bind fun b => (ih rest).bind fun bs => .ok (b :: bs)

/-- The names of the children of a container are looked up until one is missing. -/
theorem names_decided (wf : t.WellFormed) (grounded : t.Grounded)
    (found : t.nodes[id]? = some n) (k : Nat) :
    Decides (t.keyless? id) (n.children.toList.mapM (t.name k n.kind)) := by
  by_cases kind : n.kind = .map
  · rw [keyless?_map found kind, List.find?_eq_findSome?_guard, kind]
    apply decides_mapM
    intro c hc
    obtain ⟨_, m, hm, _⟩ := wf.down id n c found (Array.mem_toList_iff.1 hc)
    rw [name, if_pos rfl]
    by_cases blank : m.key = .blank
    · rw [Option.guard, if_pos ((isKeyless_iff hm).2 blank), keyText_missing hm blank]
      rfl
    · obtain ⟨key, hkey⟩ := grounded.keyText hm blank
      rw [Option.guard, if_neg (mt (isKeyless_iff hm).1 blank), hkey]
      exact ⟨_, rfl⟩
  · have none : n.children.toList.findSome? (fun _ => (none : Option Nat)) = none :=
      List.findSome?_eq_none_iff.2 fun _ _ => rfl
    rw [keyless?_other found kind, ← none]
    exact decides_mapM fun c _ => ⟨[], if_neg kind⟩

/-- A node is printed unless there is a keyless child, and then it fails for the first one. -/
theorem print_decided (wf : t.WellFormed) (grounded : t.Grounded) (existing : id < t.size)
    (k depth : Nat) : Decides (t.firstKeyless? id) (t.print k id depth) := by
  refine wf.descend (motive := fun id => ∀ depth, Decides (t.firstKeyless? id)
    (t.print k id depth)) ?_ existing depth
  intro id n found ih depth
  rw [firstKeyless?_cons wf found]
  by_cases container : n.kind.isContainer = true
  · have names := names_decided wf grounded found k
    have values := decides_mapM (f := fun c => t.print k c (depth + 1))
      fun c hc => ih c (Array.mem_toList_iff.1 hc) (depth + 1)
    have all := names.bind fun names => values.bind fun values =>
      .ok (bracketed k n.kind depth names values)
    rw [Option.or_none] at all
    rw [print_container wf found container]
    exact all
  · have childless : n.children = #[] := by
      by_contra some
      exact container ((wf.proper id n found).parental some)
    have none : (t.keyless? id).or (n.children.toList.findSome? t.firstKeyless?) = none := by
      rw [keyless?_other found (fun kind => container (by rw [kind]; rfl)), childless]
      rfl
    rw [none]
    cases kind : n.kind with
    | unset => exact ⟨_, print_unset found kind⟩
    | scalar =>
      obtain ⟨j, reads⟩ := grounded.reads found
      exact ⟨_, (print_scalar found kind).trans (scalarText_of_reading (k := k) reads depth)⟩
    | map | seq =>
      rw [kind] at container
      exact absurd rfl container

/-! ## The walk that fails -/

/-- Each piece on the stack takes a turn. -/
theorem pieceTurns_pos (wf : t.WellFormed) {piece : Piece} (sound : t.Sound piece) :
    0 < t.pieceTurns piece := by
  cases piece with
  | text s => exact Nat.zero_lt_one
  | node q depth =>
    obtain ⟨id, rfl, existing, _⟩ := sound
    have some : 0 < (t.preorder id).length :=
      List.length_pos_of_mem ((mem_preorder wf existing).2 .self)
    rw [pieceTurns, pieceNodes]
    · omega
    · exact fun _ text => Piece.noConfusion text

/-- A stack that cannot be printed is not written, for the same reason. -/
theorem writePieces_error (wf : t.WellFormed) (hl : Indents l k) {fuel : Nat}
    {pieces : List Piece} (sound : ∀ piece ∈ pieces, t.Sound piece) {f : Failure}
    (fails : t.piecesText k pieces = .error f) (enough : t.turns pieces ≤ fuel)
    (out : List Spaced) : t.writePieces l fuel pieces out = .error f := by
  induction fuel generalizing pieces out with
  | zero =>
    cases pieces with
    | nil => cases fails
    | cons piece rest =>
      have := pieceTurns_pos wf (sound piece List.mem_cons_self)
      rw [turns_cons] at enough
      omega
  | succ fuel ih =>
    cases pieces with
    | nil => cases fails
    | cons piece rest =>
      obtain ⟨first, others⟩ := List.forall_mem_cons.1 sound
      cases piece with
      | text s =>
        rw [turns_cons, pieceTurns] at enough
        rw [writePieces_text]
        refine ih others ?_ (by omega) _
        cases later : t.piecesText k rest with
        | error g =>
          rw [piecesText, pieceText, later] at fails
          exact fails
        | ok text =>
          rw [piecesText, pieceText, later] at fails
          cases fails
      | node q depth =>
        obtain ⟨id, rfl, existing, high⟩ := first
        obtain ⟨n, found⟩ := exists_node existing
        rw [writePieces_node]
        rcases expand_unfolds wf hl found high with ⟨pieces, opens, unfolds⟩ | ⟨g, opens, print⟩
        · rw [opens]
          rw [unfolds.piecesText] at fails
          have fewer := unfolds.turns rest
          exact ih (unfolds.sound_append others) fails (by omega) out
        · rw [piecesText, pieceText, print] at fails
          cases fails
          rw [opens]
          rfl

/-! ## The greatest length -/

/-- A name behind its gap, with a comma before it, may be longer than texts may be. -/
def Crowded (t : Tree) (k most : Nat) : Prop :=
  ∃ kind c text depth, c < t.size ∧ depth ≤ c ∧ t.name k kind c = .ok text ∧
    most < k * depth + text.length + 2

/-- A result is the same with a greatest length, unless there is no room for a name. -/
def Restricts {α : Type} (t : Tree) (k most : Nat) (r r' : Except Failure α) : Prop :=
  r = r' ∨ (r = .error .overlong ∧ t.Crowded k most)

theorem Restricts.bind {α β : Type} {most : Nat} {r r' : Except Failure α}
    {f f' : α → Except Failure β} (h : t.Restricts k most r r')
    (h' : ∀ a, r' = .ok a → t.Restricts k most (f a) (f' a)) :
    t.Restricts k most (r >>= f) (r' >>= f') := by
  rcases h with rfl | ⟨rfl, crowded⟩
  · cases r with
    | error e => exact .inl rfl
    | ok a => exact h' a rfl
  · exact .inr ⟨rfl, crowded⟩

section Lengths

variable {most : Nat} (hl : l.indent = .natural k) (longest : l.longest = some most)

include hl

theorem unbounded_indents : Indents l.unbounded k := ⟨hl, rfl⟩

include longest

theorem padded_restricts (kind : Kind) {c : Nat} {text before after : Text} (inside : c < t.size)
    (high : depth ≤ c) (named : t.name k kind c = .ok text)
    (short : before.length + after.length ≤ text.length + 1) :
    t.Restricts k most (l.padded before after depth) (l.unbounded.padded before after depth) := by
  have unbounded := unbounded_indents hl
  obtain ⟨s, padded, rfl⟩ : ∃ s, l.unbounded.padded before after depth = .ok s ∧
      s = ⟨before ++ l.lineBreak, k * depth, after⟩ := ⟨_, unbounded.padded_eq .., by
    rw [show l.lineBreak = l.unbounded.lineBreak from rfl, unbounded.lineBreak]⟩
  have newline : l.lineBreak.length ≤ 1 := by
    unfold Layout.lineBreak
    split
    · exact Nat.le_refl 1
    · exact Nat.zero_le 1
  rw [padded_bounded padded, padded]
  split
  · exact .inl rfl
  · next long =>
    refine .inr ⟨rfl, kind, c, text, depth, inside, high, named, ?_⟩
    simp only [Layout.admits, longest, Option.all_some, decide_eq_true_eq, Spaced.length,
      List.length_append] at long
    omega

theorem childPieces_restricts (kind : Kind) {children : List Nat}
    (inside : ∀ c ∈ children, c < t.size ∧ depth ≤ c) (comma : Text) (short : comma.length ≤ 1) :
    t.Restricts k most (t.childPieces l kind depth comma children)
      (t.childPieces l.unbounded kind depth comma children) := by
  induction children generalizing comma with
  | nil => exact .inl rfl
  | cons c rest ih =>
    obtain ⟨⟨small, high⟩, others⟩ := List.forall_mem_cons.1 inside
    have label : t.label l kind c = t.name k kind c := (unbounded_indents hl).label kind c
    rw [childPieces_cons, childPieces_cons, (unbounded_indents hl).label, label]
    refine Restricts.bind (.inl rfl) fun text named => ?_
    refine (padded_restricts hl longest kind small high named (by omega)).bind fun before _ => ?_
    exact (ih others [unit ','] (Nat.le_refl 1)).bind fun _ _ => .inl rfl

theorem expand_restricts (wf : t.WellFormed) (found : t.nodes[id]? = some n)
    (high : depth ≤ id) : t.Restricts k most (t.expand l (.natural id) depth)
      (t.expand l.unbounded (.natural id) depth) := by
  rw [expand_eq found, expand_eq found]
  have inside : ∀ c ∈ n.children.toList, c < t.size ∧ depth + 1 ≤ c := by
    intro c hc
    obtain ⟨later, _, hm, _⟩ := wf.down id n c found (Array.mem_toList_iff.1 hc)
    exact ⟨lt_size hm, by omega⟩
  have container (kind : Kind) : t.Restricts k most
      (do
        let pieces ← t.childPieces l kind (depth + 1) [] n.children.toList
        let last ← l.padded [] (closing kind) depth
        return Piece.text { before := opening kind } :: (pieces ++ [.text last]))
      (do
        let pieces ← t.childPieces l.unbounded kind (depth + 1) [] n.children.toList
        let last ← l.unbounded.padded [] (closing kind) depth
        return Piece.text { before := opening kind } :: (pieces ++ [.text last])) := by
    have one : (closing kind).length = 1 := by
      unfold closing
      split <;> rfl
    have children := childPieces_restricts hl longest kind inside [] (Nat.zero_le 1)
    refine children.bind fun pieces _ => ?_
    refine Restricts.bind ?_ fun last _ => .inl rfl
    exact padded_restricts hl longest .seq (lt_size found) high rfl (by simp [one])
  cases n.kind with
  | unset | scalar => exact .inl rfl
  | map | seq =>
    dsimp only
    split
    · exact .inl rfl
    · exact container _

/-- A greatest length makes no other difference to the walk than that it may end at a name that has
no room behind its gap. -/
theorem writePieces_restricts (wf : t.WellFormed) (fuel : Nat) {pieces : List Piece}
    (sound : ∀ piece ∈ pieces, t.Sound piece) (out : List Spaced) :
    t.Restricts k most (t.writePieces l fuel pieces out)
      (t.writePieces l.unbounded fuel pieces out) := by
  induction fuel generalizing pieces out with
  | zero =>
    cases pieces with
    | nil => exact .inl rfl
    | cons piece rest => exact .inl rfl
  | succ fuel ih =>
    cases pieces with
    | nil => exact .inl rfl
    | cons piece rest =>
      obtain ⟨first, others⟩ := List.forall_mem_cons.1 sound
      cases piece with
      | text s =>
        rw [writePieces_text, writePieces_text]
        exact ih others (s :: out)
      | node q depth =>
        obtain ⟨id, rfl, existing, high⟩ := first
        obtain ⟨n, found⟩ := exists_node existing
        rw [writePieces_node, writePieces_node]
        refine (expand_restricts hl longest wf found high).bind fun pieces opens => ?_
        rcases expand_unfolds wf (unbounded_indents hl) found high with
          ⟨pieces', opens', unfolds⟩ | ⟨f, fails, _⟩
        · rw [opens] at opens'
          cases opens'
          exact ih (unfolds.sound_append others) out
        · rw [opens] at fails
          cases fails

end Lengths

/-! ## Nodes that are not written -/

theorem sound_top (existing : id < t.size) :
    ∀ piece ∈ [Piece.node (.natural id) 0], t.Sound piece :=
  List.forall_mem_singleton.2 ⟨id, rfl, existing, Nat.zero_le id⟩

theorem render_of_error {node : Quantity} {f : Failure}
    (fails : t.writePieces l t.renderFuel [.node node 0] [] = .error f) :
    t.render l node = .error f := by
  rw [render_def, fails]
  rfl

theorem render_unknown {node : Quantity} (nowhere : t.node? node = none) (l : Layout) :
    t.render l node = .error (.unknownNode node t.size) := by
  have opens : t.expand l node 0 = .error (.unknownNode node t.size) := by
    rw [expand_def, node_none nowhere]
    rfl
  apply render_of_error
  rw [renderFuel, writePieces_node, opens]
  rfl

/-- The walk of a node fails for the first keyless child, if texts may have any length. -/
theorem walk_keyless (wf : t.WellFormed) (grounded : t.Grounded) (existing : id < t.size)
    {c : Nat} (first : t.firstKeyless? id = some c) (hl : Indents l k) :
    t.writePieces l t.renderFuel [.node (.natural id) 0] [] = .error (.noKey (.natural c)) := by
  have print := print_decided wf grounded existing k 0
  rw [first] at print
  refine writePieces_error wf hl (sound_top existing) ?_ ?_ []
  · rw [piecesText, pieceText, show t.print k id 0 = .error (.noKey (.natural c)) from print]
    rfl
  · have := length_preorder_le wf existing
    rw [turns_cons, turns, pieceTurns, pieceNodes, renderFuel, List.map_nil, List.sum_nil]
    · omega
    · exact fun _ text => Piece.noConfusion text

/-- With a number of spaces beyond all texts the first child is looked up before any padding. -/
theorem render_keyless_huge (wf : t.WellFormed) (grounded : t.Grounded) (existing : id < t.size)
    {c : Nat} (first : t.firstKeyless? id = some c) {x : Binary64} {most : Nat}
    (hl : l = ⟨.irregular x, some most⟩) (whole : x.toInt? = some (k : Int)) (less : most < k) :
    t.Restricts k most (t.render l (.natural id)) (.error (.noKey (.natural c))) := by
  obtain ⟨n, found⟩ := exists_node existing
  rw [firstKeyless?_cons wf found] at first
  cases children : n.children.toList with
  | nil =>
    have none : t.keyless? id = none := (keyless?_none wf).2 fun m hm _ d hd => by
      rw [found] at hm
      cases hm
      rw [← Array.mem_toList_iff, children] at hd
      cases hd
    rw [none, children] at first
    cases first
  | cons d rest =>
    have mem : d ∈ n.children := Array.mem_toList_iff.1 (by rw [children]; exact List.mem_cons_self)
    obtain ⟨later, m, hm, _⟩ := wf.down id n d found mem
    have container := (wf.proper id n found).parental (Array.ne_empty_of_mem mem)
    have padding : l.padding 1 = .ok k := padding_huge (by rw [hl]) whole
    -- The first child has a name, or it is the one that is looked for.
    have refused {text text' : Text} (label : t.label l n.kind d = .ok text)
        (named : t.name k n.kind d = .ok text') :
        t.Restricts k most (t.render l (.natural id)) (.error (.noKey (.natural c))) := by
      refine .inr ⟨?_, n.kind, d, text', 1, lt_size hm, by omega, named, by omega⟩
      exact render_refused found container children label padding (by rw [hl]) less
    by_cases kind : n.kind = .map
    · by_cases blank : m.key = .blank
      · have here : t.keyless? id = some d := by
          rw [keyless?_map found kind, children]
          exact List.find?_cons_of_pos ((isKeyless_iff hm).2 blank)
        rw [here] at first
        cases first
        have label : t.label l n.kind c = .error (.noKey (.natural c)) := by
          rw [label_def, if_pos kind, keyText_missing hm blank]
          rfl
        have some : n.children.isEmpty = false :=
          Bool.eq_false_iff.2 (mt Array.isEmpty_iff.1 (Array.ne_empty_of_mem mem))
        have opens : t.expand l (.natural id) 0 = .error (.noKey (.natural c)) := by
          rw [expand_container found container some, children, childPieces_cons, label]
          rfl
        refine .inl (render_of_error ?_)
        rw [renderFuel, writePieces_node, opens]
        rfl
      · obtain ⟨key, hkey⟩ := grounded.keyText hm blank
        apply refused
        · rw [label_def, if_pos kind, hkey]
          rfl
        · rw [name, if_pos kind, hkey]
          rfl
    · exact refused (if_neg kind) (if_neg kind)

/-- A whole number of spaces is below 2^53, or it is beyond all texts. -/
theorem settings_render {s : RenderSettings} {indent : Binary64} (given : s.indent? = some indent)
    (whole : indent.toInt? = some (k : Int)) (t : Tree) :
    s.render t = t.render ⟨.natural k, some RenderSettings.longestText⟩ (nodeOf s.node?) ∨
    (RenderSettings.longestText < k ∧ s.render t =
      t.render ⟨.irregular indent, some RenderSettings.longestText⟩ (nodeOf s.node?)) := by
  rw [RenderSettings.render_def, RenderSettings.layout, given, Option.getD_some,
    Quantity.ofBinary64, whole]
  by_cases usual : k < Nat.pow 2 53
  · exact .inl (congrArg (fun q => t.render ⟨q, _⟩ _) (if_pos usual))
  · have : RenderSettings.longestText < Nat.pow 2 53 := by decide
    exact .inr ⟨by omega, congrArg (fun q => t.render ⟨q, _⟩ _) (if_neg usual)⟩

/-- A node is not written for the sake of a keyless child, with any whole number of spaces. -/
theorem settings_keyless (wf : t.WellFormed) (grounded : t.Grounded) (existing : id < t.size)
    {c : Nat} (first : t.firstKeyless? id = some c) {s : RenderSettings}
    (node : nodeOf s.node? = .natural id) {indent : Binary64} (given : s.indent? = some indent)
    (whole : indent.toInt? = some (k : Int)) :
    t.Restricts k RenderSettings.longestText (s.render t) (.error (.noKey (.natural c))) := by
  rcases settings_render given whole t with same | ⟨less, same⟩ <;> rw [same, node]
  · rcases writePieces_restricts (l := ⟨.natural k, some RenderSettings.longestText⟩) rfl rfl wf
      t.renderFuel (sound_top existing) [] with walk | ⟨overlong, crowded⟩
    · rw [walk_keyless wf grounded existing first (unbounded_indents rfl)] at walk
      exact .inl (render_of_error walk)
    · exact .inr ⟨render_of_error overlong, crowded⟩
  · exact render_keyless_huge wf grounded existing first rfl whole less

/-! ## What is seen of it -/

theorem not_ok_error {ε α : Type} (e : ε) : ¬ ∃ a : α, (.error e : Except ε α) = .ok a := by
  rintro ⟨_, same⟩
  cases same

theorem perform_ask_ok {α : Type} {query : Tree → Except Failure α} {a : α}
    (h : query t = .ok a) (handler : Option Handler) :
    (Edit.ask query).perform handler t = ⟨t, [], .ok a, true⟩ :=
  Edit.perform_ok (congrArg (·, t) h)

theorem perform_ask_reported {α : Type} {query : Tree → Except Failure α} {f : Failure}
    (h : query t = .error f) (handler : Handler) {report : Report}
    (reported : f.report? = some report) :
    (Edit.ask query).perform (some handler) t =
      ⟨t, [report], .error (report.deliver handler), true⟩ :=
  Edit.perform_reported (congrArg (·, t) h) reported

theorem perform_ask_overlong {α : Type} {query : Tree → Except Failure α}
    (h : query t = .error .overlong) (handler : Handler) :
    (Edit.ask query).perform (some handler) t =
      ⟨t, [], .error (.range (lit "Invalid string length")), true⟩ :=
  Edit.perform_error (congrArg (·, t) h)

/-- The text of a node is written under any settings, unless it is longer than texts may be. -/
theorem settings_written {text : Text} (emits : t.Emits id k text) {s : RenderSettings}
    (node : nodeOf s.node? = .natural id)
    (asked : ∃ indent, s.indent? = some indent ∧ indent.toInt? = some (k : Int)) :
    s.render t = .ok text ∨
      s.render t = .error .overlong ∧ RenderSettings.longestText < text.length := by
  have given := emits.2 s node asked
  split at given
  · exact .inl given
  · next long => exact .inr ⟨given, Nat.lt_of_not_le long⟩

/-- A node that is not keyed throughout is not written, for the sake of its first keyless child. -/
theorem render_keyless (wf : t.WellFormed) (grounded : t.Grounded) (existing : id < t.size)
    (loose : ¬ t.Keyed id) (k : Nat) : ∃ c, t.firstKeyless? id = some c ∧
      t.render ⟨.natural k, none⟩ (.natural id) = .error (.noKey (.natural c)) := by
  obtain ⟨c, first⟩ := Option.ne_none_iff_exists'.1 (mt (keyed_iff wf existing).2 loose)
  exact ⟨c, first, render_of_error (walk_keyless wf grounded existing first ⟨rfl, rfl⟩)⟩

/-- **A node is written, or one report says why it is not.** In every reachable tree whose spans its
arena handed out, under any handler and with any whole number of spaces, a text is the result if
the node is there and no map at or below it has a child without a key, and then nothing is
reported. Otherwise there is exactly one report: that there is no such node, or else that a child
has no key, which is the first keyless child of the first map that has one, in pre-order. What the
handler makes of the report is raised. The tree stays as it is. All of this holds of the settings
that a caller gives, unless the text is longer than texts may be, or a name has no room behind its
gap before the walk comes to the keyless child. Then an error is raised that is not reported. -/
theorem render_reported (reachable : t.Reachable) (grounded : t.Grounded) (handler : Handler)
    (node : Quantity) (k : Nat) {outcome : Outcome Text}
    (performed : outcome =
      Attended.outcome (askM (·.renderM ⟨.natural k, none⟩ node)) handler t) :
    outcome.tree = t ∧ outcome.ends = true ∧
    ((∃ text, outcome.result = .ok text) ↔ ∃ id, node = .natural id ∧ id < t.size ∧ t.Keyed id) ∧
    ((∃ text, outcome.result = .ok text) → outcome.reports = []) ∧
    (t.node? node = none → ∃ report : Report, report = ⟨lit "Unknown node id " ++ node.text ++
        lit " (tree has " ++ .ofNat t.size ++ lit " nodes).", none⟩ ∧
      outcome.reports = [report] ∧ outcome.result = .error (report.deliver handler)) ∧
    (∀ id, node = .natural id → id < t.size → ¬ t.Keyed id → ∃ (c : Nat) (report : Report),
      t.firstKeyless? id = some c ∧
      report = ⟨lit "Node " ++ .ofNat c ++ lit " has no key.", none⟩ ∧
      outcome.reports = [report] ∧ outcome.result = .error (report.deliver handler)) ∧
    ∀ s : RenderSettings, nodeOf s.node? = node →
      (∃ indent, s.indent? = some indent ∧ indent.toInt? = some (k : Int)) →
      Attended.outcome (askM s.renderM) handler t = outcome ∨
        Attended.outcome (askM s.renderM) handler t =
            ⟨t, [], .error (.range (lit "Invalid string length")), true⟩ ∧
          (t.Crowded k RenderSettings.longestText ∨
            ∃ text, outcome.result = .ok text ∧ RenderSettings.longestText < text.length) := by
  have wf := reachable.wellFormed
  have asked (s : RenderSettings) : Attended.outcome (askM s.renderM) handler t =
      (Edit.ask s.render).perform (some handler) t :=
    Attended.outcome_ask fun t => Attended.questions.render t s.layout (nodeOf s.node?)
  rw [Attended.outcome_ask fun t => Attended.questions.render t _ _] at performed
  by_cases there : ∃ id, node = .natural id ∧ id < t.size
  · obtain ⟨id, rfl, existing⟩ := there
    obtain ⟨n, found⟩ := exists_node existing
    have known : t.node? (.natural id) ≠ none := fun none => by
      rw [node?, found] at none
      cases none
    by_cases keyed : t.Keyed id
    · obtain ⟨document, depicts⟩ := exists_depicts wf grounded existing keyed
      have emits := depicts.emits wf existing k
      rw [perform_ask_ok (emits.1 none)] at performed
      subst performed
      refine ⟨rfl, rfl, iff_of_true ⟨_, rfl⟩ ⟨id, rfl, existing, keyed⟩, fun _ => rfl,
        fun none => absurd none known, ?_, ?_⟩
      · rintro _ same _ loose
        cases same
        exact absurd keyed loose
      · intro s at_id whole
        rw [asked]
        rcases settings_written emits at_id whole with same | ⟨overlong, long⟩
        · exact .inl (perform_ask_ok same _)
        · exact .inr ⟨perform_ask_overlong overlong _, .inr ⟨_, rfl, long⟩⟩
    · obtain ⟨c, first, fails⟩ := render_keyless wf grounded existing keyed k
      rw [perform_ask_reported fails handler rfl] at performed
      subst performed
      refine ⟨rfl, rfl, iff_of_false (not_ok_error _) ?_, fun ok => absurd ok (not_ok_error _),
        fun none => absurd none known, ?_, ?_⟩
      · rintro ⟨_, same, _, all⟩
        cases same
        exact keyed all
      · rintro _ same _ _
        cases same
        exact ⟨c, _, first, rfl, rfl, rfl⟩
      · rintro s at_id ⟨indent, given, whole⟩
        rw [asked]
        rcases settings_keyless wf grounded existing first at_id given whole with
          same | ⟨overlong, crowded⟩
        · exact .inl (perform_ask_reported same handler rfl)
        · exact .inr ⟨perform_ask_overlong overlong _, .inl crowded⟩
  · have nowhere : t.node? node = none := by
      cases node with
      | irregular x => rfl
      | natural id => exact Array.getElem?_eq_none (Nat.le_of_not_lt fun h => there ⟨id, rfl, h⟩)
    rw [perform_ask_reported (render_unknown nowhere _) handler rfl] at performed
    subst performed
    refine ⟨rfl, rfl, iff_of_false (not_ok_error _) ?_, fun ok => absurd ok (not_ok_error _),
      fun _ => ⟨_, rfl, rfl, rfl⟩, ?_, ?_⟩
    · rintro ⟨id, same, existing, _⟩
      exact there ⟨id, same, existing⟩
    · intro id same existing _
      exact absurd ⟨id, same, existing⟩ there
    · intro s at_node _
      rw [asked]
      refine .inl (perform_ask_reported (f := .unknownNode node t.size) ?_ handler rfl)
      rw [RenderSettings.render_def, at_node]
      exact render_unknown nowhere _

/-- A seq of a map whose child is unset, so that it has no key, under a handler that returns. -/
theorem render_reported_unset :
    let t := (ofArena (.empty 1)).after [.makeSeq (.natural 0) .blank, .addChild (.natural 0),
      .makeMap (.natural 1) .blank, .addChild (.natural 1)]
    ∃ outcome : Outcome Text, outcome =
        Attended.outcome (askM (·.renderM ⟨.natural 2, none⟩ (.natural 0))) (fun _ => none) t ∧
      outcome.reports = [⟨lit "Node 2 has no key.", none⟩] ∧
      outcome.result = .error (.report
        ⟨lit "error handler returned normally after: Node 2 has no key.", none⟩) ∧
      outcome.tree = t := by
  intro t
  have reachable : t.Reachable :=
    .step (.step (.step (.step (.new create_infinite) (.makeSeq (.natural 0) .blank))
      (.addChild (.natural 0))) (.makeMap (.natural 1) .blank)) (.addChild (.natural 1))
  have wf := reachable.wellFormed
  have grounded : t.Grounded := by
    intro i n h
    have hlt : i < 3 := lt_size h
    obtain rfl | rfl | rfl : i = 0 ∨ i = 1 ∨ i = 2 := by omega
    all_goals
      cases h
      exact ⟨.inl rfl, .inl rfl⟩
  have inner : t.firstKeyless? 1 = some 2 := by
    rw [firstKeyless?_cons wf (n := { kind := .map, parent := some 0, children := #[2] }) rfl]
    rfl
  have first : t.firstKeyless? 0 = some 2 := by
    rw [firstKeyless?_cons wf (n := { kind := .seq, children := #[1] }) rfl, List.findSome?_cons,
      inner]
    rfl
  have existing : 0 < t.size := Nat.zero_lt_succ 2
  have loose : ¬ t.Keyed 0 := by
    rw [keyed_iff wf existing, first]
    nofun
  obtain ⟨same, _, _, _, _, keyless, _⟩ :=
    render_reported reachable grounded (fun _ => none) (.natural 0) 2 rfl
  obtain ⟨c, report, hc, rfl, reports, result⟩ := keyless 0 rfl existing loose
  rw [first] at hc
  cases hc
  exact ⟨_, rfl, reports, result, same⟩

/-- A seq of an item. With more spaces than any text has it is not written, although no map is
there, and this is not reported. -/
theorem render_overlong :
    let t := new.after [.makeSeq (.natural 0) .blank, .addChild (.natural 0)]
    ∃ s : RenderSettings, s.indent? = some (.ofNat 536870889) ∧ nodeOf s.node? = .natural 0 ∧
      0 < t.size ∧ t.Keyed 0 ∧ (Attended.outcome (askM s.renderM) Report.raise t).result =
        .error (.range (lit "Invalid string length")) ∧
      (Attended.outcome (askM s.renderM) Report.raise t).reports = [] := by
  intro t
  refine ⟨{ indent := .given (.ofNat 536870889) }, rfl, rfl, by decide, ?_, by decide +kernel,
    by decide +kernel⟩
  intro i n _ found kind
  have small : i < 2 := lt_size found
  obtain rfl | rfl : i = 0 ∨ i = 1 := by omega
  all_goals
    cases found
    cases kind

end SpanTree.Tree
