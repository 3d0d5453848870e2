import SpanTree.Proofs.Paths
import SpanTree.Proofs.Preorder
import SpanTree.Proofs.Rendering

/-!
# The walk of a tree and the recursion over it

What the walk with a stack writes is what a recursion over the nodes prints.

* `Tree.print`: the text of a node by recursion over it and the nodes below it;
* `Unfolds`: opening a node puts pieces on the stack that print as the node does, and that take
  fewer turns;
* `Tree.Walk`: the walk from a stack to its end, with the nodes that it opens;
* `render_recursive`: a node is written as it is printed, each node below it is opened once, and
  the text of each of them is a stretch of the whole.
-/

namespace SpanTree.Tree

open Json (gap colon lastGap printed)

variable {t : Tree} {l : Layout} {k id depth : Nat} {n : Node}

/-! ## Printing by recursion -/

/-- What stands before the text of a child: its key and a colon in a map, nothing in a seq. -/
def name (t : Tree) (k : Nat) (kind : Kind) (child : Nat) : Except Failure Text :=
  if kind = .map then (t.keyText (.natural child)).map fun key => Quoted.quote key ++ colon k
  else .ok []

/-- The children of a container, each on a line of its own behind its name. -/
def lines (k depth : Nat) (names values : List Text) : List Text :=
  List.zipWith (fun name value => gap k depth ++ (name ++ value)) names values

/-- A container in its brackets, from the names and the texts of its children. -/
def bracketed (k : Nat) (kind : Kind) (depth : Nat) (names values : List Text) : Text :=
  let inside := Text.join [unit ','] (lines k (depth + 1) names values) ++ lastGap k depth names
  if kind = .map then unit '\x7b' :: (inside ++ [unit '\x7d'])
  else unit '[' :: (inside ++ [unit ']'])

/-- The walk writes these brackets. -/
theorem bracketed_eq (k : Nat) (kind : Kind) (depth : Nat) (names values : List Text) :
    bracketed k kind depth names values =
      opening kind ++ (Text.join [unit ','] (lines k (depth + 1) names values) ++
        (lastGap k depth names ++ closing kind)) := by
  unfold bracketed opening closing
  dsimp only
  by_cases map : kind = .map
  · rw [if_pos map, if_pos map, if_pos map, List.append_assoc]
    rfl
  · rw [if_neg map, if_neg map, if_neg map, List.append_assoc]
    rfl

theorem lines_map {α : Type} (depth : Nat) (name value : α → Text) (members : List α) :
    lines k depth (members.map name) (members.map value) =
      members.map fun m => gap k depth ++ (name m ++ value m) := by
  rw [lines, List.zipWith_map, List.zipWith_self]

/-- A node and what is below it as JSON, by recursion. The names of all children of a container are
looked up before any child is printed. -/
def print (t : Tree) (k id depth : Nat) : Except Failure Text :=
  match _found : t.nodes[id]? with
  | none => .error (.unknownNode (.natural id) t.size)
  | some n =>
    match n.kind with
    | .unset => .ok (lit "null")
    | .scalar => t.scalarText n
    | kind => do
      let names ← n.children.toList.mapM (t.name k kind)
      let values ← n.children.toList.mapM fun c =>
        if id < c then print t k c (depth + 1) else .error (.unknownNode (.natural c) t.size)
      return bracketed k kind depth names values
termination_by t.size - id
decreasing_by
  have := lt_size _found
  omega

theorem print_eq (found : t.nodes[id]? = some n) (depth : Nat) :
    t.print k id depth = match n.kind with
      | .unset => .ok (lit "null")
      | .scalar => t.scalarText n
      | kind => do
        let names ← n.children.toList.mapM (t.name k kind)
        let values ← n.children.toList.mapM fun c =>
          if id < c then t.print k c (depth + 1) else .error (.unknownNode (.natural c) t.size)
        return bracketed k kind depth names values := by
  rw [print]
  split
  · next none =>
    rw [found] at none
    cases none
  · next m found' =>
    rw [found] at found'
    cases found'
    rfl

theorem print_unset (found : t.nodes[id]? = some n) (kind : n.kind = .unset) :
    t.print k id depth = .ok (lit "null") := by
  rw [print_eq found, kind]

theorem print_scalar (found : t.nodes[id]? = some n) (kind : n.kind = .scalar) :
    t.print k id depth = t.scalarText n := by
  rw [print_eq found, kind]

theorem mapM_congr {α β : Type} {f g : α → Except Failure β} {as : List α}
    (h : ∀ a ∈ as, f a = g a) : as.mapM f = as.mapM g := by
  induction as with
  | nil => rfl
  | cons a as ih =>
    rw [List.mapM_cons, List.mapM_cons, h a List.mem_cons_self,
      ih fun other ho => h other (List.mem_cons_of_mem _ ho)]

/-- A list of results that are all there is the list of what they are. -/
theorem mapM_eq_ok {α β : Type} {f : α → Except Failure β} {as : List α} {bs : List β} :
    as.mapM f = .ok bs ↔ List.Forall₂ (fun a b => f a = .ok b) as bs := by
  induction as generalizing bs with
  | nil =>
    rw [List.mapM_nil, List.forall₂_nil_left_iff]
    exact ⟨fun h => (Except.ok.inj h).symm, fun h => congrArg Except.ok h.symm⟩
  | cons a as ih =>
    rw [List.mapM_cons, List.forall₂_cons_left_iff]
    constructor
    · intro h
      cases first : f a with
      | error e =>
        rw [first] at h
        cases h
      | ok b =>
        cases later : as.mapM f with
        | error e =>
          rw [first, later] at h
          cases h
        | ok bs' =>
          rw [first, later] at h
          cases h
          exact ⟨b, bs', rfl, ih.1 later, rfl⟩
    · rintro ⟨b, bs', first, later, rfl⟩
      rw [first, ih.2 later]
      rfl

theorem print_container (wf : t.WellFormed) (found : t.nodes[id]? = some n)
    (container : n.kind.isContainer = true) :
    t.print k id depth = do
      let names ← n.children.toList.mapM (t.name k n.kind)
      let values ← n.children.toList.mapM fun c => t.print k c (depth + 1)
      return bracketed k n.kind depth names values := by
  have guards : (n.children.toList.mapM fun c =>
      if id < c then t.print k c (depth + 1) else .error (.unknownNode (.natural c) t.size)) =
      n.children.toList.mapM fun c => t.print k c (depth + 1) := by
    refine mapM_congr fun c hc => if_pos ?_
    exact (wf.down id n c found (Array.mem_toList_iff.1 hc)).1
  rw [print_eq found]
  cases kind : n.kind with
  | unset | scalar =>
    rw [kind] at container
    cases container
  | map | seq =>
    dsimp only
    rw [guards]

/-! ## The pieces on the stack -/

/-- What a piece on the stack prints. -/
def pieceText (t : Tree) (k : Nat) : Piece → Except Failure Text
  | .text s => .ok s.text
  | .node (.natural id) depth => t.print k id depth
  | .node (.irregular x) _ => .error (.unknownNode (.irregular x) t.size)

def piecesText (t : Tree) (k : Nat) : List Piece → Except Failure Text
  | [] => .ok []
  | piece :: rest => do return (← t.pieceText k piece) ++ (← piecesText t k rest)

/-- The nodes at and below a piece on the stack, in pre-order. -/
def pieceNodes (t : Tree) : Piece → List Nat
  | .node (.natural id) _ => t.preorder id
  | _ => []

/-- The most turns that a piece on the stack takes. A node is opened, takes two texts for its
brackets or one for its value, and one text before it. -/
def pieceTurns (t : Tree) : Piece → Nat
  | .text _ => 1
  | piece => 4 * (t.pieceNodes piece).length - 1

/-- The most turns that the pieces on the stack take together. -/
def turns (t : Tree) (pieces : List Piece) : Nat := (pieces.map t.pieceTurns).sum

/-- A text, or a node that is there. A node has a greater id than each of those above it, so it is
no deeper than its id says. -/
def Sound (t : Tree) : Piece → Prop
  | .text _ => True
  | .node id depth => ∃ i, id = .natural i ∧ i < t.size ∧ depth ≤ i

theorem piecesText_append (before after : List Piece) :
    t.piecesText k (before ++ after) = do
      return (← t.piecesText k before) ++ (← t.piecesText k after) := by
  induction before with
  | nil => cases h : t.piecesText k after <;> rw [List.nil_append, h] <;> rfl
  | cons piece rest ih =>
    rw [List.cons_append, piecesText, piecesText, ih]
    cases t.pieceText k piece with
    | error f => rfl
    | ok text =>
      cases t.piecesText k rest with
      | error f => rfl
      | ok text' =>
        cases t.piecesText k after with
        | error f => rfl
        | ok text'' => exact congrArg Except.ok (List.append_assoc text text' text'').symm

theorem turns_cons (piece : Piece) (rest : List Piece) :
    t.turns (piece :: rest) = t.pieceTurns piece + t.turns rest := by
  rw [turns, List.map_cons, List.sum_cons, turns]

theorem turns_append (before after : List Piece) :
    t.turns (before ++ after) = t.turns before + t.turns after := by
  rw [turns, List.map_append, List.sum_append, turns, turns]

/-- The pieces of the children of a container, from their names. -/
def woven (k depth : Nat) : Text → List Nat → List Text → List Piece
  | comma, c :: cs, name :: names =>
    .text ⟨comma ++ (if 0 < k then [unit '\n'] else []), k * depth, name⟩ ::
      .node (.natural c) depth :: woven k depth [unit ','] cs names
  | _, _, _ => []

theorem Indents.label (hl : Indents l k) (kind : Kind) (c : Nat) :
    t.label l kind c = t.name k kind c := by
  rw [label_def, name]
  split
  · rw [hl.separator]
    cases t.keyText (.natural c) <;> rfl
  · rfl

theorem Indents.padded_eq (hl : Indents l k) (before after : Text) (depth : Nat) :
    l.padded before after depth =
      .ok ⟨before ++ (if 0 < k then [unit '\n'] else []), k * depth, after⟩ := by
  simp only [Layout.padded, Layout.padding, hl.1, Layout.admits, hl.2, Option.all_none, if_true,
    hl.lineBreak]
  rfl

theorem childPieces_eq (hl : Indents l k) (kind : Kind) (comma : Text) (children : List Nat) :
    t.childPieces l kind depth comma children =
      (children.mapM (t.name k kind)).map (woven k depth comma children) := by
  induction children generalizing comma with
  | nil => rfl
  | cons c rest ih =>
    rw [childPieces_cons, hl.label, List.mapM_cons]
    cases t.name k kind c with
    | error f => rfl
    | ok name =>
      simp only [hl.padded_eq, ih, bind, Except.bind]
      cases rest.mapM (t.name k kind) with
      | error f => rfl
      | ok names => rfl

theorem piecesText_woven (k depth : Nat) {children : List Nat} {names : List Text}
    (length : children.length = names.length) (comma : Text) :
    t.piecesText k (woven k depth comma children names) =
      (children.mapM fun c => t.print k c depth).map fun values =>
        childTexts comma (lines k depth names values) := by
  induction children generalizing names comma with
  | nil =>
    rw [List.eq_nil_of_length_eq_zero length.symm]
    rfl
  | cons c rest ih =>
    obtain ⟨name, names, rfl⟩ := List.exists_cons_of_length_eq_add_one length.symm
    rw [woven, piecesText, piecesText, ih (Nat.succ.inj length), List.mapM_cons, pieceText,
      pieceText]
    cases t.print k c depth with
    | error f => rfl
    | ok value =>
      cases rest.mapM fun c => t.print k c depth with
      | error f => rfl
      | ok values =>
        refine congrArg Except.ok ?_
        dsimp only
        rw [childTexts_comma, lines, lines, List.zipWith_cons_cons, childTexts, Spaced.text, gap]
        simp only [List.append_assoc]

theorem pieceNodes_woven (k depth : Nat) {children : List Nat} {names : List Text}
    (length : children.length = names.length) (comma : Text) :
    (woven k depth comma children names).flatMap t.pieceNodes = children.flatMap t.preorder := by
  induction children generalizing names comma with
  | nil => rfl
  | cons c rest ih =>
    obtain ⟨name, names, rfl⟩ := List.exists_cons_of_length_eq_add_one length.symm
    rw [woven, List.flatMap_cons, List.flatMap_cons, ih (Nat.succ.inj length), List.flatMap_cons]
    rfl

theorem sound_woven (k depth : Nat) {children : List Nat}
    (inside : ∀ c ∈ children, c < t.size ∧ depth ≤ c) (names : List Text) (comma : Text) :
    ∀ piece ∈ woven k depth comma children names, t.Sound piece := by
  induction children generalizing names comma with
  | nil => exact fun _ mem => absurd mem List.not_mem_nil
  | cons c rest ih =>
    cases names with
    | nil => exact fun _ mem => absurd mem List.not_mem_nil
    | cons name names =>
      have later := ih (fun c hc => inside c (List.mem_cons_of_mem _ hc)) names [unit ',']
      refine List.forall_mem_cons.2 ⟨trivial, List.forall_mem_cons.2 ⟨?_, later⟩⟩
      exact ⟨c, rfl, inside c List.mem_cons_self⟩

/-- A node takes three turns at least. -/
theorem turns_woven (wf : t.WellFormed) (k depth : Nat) {children : List Nat}
    (inside : ∀ c ∈ children, c < t.size ∧ depth ≤ c) {names : List Text}
    (length : children.length = names.length) (comma : Text) :
    t.turns (woven k depth comma children names) =
      4 * (children.flatMap t.preorder).length := by
  induction children generalizing names comma with
  | nil => rfl
  | cons c rest ih =>
    obtain ⟨name, names, rfl⟩ := List.exists_cons_of_length_eq_add_one length.symm
    have some : 0 < (t.preorder c).length := List.length_pos_of_mem
      ((mem_preorder wf (inside c List.mem_cons_self).1).2 .self)
    have later := ih (fun c hc => inside c (List.mem_cons_of_mem _ hc)) (Nat.succ.inj length)
      [unit ',']
    rw [woven, turns_cons, turns_cons, later, List.flatMap_cons, List.length_append, pieceTurns,
      pieceTurns, pieceNodes]
    · omega
    · exact fun _ text => Piece.noConfusion text

/-! ## Opening a node -/

/-- Pieces that a node is replaced by: they print as the node does, the nodes at and below them
are those below the node, and they take fewer turns. -/
structure Unfolds (t : Tree) (k id depth : Nat) (pieces : List Piece) : Prop where
  sound : ∀ piece ∈ pieces, t.Sound piece
  print : t.print k id depth = t.piecesText k pieces
  nodes : t.preorder id = id :: pieces.flatMap t.pieceNodes
  fewer : t.turns pieces < 4 * (t.preorder id).length - 1

/-- A node without children is replaced by its text. -/
theorem unfolds_text (wf : t.WellFormed) (found : t.nodes[id]? = some n)
    (childless : n.children = #[]) {text : Text} (print : t.print k id depth = .ok text) :
    t.Unfolds k id depth [.text { before := text }] := by
  have only : t.preorder id = [id] := by
    rw [preorder_eq wf found, childless]
    rfl
  refine ⟨List.forall_mem_singleton.2 trivial, ?_, only, ?_⟩
  · rw [print, piecesText, pieceText, text_plain, piecesText]
    exact congrArg Except.ok (List.append_nil text).symm
  · rw [only]
    exact Nat.lt_of_lt_of_le (by decide : 1 < 3) (Nat.le_refl 3)

/-- A container with children is replaced by its brackets around them. -/
theorem unfolds_container (wf : t.WellFormed) (found : t.nodes[id]? = some n)
    (container : n.kind.isContainer = true) (some : n.children ≠ #[]) {names : List Text}
    (named : n.children.toList.mapM (t.name k n.kind) = .ok names) (high : depth ≤ id) :
    t.Unfolds k id depth (.text { before := opening n.kind } ::
      (woven k (depth + 1) [] n.children.toList names ++
        [.text ⟨[] ++ (if 0 < k then [unit '\n'] else []), k * depth, closing n.kind⟩])) := by
  have length := (mapM_eq_ok.1 named).length_eq
  have inside : ∀ c ∈ n.children.toList, c < t.size ∧ depth + 1 ≤ c := by
    intro c hc
    obtain ⟨later, _, hm, _⟩ := wf.down id n c found (Array.mem_toList_iff.1 hc)
    exact ⟨lt_size hm, by omega⟩
  have nodes := preorder_eq wf found
  have named' : ¬ names.isEmpty := by
    intro none
    rw [List.isEmpty_iff.1 none] at length
    exact some (Array.eq_empty_of_size_eq_zero length)
  refine ⟨?_, ?_, ?_, ?_⟩
  · refine List.forall_mem_cons.2 ⟨trivial, List.forall_mem_append.2 ⟨?_, ?_⟩⟩
    · exact sound_woven k (depth + 1) inside names []
    · exact List.forall_mem_singleton.2 trivial
  · rw [print_container wf found container, named, piecesText, piecesText_append,
      piecesText_woven k (depth + 1) length, piecesText, piecesText, pieceText, pieceText,
      text_plain]
    cases n.children.toList.mapM fun c => t.print k c (depth + 1) with
    | error f => rfl
    | ok values =>
      refine congrArg Except.ok ?_
      dsimp only
      rw [bracketed_eq, lastGap, if_neg named', childTexts_nil, Spaced.text, gap, List.nil_append,
        List.append_nil, List.append_assoc]
  · rw [nodes, List.flatMap_cons, List.flatMap_append, pieceNodes_woven k (depth + 1) length]
    simp [pieceNodes]
  · rw [nodes, turns_cons, turns_append, turns_woven wf k (depth + 1) inside length,
      List.length_cons, turns, pieceTurns]
    change 1 + (4 * _ + 1) < _
    omega

/-- Opening a node fails as printing it does, or it is replaced by pieces that print as it does. -/
theorem expand_unfolds (wf : t.WellFormed) (hl : Indents l k)
    (found : t.nodes[id]? = some n) (high : depth ≤ id) :
    (∃ pieces, t.expand l (.natural id) depth = .ok pieces ∧ t.Unfolds k id depth pieces) ∨
    ∃ f, t.expand l (.natural id) depth = .error f ∧ t.print k id depth = .error f := by
  have proper := wf.proper id n found
  by_cases container : n.kind.isContainer = true
  · by_cases some : n.children = #[]
    · refine .inl ⟨_, expand_empty found container (by rw [some]; rfl) depth, ?_⟩
      apply unfolds_text wf found some
      rw [print_container wf found container, some]
      exact congrArg Except.ok (bracketed_eq k n.kind depth [] [])
    rw [expand_container found container (Bool.eq_false_iff.2 (mt Array.isEmpty_iff.1 some)),
      childPieces_eq hl, hl.padded_eq]
    cases named : n.children.toList.mapM (t.name k n.kind) with
    | error f =>
      refine .inr ⟨f, rfl, ?_⟩
      rw [print_container wf found container, named]
      rfl
    | ok names => exact .inl ⟨_, rfl, unfolds_container wf found container some named high⟩
  · have childless : n.children = #[] := by
      by_contra some
      exact container (proper.parental some)
    cases kind : n.kind with
    | unset =>
      refine .inl ⟨_, ?_, unfolds_text wf found childless (print_unset found kind)⟩
      rw [expand_eq found, kind]
      rfl
    | scalar =>
      have print : t.print k id depth = t.scalarText n := print_scalar found kind
      cases text : t.scalarText n with
      | error f =>
        refine .inr ⟨f, ?_, print.trans text⟩
        rw [expand_eq found, kind]
        dsimp only
        rw [text]
        rfl
      | ok s =>
        refine .inl ⟨_, ?_, unfolds_text wf found childless (print.trans text)⟩
        rw [expand_eq found, kind]
        dsimp only
        rw [text]
        rfl
    | map | seq =>
      rw [kind] at container
      exact absurd rfl container

/-! ## The walk -/

/-- The walk from a stack to its end, with the nodes that it opens and the texts that it lists. -/
inductive Walk (t : Tree) (l : Layout) : List Piece → List Nat → List Spaced → Prop
  | done : Walk t l [] [] []
  | text {s : Spaced} {rest : List Piece} {opened : List Nat} {parts : List Spaced}
      (later : Walk t l rest opened parts) : Walk t l (.text s :: rest) opened (s :: parts)
  | node {id depth : Nat} {pieces rest : List Piece} {opened : List Nat} {parts : List Spaced}
      (opens : t.expand l (.natural id) depth = .ok pieces)
      (later : Walk t l (pieces ++ rest) opened parts) :
      Walk t l (.node (.natural id) depth :: rest) (id :: opened) parts

/-- A walk takes one turn for each node that it opens and for each text that it lists. -/
theorem Walk.writePieces {pieces : List Piece} {opened : List Nat} {parts : List Spaced}
    (h : t.Walk l pieces opened parts) (fuel : Nat) (out : List Spaced) :
    t.writePieces l fuel pieces out =
      if opened.length + parts.length ≤ fuel then .ok (out.reverse ++ parts)
      else .error .endless := by
  induction h generalizing fuel out with
  | done =>
    rw [writePieces_nil, List.append_nil]
    exact (if_pos (Nat.zero_le fuel)).symm
  | text _ ih =>
    cases fuel with
    | zero => rfl
    | succ fuel =>
      rw [writePieces_text, ih, List.reverse_cons, List.append_assoc, List.singleton_append]
      simp only [List.length_cons, ← Nat.add_assoc, Nat.succ_le_succ_iff]
  | node opens _ ih =>
    cases fuel with
    | zero => rw [writePieces_zero, if_neg (by rw [List.length_cons]; omega)]
    | succ fuel =>
      rw [writePieces_node, opens]
      change t.writePieces l fuel _ out = _
      rw [ih]
      simp only [List.length_cons, Nat.succ_add, Nat.succ_le_succ_iff]

/-- A node on the stack prints what it is replaced by. -/
theorem Unfolds.piecesText {pieces : List Piece} (h : t.Unfolds k id depth pieces)
    (rest : List Piece) :
    t.piecesText k (.node (.natural id) depth :: rest) = t.piecesText k (pieces ++ rest) := by
  rw [Tree.piecesText, piecesText_append, pieceText, h.print]

theorem Unfolds.turns {pieces : List Piece} (h : t.Unfolds k id depth pieces)
    (rest : List Piece) :
    t.turns (pieces ++ rest) < t.turns (.node (.natural id) depth :: rest) := by
  rw [turns_append, turns_cons]
  exact Nat.add_lt_add_right h.fewer _

theorem Unfolds.sound_append {pieces : List Piece} (h : t.Unfolds k id depth pieces)
    {rest : List Piece} (sound : ∀ piece ∈ rest, t.Sound piece) :
    ∀ piece ∈ pieces ++ rest, t.Sound piece :=
  List.forall_mem_append.2 ⟨h.sound, sound⟩

/-- What a stack prints is what the walk from it lists. It opens the nodes at and below those on
the stack, in pre-order. -/
theorem exists_walk (wf : t.WellFormed) (hl : Indents l k) {pieces : List Piece}
    (sound : ∀ piece ∈ pieces, t.Sound piece) {text : Text}
    (prints : t.piecesText k pieces = .ok text) :
    ∃ parts, t.Walk l pieces (pieces.flatMap t.pieceNodes) parts ∧
      parts.flatMap Spaced.text = text := by
  -- The pieces that a node is replaced by take fewer turns than the node.
  induction measure : t.turns pieces using Nat.strongRecOn generalizing pieces text with
  | ind measure ih =>
    subst measure
    cases pieces with
    | nil =>
      cases prints
      exact ⟨[], .done, rfl⟩
    | cons piece rest =>
      obtain ⟨first, others⟩ := List.forall_mem_cons.1 sound
      cases piece with
      | text s =>
        rw [Tree.piecesText, pieceText] at prints
        cases later : t.piecesText k rest with
        | error f =>
          rw [later] at prints
          cases prints
        | ok text' =>
          rw [later] at prints
          cases prints
          have fewer : t.turns rest < t.turns (.text s :: rest) := by
            rw [turns_cons, pieceTurns]
            omega
          obtain ⟨parts, walk, rfl⟩ := ih _ fewer others later rfl
          exact ⟨s :: parts, .text walk, rfl⟩
      | node q depth =>
        obtain ⟨id, rfl, existing, high⟩ := first
        obtain ⟨n, found⟩ := exists_node existing
        rcases expand_unfolds wf hl found high with ⟨pieces, opens, unfolds⟩ | ⟨f, _, fails⟩
        · rw [unfolds.piecesText] at prints
          obtain ⟨parts, walk, same⟩ := ih _ (unfolds.turns rest) (unfolds.sound_append others)
            prints rfl
          refine ⟨parts, ?_, same⟩
          rw [List.flatMap_append] at walk
          rw [List.flatMap_cons, pieceNodes, unfolds.nodes]
          exact .node opens walk
        · rw [Tree.piecesText, pieceText, fails] at prints
          cases prints

/-! ## Stretches of the text -/

theorem infix_join (separator : Text) {text : Text} {texts : List Text} (h : text ∈ texts) :
    text <:+: Text.join separator texts := by
  induction texts with
  | nil => cases h
  | cons first rest ih =>
    cases rest with
    | nil =>
      rw [List.mem_singleton.1 h]
      exact List.infix_rfl
    | cons second rest =>
      rw [Text.join]
      · rcases List.mem_cons.1 h with rfl | h
        · exact (List.prefix_append _ _).isInfix.trans (List.prefix_append _ _).isInfix
        · exact (ih h).trans (List.suffix_append _ _).isInfix
      · exact fun single => absurd single (List.cons_ne_nil _ _)

theorem infix_lines {names values : List Text} (length : names.length = values.length)
    {value : Text} (h : value ∈ values) (depth : Nat) :
    ∃ line ∈ lines k depth names values, value <:+: line := by
  obtain ⟨i, hi⟩ := List.getElem?_of_mem h
  obtain ⟨name, hn⟩ := exists_getElem? length hi
  refine ⟨gap k depth ++ (name ++ value), List.mem_of_getElem? (i := i) ?_, ?_⟩
  · rw [lines, List.getElem?_zipWith, hn, hi]
  · exact ((List.suffix_append name value).trans (List.suffix_append _ _)).isInfix

theorem infix_bracketed {names values : List Text} (length : names.length = values.length)
    {value : Text} (h : value ∈ values) (kind : Kind) (depth : Nat) :
    value <:+: bracketed k kind depth names values := by
  obtain ⟨line, mem, inside⟩ := infix_lines (k := k) length h (depth + 1)
  rw [bracketed_eq]
  refine (inside.trans (infix_join [unit ','] mem)).trans ?_
  exact (List.prefix_append _ _).isInfix.trans (List.suffix_append _ _).isInfix

/-- The text of a child stands in the text of its parent, one level deeper. -/
theorem print_child (wf : t.WellFormed) (found : t.nodes[id]? = some n) {c : Nat}
    (hc : c ∈ n.children) {text : Text} (prints : t.print k id depth = .ok text) :
    ∃ inner, t.print k c (depth + 1) = .ok inner ∧ inner <:+: text := by
  have container := (wf.proper id n found).parental (Array.ne_empty_of_mem hc)
  rw [print_container wf found container] at prints
  cases named : n.children.toList.mapM (t.name k n.kind) with
  | error f =>
    rw [named] at prints
    cases prints
  | ok names =>
    cases below : n.children.toList.mapM fun c => t.print k c (depth + 1) with
    | error f =>
      rw [named, below] at prints
      cases prints
    | ok values =>
      rw [named, below] at prints
      cases prints
      have printed := mapM_eq_ok.1 below
      have length := (mapM_eq_ok.1 named).length_eq.symm.trans printed.length_eq
      obtain ⟨i, hi⟩ := List.getElem?_of_mem (Array.mem_toList_iff.2 hc)
      obtain ⟨inner, hinner⟩ := exists_getElem? printed.length_eq.symm hi
      refine ⟨inner, getElem?_of_forall₂ printed hi hinner, ?_⟩
      exact infix_bracketed length (List.mem_of_getElem? hinner) n.kind depth

/-- The text of a node stands in the text of each node above it, as many levels deeper as there
are steps between them. -/
theorem print_descendant (wf : t.WellFormed) {path : List Nat} {d : Nat}
    (leads : t.follow (.natural id) (positions path) = .ok (.natural d)) {text : Text}
    (prints : t.print k id depth = .ok text) :
    ∃ inner, t.print k d (depth + path.length) = .ok inner ∧ inner <:+: text := by
  induction path generalizing id depth text with
  | nil =>
    cases leads
    exact ⟨text, prints, List.infix_rfl⟩
  | cons i path ih =>
    obtain ⟨n, c, found, hc, leads⟩ := follow_cons.1 leads
    obtain ⟨outer, prints, inside⟩ := print_child wf found (Array.mem_of_getElem? hc) prints
    obtain ⟨inner, prints, within⟩ := ih leads prints
    refine ⟨inner, ?_, within.trans inside⟩
    rw [List.length_cons, Nat.add_comm path.length, ← Nat.add_assoc]
    exact prints

/-! ## The text of a node -/

/-- The recursion prints a node as the document is printed that the node is read as. -/
theorem Depicts.print (wf : t.WellFormed) {j : Json} (h : t.Depicts id j) (k depth : Nat) :
    t.print k id depth = .ok (printed k j depth) := by
  induction h generalizing depth with
  | unset found kind => exact print_unset found kind
  | scalar found kind reads =>
    exact (print_scalar found kind).trans (scalarText_of_reading reads depth)
  | @seq id n items found kind length below ih =>
    have names : n.children.toList.mapM (t.name k n.kind) = .ok (items.map fun _ => []) := by
      refine mapM_eq_ok.2 (forall₂_children length fun i c item _ _ => ?_)
      rw [name, kind]
      rfl
    have values : (n.children.toList.mapM fun c => t.print k c (depth + 1)) =
        .ok (items.map fun item => printed k item (depth + 1)) :=
      mapM_eq_ok.2 (forall₂_children length fun i c item hc hi => ih i c item hc hi (depth + 1))
    rw [print_container wf found (by rw [kind]; rfl), names, values]
    refine congrArg Except.ok ?_
    rw [bracketed_eq, lines_map, lastGap_map, kind, printed, Json.printedItems_eq]
    rfl
  | @map id n members found kind length keys below ih =>
    have names : n.children.toList.mapM (t.name k n.kind) =
        .ok (members.map fun m => Quoted.quote m.1 ++ colon k) := by
      refine mapM_eq_ok.2 (forall₂_children length fun i c m hc hm => ?_)
      rw [name, kind, if_pos rfl, keys i c m.1 m.2 hc hm]
      rfl
    have values : (n.children.toList.mapM fun c => t.print k c (depth + 1)) =
        .ok (members.map fun m => printed k m.2 (depth + 1)) :=
      mapM_eq_ok.2 (forall₂_children length fun i c m hc hm => ih i c m.1 m.2 hc hm (depth + 1))
    rw [print_container wf found (by rw [kind]; rfl), names, values]
    refine congrArg Except.ok ?_
    rw [bracketed_eq, lines_map, lastGap_map, kind, printed, Json.printedMembers_eq]
    simp only [List.append_assoc]
    rfl

/-- **A node is written as a recursion over it prints it.** In every reachable tree whose spans its
arena handed out, let a node be such that the children of all maps at and below it have keys. With
any whole number of spaces the walk comes to an end: it opens the node and each node below it, in
pre-order and none of them twice, takes one turn for each of them and for each text that it lists,
and lists the text that the recursion prints. So the text of each descendant, printed at its depth,
is a stretch of the text. -/
theorem render_recursive (reachable : t.Reachable) (grounded : t.Grounded)
    (existing : id < t.size) (keyed : t.Keyed id) (k : Nat) :
    ∃ text parts, t.print k id 0 = .ok text ∧ t.Emits id k text ∧
      parts.flatMap Spaced.text = text ∧
      t.Walk ⟨.natural k, none⟩ [.node (.natural id) 0] (t.preorder id) parts ∧
      (t.preorder id).Nodup ∧ (∀ j, j ∈ t.preorder id ↔ t.Below id j) ∧
      (∀ fuel, t.writePieces ⟨.natural k, none⟩ fuel [.node (.natural id) 0] [] =
        if (t.preorder id).length + parts.length ≤ fuel then .ok parts else .error .endless) ∧
      ∀ path d, t.follow (.natural id) (positions path) = .ok (.natural d) →
        ∃ inner, t.print k d path.length = .ok inner ∧ inner <:+: text := by
  have wf := reachable.wellFormed
  obtain ⟨document, depicts⟩ := exists_depicts wf grounded existing keyed
  have prints := depicts.print wf k 0
  have sound : ∀ piece ∈ [Piece.node (.natural id) 0], t.Sound piece :=
    List.forall_mem_singleton.2 ⟨id, rfl, existing, Nat.zero_le id⟩
  have stack : t.piecesText k [.node (.natural id) 0] = .ok (printed k document 0) := by
    rw [piecesText, pieceText, prints, piecesText]
    exact congrArg Except.ok (List.append_nil _)
  obtain ⟨parts, walk, same⟩ := exists_walk (l := ⟨.natural k, none⟩) wf ⟨rfl, rfl⟩ sound stack
  rw [List.flatMap_singleton, pieceNodes] at walk
  refine ⟨_, parts, prints, depicts.emits wf existing k, same, walk, nodup_preorder wf existing,
    fun j => mem_preorder wf existing, fun fuel => walk.writePieces fuel [], ?_⟩
  intro path d leads
  have := print_descendant wf leads prints
  rwa [Nat.zero_add] at this

/-- A map with one member, whose key is the empty text and which is a seq with one unset element. -/
theorem render_recursive_nested :
    let t := (ofArena (.empty 1)).after [.makeMap (.natural 0) .blank, .addChild (.natural 0),
      .makeSeq (.natural 1) (.known ⟨.natural 0, .natural 0⟩), .addChild (.natural 1)]
    ∃ text parts inner, t.print 2 0 0 = .ok text ∧
      t.render ⟨.natural 2, none⟩ (.natural 0) = .ok text ∧
      t.Walk ⟨.natural 2, none⟩ [.node (.natural 0) 0] (t.preorder 0) parts ∧
      t.print 2 2 2 = .ok inner ∧ inner <:+: text := by
  intro t
  have reachable : t.Reachable :=
    .step (.step (.step (.step (.new create_infinite) (.makeMap (.natural 0) .blank))
      (.addChild (.natural 0))) (.makeSeq (.natural 1) (.known ⟨.natural 0, .natural 0⟩)))
      (.addChild (.natural 1))
  let top : Node := { kind := .map, children := #[1] }
  let member : Node :=
    { kind := .seq, key := .known ⟨.natural 0, .natural 0⟩, parent := some 0, children := #[2] }
  have nodes {i : Nat} {n : Node} (h : t.nodes[i]? = some n) :
      (i = 0 ∧ n = top) ∨ (i = 1 ∧ n = member) ∨ (i = 2 ∧ n = { parent := some 1 }) := by
    have hlt : i < 3 := lt_size h
    obtain rfl | rfl | rfl : i = 0 ∨ i = 1 ∨ i = 2 := by omega
    · exact .inl ⟨rfl, (Option.some.inj h).symm⟩
    · exact .inr (.inl ⟨rfl, (Option.some.inj h).symm⟩)
    · exact .inr (.inr ⟨rfl, (Option.some.inj h).symm⟩)
  have grounded : t.Grounded := by
    intro i n h
    rcases nodes h with ⟨_, rfl⟩ | ⟨_, rfl⟩ | ⟨_, rfl⟩
    · exact ⟨.inl rfl, .inl rfl⟩
    · exact ⟨.inr ⟨_, rfl, 0, 0, rfl, Nat.le_refl 0⟩, .inl rfl⟩
    · exact ⟨.inl rfl, .inl rfl⟩
  have keyed : t.Keyed 0 := by
    intro i n _ h kind c hc m hm
    rcases nodes h with ⟨_, rfl⟩ | ⟨_, rfl⟩ | ⟨_, rfl⟩
    · obtain rfl : c = 1 := Array.mem_singleton.1 hc
      rcases nodes hm with ⟨h, _⟩ | ⟨_, rfl⟩ | ⟨h, _⟩
      · cases h
      · nofun
      · cases h
    · cases kind
    · cases kind
  have existing : 0 < t.size := Nat.zero_lt_succ 2
  obtain ⟨text, parts, prints, emits, _, walk, _, _, _, stretches⟩ :=
    render_recursive reachable grounded existing keyed 2
  obtain ⟨inner, printed, inside⟩ := stretches [0, 0] 2 rfl
  exact ⟨text, parts, inner, prints, emits.1 none, walk, printed, inside⟩

end SpanTree.Tree
