import SpanTree.Proofs.Encoding
import SpanTree.Proofs.Mirror
import SpanTree.Proofs.Rendering

/-!
# Nodes that are rendered alike

Rendering a node asks for kinds, for the texts of scalars and for the keys of the children of maps.
Where two nodes agree in all of these, and what is below them does so too, they are rendered as the
same text, or fail with the same error, wherever in the tables and the arenas these things lie.

* `Tree.Resembles`: two nodes, with all below them, agree in what rendering asks for;
* `Resembles.writePieces`: so the walk lists the same texts for both;
* `Resembles.render`: and they are rendered alike in any layout, in trees of one size;
* `Mirrors.resembles`: the mirrors of one value resemble each other.
-/

namespace SpanTree

namespace Tree

/-- A node of a tree agrees with a node of another one in what rendering asks for, and so do their
children one by one. The errors that are met in the place of texts are the same, too. -/
inductive Resembles (t t' : Tree) : Nat → Nat → Prop
  | intro {id id' : Nat} {n n' : Node} (found : t.nodes[id]? = some n)
      (found' : t'.nodes[id']? = some n') (kind : n'.kind = n.kind)
      (text : n.kind = .scalar → t'.scalarText n' = t.scalarText n)
      (length : n'.children.size = n.children.size)
      (keys : ∀ i c c' : Nat, n.kind = .map → n.children[i]? = some c →
        n'.children[i]? = some c' → t'.keyText (.natural c') = t.keyText (.natural c))
      (below : ∀ i c c' : Nat, n.children[i]? = some c → n'.children[i]? = some c' →
        Resembles t t' c c') : Resembles t t' id id'

/-- Pieces that are written alike: the same text, or two nodes that resemble each other. -/
inductive Resembles.Pieces (t t' : Tree) : Piece → Piece → Prop
  | text (s : Spaced) : Pieces t t' (.text s) (.text s)
  | node {c c' : Nat} (h : t.Resembles t' c c') (depth : Nat) :
      Pieces t t' (.node (.natural c) depth) (.node (.natural c') depth)

/-- Two results are the same failure, or they are related. -/
inductive Resembles.Results {α β : Type} (R : α → β → Prop) :
    Except Failure α → Except Failure β → Prop
  | ok {a : α} {b : β} (h : R a b) : Results R (.ok a) (.ok b)
  | error (f : Failure) : Results R (.error f) (.error f)

variable {t t' : Tree} {l : Layout} {id id' : Nat}

namespace Resembles

theorem Results.bind {α β γ δ : Type} {R : α → β → Prop} {Q : γ → δ → Prop}
    {x : Except Failure α} {y : Except Failure β} {f : α → Except Failure γ}
    {g : β → Except Failure δ} (h : Results R x y) (later : ∀ a b, R a b → Results Q (f a) (g b)) :
    Results Q (x >>= f) (y >>= g) := by
  cases h with
  | ok related => exact later _ _ related
  | error f => exact .error f

/-- The same result is continued alike by what gives related results. -/
theorem Results.same_bind {α γ δ : Type} {Q : γ → δ → Prop} (x : Except Failure α)
    {f : α → Except Failure γ} {g : α → Except Failure δ} (later : ∀ a, Results Q (f a) (g a)) :
    Results Q (x >>= f) (x >>= g) := by
  cases x with
  | ok a => exact later a
  | error f => exact .error f

/-- Children that agree in their labels are replaced by pieces that are written alike. -/
theorem childPieces {kind : Kind} {children children' : List Nat}
    (h : List.Forall₂ (fun c c' => t.Resembles t' c c' ∧ t'.label l kind c' = t.label l kind c)
      children children') (depth : Nat) (comma : Text) :
    Results (List.Forall₂ (Pieces t t')) (t.childPieces l kind depth comma children)
      (t'.childPieces l kind depth comma children') := by
  induction h generalizing comma with
  | nil => exact .ok .nil
  | @cons c c' children children' head _ ih =>
    rw [childPieces_cons, childPieces_cons, head.2]
    refine .same_bind _ fun label => .same_bind _ fun before => ?_
    exact (ih [unit ',']).bind fun pieces pieces' alike =>
      .ok (.cons (.text before) (.cons (.node head.1 depth) alike))

/-- Nodes that resemble each other are replaced by pieces that are written alike. -/
theorem expand (h : t.Resembles t' id id') (l : Layout) (depth : Nat) :
    Results (List.Forall₂ (Pieces t t')) (t.expand l (.natural id) depth)
      (t'.expand l (.natural id') depth) := by
  obtain ⟨found, found', kind, text, length, keys, below⟩ := h
  rename_i n n'
  rw [expand_eq found, expand_eq found', kind]
  have none : n'.children.isEmpty = n.children.isEmpty := by
    simp only [Array.isEmpty, length]
  have children : List.Forall₂ (fun c c' => t.Resembles t' c c' ∧
      t'.label l n.kind c' = t.label l n.kind c) n.children.toList n'.children.toList := by
    apply forall₂_of_getElem? length.symm
    intro i c c' hc hc'
    rw [Array.getElem?_toList] at hc hc'
    refine ⟨below i c c' hc hc', ?_⟩
    rw [label_def, label_def]
    split
    · next map => rw [keys i c c' map hc hc']
    · rfl
  have one (s : Spaced) : List.Forall₂ (Pieces t t') [.text s] [.text s] := .cons (.text s) .nil
  cases hk : n.kind with
  | unset => exact .ok (one _)
  | scalar =>
    dsimp only
    rw [text hk]
    exact .same_bind _ fun s => .ok (one _)
  | map | seq =>
    rw [hk] at children
    dsimp only
    rw [none]
    split
    · exact .ok (one _)
    · refine (childPieces children (depth + 1) []).bind fun pieces pieces' alike => ?_
      exact .same_bind _ fun last => .ok (.cons (.text _) (List.rel_append alike (one last)))

/-- The walk lists the same texts for pieces that are written alike. -/
theorem writePieces {fuel : Nat} {pieces pieces' : List Piece}
    (h : List.Forall₂ (Pieces t t') pieces pieces') (out : List Spaced) :
    t.writePieces l fuel pieces out = t'.writePieces l fuel pieces' out := by
  induction fuel generalizing pieces pieces' out with
  | zero => cases h <;> rfl
  | succ fuel ih =>
    cases h with
    | nil => rw [writePieces_nil, writePieces_nil]
    | cons head rest =>
      cases head with
      | text s => exact ih rest (s :: out)
      | node same depth =>
        have opened := same.expand l depth
        rw [writePieces_node, writePieces_node]
        generalize t.expand l _ depth = x at opened
        generalize t'.expand l _ depth = y at opened
        cases opened with
        | ok alike => exact ih (List.rel_append alike rest) out
        | error f => rfl

/-- Nodes that resemble each other are rendered alike, in trees of one size. -/
theorem render (h : t.Resembles t' id id') (size : t'.size = t.size) (l : Layout) :
    t'.render l (.natural id') = t.render l (.natural id) := by
  have fuel : t'.renderFuel = t.renderFuel := by rw [renderFuel, renderFuel, size]
  rw [render_def, render_def, fuel, writePieces (.cons (.node h 0) .nil)]

end Resembles

/-! ## Mirrors of one value -/

/-- A scalar whose slot spells a text is written in one way. -/
theorem scalarText_of_spells {n : Node} {text : Text} (h : t.arena.Spells n.value text) :
    t.scalarText n = .ok (if n.isQuoted then Quoted.quote text.kept
      else if Json.isLiteral text.kept || Json.isNumber text.kept then text.kept
      else Quoted.quote text.kept) := by
  obtain ⟨span, known, reads⟩ := h.kept
  have text : t.text span = .ok text.kept := by rw [Tree.text, reads]; rfl
  rw [scalarText_def, known]
  dsimp only
  rw [text]
  simp only [bind, Except.bind]
  split
  · rfl
  · split <;> rfl

theorem keyText_of_spells {n : Node} {text : Text} (found : t.nodes[id]? = some n)
    (h : t.arena.Spells n.key text) : t.keyText (.natural id) = .ok text.kept := by
  obtain ⟨span, known, reads⟩ := h.kept
  rw [keyText_known found known, Tree.text, reads]
  rfl

/-- **The mirrors of one value resemble each other**, in one tree or in two. -/
theorem Mirrors.resembles {value : Source} (h : t.Mirrors value id) (h' : t'.Mirrors value id') :
    t.Resembles t' id id' := by
  induction h generalizing id' with
  | @intro value id n found shown length labelled _ ih =>
    obtain ⟨found', shown', length', labelled', below'⟩ := h'
    rename_i n'
    have parts {i c : Nat} (hc : n.children[i]? = some c) : i < value.parts.length := by
      rw [← length]
      exact (Array.getElem?_eq_some_iff.1 hc).1
    refine .intro found found' ?_ ?_ (length'.trans length.symm) ?_ ?_
    · cases value with
      | table | array | scalar => rw [shown.1, shown'.1]
      | unsupported | unknown | absent => exact shown.elim
    · intro kind
      cases value with
      | scalar value =>
        have quoted : n'.isQuoted = n.isQuoted := by
          rw [Node.isQuoted, Node.isQuoted, shown.2.2, shown'.2.2]
        rw [scalarText_of_spells shown.2.1, scalarText_of_spells shown'.2.1, quoted]
      | table | array => cases shown.1.symm.trans kind
      | unsupported | unknown | absent => exact shown.elim
    · intro i c c' kind hc hc'
      cases value with
      | table members ending =>
        have some : i < (Source.table members ending).labels.length := by
          rw [Source.labels_length]
          exact parts hc
        obtain ⟨m, label⟩ : ∃ m : Text × Source,
            (Source.table members ending).labels[i]? = Option.some (Option.some m.1) := by
          simp only [Source.labels, List.length_map] at some
          exact ⟨members[i], by simp [Source.labels, some]⟩
        obtain ⟨k, hk, _, names⟩ := labelled i c _ hc label
        obtain ⟨k', hk', _, names'⟩ := labelled' i c' _ hc' label
        rw [keyText_of_spells hk names, keyText_of_spells hk' names']
      | array | scalar => cases shown.1.symm.trans kind
      | unsupported | unknown | absent => exact shown.elim
    · intro i c c' hc hc'
      have hp := List.getElem?_eq_getElem (parts hc)
      exact ih i c _ hc hp (below' i c' _ hc' hp)

end Tree

end SpanTree
