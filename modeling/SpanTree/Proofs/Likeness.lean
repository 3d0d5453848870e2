import SpanTree.Proofs.Rereading

/-!
# Trees that are alike

Two trees of one shape whose texts are related, such as a tree and the one that is loaded from what
it is rendered as.

* `Source.Every`: a property of all scalars of a value;
* `Tree.Alike`: two nodes, with all below them, are of one shape with the same keys, and the texts
  of their values are related;
* `Mirrors.alike_iff`: the mirrors of a value and of what it is read as are alike as far as the
  texts of its scalars are;
* `Source.height_reread`: what a value is read as reaches as deep.
-/

namespace SpanTree

/-! ## Scalars of a value -/

namespace Source

/-- A property of all scalars of a value. -/
inductive Every (P : Scalar → Prop) : Source → Prop
  | scalar {s : Scalar} (h : P s) : Every P (.scalar s)
  | table {members : List (Text × Source)} (h : ∀ m ∈ members, Every P m.2) :
      Every P (.ofMembers members)
  | array {items : List Source} (h : ∀ item ∈ items, Every P item) : Every P (.ofItems items)

variable {P Q : Scalar → Prop}

theorem every_scalar {s : Scalar} : (scalar s).Every P ↔ P s := by
  constructor
  · rintro ⟨h⟩
    exact h
  · exact .scalar

theorem every_ofMembers {members : List (Text × Source)} :
    (ofMembers members).Every P ↔ ∀ m ∈ members, m.2.Every P := by
  constructor
  · intro h
    cases h with
    | table h => exact h
  · exact .table

theorem every_ofItems {items : List Source} :
    (ofItems items).Every P ↔ ∀ item ∈ items, item.Every P := by
  constructor
  · intro h
    cases h with
    | array h => exact h
  · exact .array

theorem Every.imp {value : Source} (h : value.Every P) (weaker : ∀ s, P s → Q s) :
    value.Every Q := by
  induction h with
  | scalar h => exact .scalar (weaker _ h)
  | table _ ih => exact .table ih
  | array _ ih => exact .array ih

theorem Every.and {value : Source} (hp : value.Every P) (hq : value.Every Q) :
    value.Every fun s => P s ∧ Q s := by
  induction hp with
  | scalar h => exact .scalar ⟨h, every_scalar.1 hq⟩
  | table _ ih => exact .table fun m hm => ih m hm (every_ofMembers.1 hq m hm)
  | array _ ih => exact .array fun item hi => ih item hi (every_ofItems.1 hq item hi)

end Source

theorem Scalar.Legible.unmarked_reread {s : Scalar} (h : s.Legible) :
    s.reread.text.head? ≠ some 0xFEFF := by
  have double (x : Binary64) : (ofDouble x).text.head? ≠ some 0xFEFF := by
    unfold ofDouble
    split
    · exact (@ascii_text (integer _) nofun nofun).unmarked
    · exact (@ascii_text (float _) nofun nofun).unmarked
  cases s with
  | string t => exact Text.unmarked_wellFormed h.unmarked
  | temporal kind t => exact Text.unmarked_wellFormed h.unmarked
  | integer n => exact double _
  | float x =>
    cases x with
    | finite s r =>
      rw [reread_finite]
      exact double _
    | infinite s => exact h.unmarked
    | nan => exact h.unmarked
  | boolean b => exact h.unmarked
  | null => exact h.unmarked

/-! ## Trees that are alike -/

namespace Tree

/-- Two answers are alike: related texts, or no text on either side. -/
inductive Likewise (same : Text → Text → Prop) : Except Failure Text → Except Failure Text → Prop
  | text {a b : Text} (h : same a b) : Likewise same (.ok a) (.ok b)
  | noKey (id id' : Quantity) : Likewise same (.error (.noKey id)) (.error (.noKey id'))
  | noValue (id id' : Quantity) : Likewise same (.error (.noValue id)) (.error (.noValue id'))

/-- Two nodes are of one kind, with the same key or none, with related values or none, and with as
many children, which are alike one by one. How values are related may depend on whether the first of
them was a string. -/
inductive Alike (same : Bool → Text → Text → Prop) (t t' : Tree) : Nat → Nat → Prop
  | intro {id id' : Nat} {n n' : Node} (found : t.nodes[id]? = some n)
      (found' : t'.nodes[id']? = some n') (kind : n.kind = n'.kind)
      (keys : Likewise Eq (t.keyText (.natural id)) (t'.keyText (.natural id')))
      (values : Likewise (same n.isQuoted) (t.valueText (.natural id))
        (t'.valueText (.natural id')))
      (length : n.children.size = n'.children.size)
      (below : ∀ (i c c' : Nat), n.children[i]? = some c → n'.children[i]? = some c' →
        Alike same t t' c c') : Alike same t t' id id'

variable {same : Bool → Text → Text → Prop} {t t' : Tree} {id id' : Nat} {n n' : Node}

theorem Alike.values (h : Alike same t t' id id') (found : t.nodes[id]? = some n) :
    Likewise (same n.isQuoted) (t.valueText (.natural id)) (t'.valueText (.natural id')) := by
  cases h with
  | intro first _ _ _ values _ _ =>
    cases found.symm.trans first
    exact values

theorem Alike.child (h : Alike same t t' id id') (found : t.nodes[id]? = some n)
    (found' : t'.nodes[id']? = some n') {i c c' : Nat} (hc : n.children[i]? = some c)
    (hc' : n'.children[i]? = some c') : Alike same t t' c c' := by
  cases h with
  | intro first first' _ _ _ _ below =>
    cases found.symm.trans first
    cases found'.symm.trans first'
    exact below i c c' hc hc'

theorem valueText_natural (found : t.nodes[id]? = some n) :
    t.valueText (.natural id) = t.slotText (.noValue (.natural id)) n.value := by
  rw [valueText_def, value_def, node_natural found]
  rfl

theorem Spells.slotText {slot : Slot Span} {text : Text} (h : t.arena.Spells slot text)
    (unmarked : text.head? ≠ some 0xFEFF) (blank : Failure) :
    t.slotText blank slot = .ok text.wellFormed := by
  obtain ⟨span, rfl, reads⟩ := h.text unmarked
  rw [slotText_known, Tree.text, reads]
  rfl

/-- Nodes that are called by one label have the same key, or none. -/
theorem likewise_names {label : Option Text} (found : t.nodes[id]? = some n)
    (found' : t'.nodes[id']? = some n') (names : t.arena.Names n.key label)
    (names' : t'.arena.Names n'.key label) (unmarked : ∀ key ∈ label, key.head? ≠ some 0xFEFF) :
    Likewise Eq (t.keyText (.natural id)) (t'.keyText (.natural id')) := by
  rw [keyText_def, keyText_def, key_natural found, key_natural found']
  cases label with
  | none =>
    have blank : n.key = .blank := names
    have blank' : n'.key = .blank := names'
    rw [blank, blank']
    exact .noKey _ _
  | some key =>
    change Likewise Eq (t.slotText _ n.key) (t'.slotText _ n'.key)
    rw [Spells.slotText names (unmarked key rfl), Spells.slotText names' (unmarked key rfl)]
    exact .text rfl

theorem Mirrors.shown {value : Source} (h : t.Mirrors value id) :
    ∃ n, t.nodes[id]? = some n ∧ value.Shown t.arena n := by
  obtain ⟨found, shown, _⟩ := h
  exact ⟨_, found, shown⟩

/-- Two nodes that show containers with the same labels are alike as far as their children are. -/
theorem Mirrors.alike_parts {value value' : Source} (h : t.Mirrors value id)
    (h' : t'.Mirrors value' id') (found : t.nodes[id]? = some n) (found' : t'.nodes[id']? = some n')
    (kind : n.kind = n'.kind) (blank : n.value = .blank) (blank' : n'.value = .blank)
    (keys : Likewise Eq (t.keyText (.natural id)) (t'.keyText (.natural id')))
    (labels : value'.labels = value.labels)
    (unmarked : ∀ label ∈ value.labels, ∀ key ∈ label, key.head? ≠ some 0xFEFF)
    {again : Source → Source} (parts : value'.parts = value.parts.map again) {P : Source → Prop}
    (each : ∀ part ∈ value.parts, ∀ c c', t.Mirrors part c → t'.Mirrors (again part) c' →
      Likewise Eq (t.keyText (.natural c)) (t'.keyText (.natural c')) →
      (Alike same t t' c c' ↔ P part)) :
    Alike same t t' id id' ↔ ∀ part ∈ value.parts, P part := by
  obtain ⟨first, _, length, labelled, below⟩ := h
  obtain ⟨first', _, length', labelled', below'⟩ := h'
  cases found.symm.trans first
  cases found'.symm.trans first'
  have many : n'.children.size = value.parts.length := by rw [length', parts, List.length_map]
  have pair (i c c' : Nat) (part : Source) (hc : n.children[i]? = some c)
      (hc' : n'.children[i]? = some c') (hp : value.parts[i]? = some part) :
      Alike same t t' c c' ↔ P part := by
    obtain ⟨label, hl⟩ := exists_getElem? value.labels_length hp
    have hp' : value'.parts[i]? = some (again part) := by
      rw [parts, List.getElem?_map, hp]
      rfl
    have hl' : value'.labels[i]? = some label := by rwa [labels]
    obtain ⟨m, hm, _, names⟩ := labelled i c label hc hl
    obtain ⟨m', hm', _, names'⟩ := labelled' i c' label hc' hl'
    exact each part (List.mem_of_getElem? hp) c c' (below i c part hc hp) (below' i c' _ hc' hp')
      (likewise_names hm hm' names names' (unmarked label (List.mem_of_getElem? hl)))
  have child (children : Array Nat) (size : children.size = value.parts.length) {i : Nat}
      {part : Source} (hp : value.parts[i]? = some part) : ∃ c, children[i]? = some c := by
    have bound : i < children.size := by
      rw [size]
      exact (List.getElem?_eq_some_iff.1 hp).1
    exact ⟨_, Array.getElem?_eq_getElem bound⟩
  constructor
  · intro alike part hp
    obtain ⟨i, hi⟩ := List.mem_iff_getElem?.1 hp
    obtain ⟨c, hc⟩ := child n.children length hi
    obtain ⟨c', hc'⟩ := child n'.children many hi
    exact (pair i c c' part hc hc' hi).1 (alike.child found found' hc hc')
  · intro holds
    refine .intro found found' kind keys ?_ (length.trans many.symm) ?_
    · rw [valueText_natural found, valueText_natural found', blank, blank']
      exact .noValue _ _
    · intro i c c' hc hc'
      have bound : i < value.parts.length := by
        rw [← length]
        exact (Array.getElem?_eq_some_iff.1 hc).1
      have hp := List.getElem?_eq_getElem bound
      exact (pair i c c' _ hc hc' hp).2 (holds _ (List.mem_of_getElem? hp))

theorem isQuoted_of_flags {s : Scalar}
    (flags : n.flags = if s.isQuoted then Node.quotedFlag else 0) : n.isQuoted = s.isQuoted := by
  rw [Node.isQuoted, flags]
  cases s.isQuoted with
  | false => rfl
  | true => rfl

/-- A mirror of a legible scalar and one of what it is read as are alike if their texts are. -/
theorem Mirrors.alike_scalar {s : Scalar} (legible : s.Legible) (h : t.Mirrors (.scalar s) id)
    (h' : t'.Mirrors (Source.scalar s).reread id')
    (keys : Likewise Eq (t.keyText (.natural id)) (t'.keyText (.natural id'))) :
    Alike same t t' id id' ↔ same s.isQuoted s.text.wellFormed s.reread.text.wellFormed := by
  obtain ⟨found, ⟨kind, spells, flags⟩, length, _, _⟩ := h
  obtain ⟨found', ⟨kind', spells', _⟩, length', _, _⟩ := h'
  have text := Spells.slotText spells legible.unmarked (.noValue (.natural id))
  have text' := Spells.slotText spells' legible.unmarked_reread (.noValue (.natural id'))
  rw [← valueText_natural found] at text
  rw [← valueText_natural found'] at text'
  have quoted := isQuoted_of_flags flags
  constructor
  · intro alike
    have values := alike.values found
    rw [text, text', quoted] at values
    cases values with
    | text same => exact same
  · intro holds
    refine .intro found found' (kind.trans kind'.symm) keys ?_ (length.trans length'.symm) ?_
    · rw [text, text', quoted]
      exact .text holds
    · intro i c c' hc
      have bound := (Array.getElem?_eq_some_iff.1 hc).1
      rw [length] at bound
      exact absurd bound (Nat.not_lt_zero i)

/-- The mirrors of a legible value and of what it is read as are alike as far as the texts of its
scalars are. -/
theorem Mirrors.alike_iff {value : Source} (legible : value.Legible) (h : t.Mirrors value id)
    (h' : t'.Mirrors value.reread id')
    (keys : Likewise Eq (t.keyText (.natural id)) (t'.keyText (.natural id'))) :
    Alike same t t' id id' ↔
      value.Every fun s => same s.isQuoted s.text.wellFormed s.reread.text.wellFormed := by
  induction legible generalizing id id' with
  | @scalar s clean =>
    rw [Source.every_scalar]
    exact h.alike_scalar clean h' keys
  | @table members clean _ _ _ ih =>
    rw [Source.reread_ofMembers] at h'
    have labels : (Source.ofMembers (Members.mapValues Source.reread members)).labels =
        (Source.ofMembers members).labels := by
      simp [Source.labels, Source.ofMembers, Members.mapValues]
    have parts : (Source.ofMembers (Members.mapValues Source.reread members)).parts =
        (Source.ofMembers members).parts.map Source.reread := by
      simp [Source.parts, Source.ofMembers, Members.mapValues]
    have unmarked : ∀ label ∈ (Source.ofMembers members).labels, ∀ key ∈ label,
        key.head? ≠ some 0xFEFF := by
      intro label hl key hk
      obtain ⟨m, hm, rfl⟩ := List.mem_map.1 hl
      cases hk
      exact (clean m hm).unmarked
    obtain ⟨n, found, kind, blank, _⟩ := h.shown
    obtain ⟨n', found', kind', blank', _⟩ := h'.shown
    have each : (Source.ofMembers members).Every
        (fun s => same s.isQuoted s.text.wellFormed s.reread.text.wellFormed) ↔
        ∀ part ∈ (Source.ofMembers members).parts,
          part.Every fun s => same s.isQuoted s.text.wellFormed s.reread.text.wellFormed :=
      Source.every_ofMembers.trans List.forall_mem_map.symm
    rw [each]
    refine h.alike_parts h' found found' (kind.trans kind'.symm) blank blank' keys labels unmarked
      parts ?_
    intro part hp c c' hc hc' likewise
    obtain ⟨m, hm, rfl⟩ := List.mem_map.1 hp
    exact ih m hm hc hc' likewise
  | @array items _ ih =>
    rw [Source.reread_ofItems] at h'
    have labels : (Source.ofItems (items.map Source.reread)).labels =
        (Source.ofItems items).labels := by
      change (items.map Source.reread).map (fun _ => none) = items.map fun _ => none
      rw [List.map_map]
      rfl
    have unmarked : ∀ label ∈ (Source.ofItems items).labels, ∀ key ∈ label,
        key.head? ≠ some 0xFEFF := by
      intro label hl key hk
      obtain ⟨item, _, rfl⟩ := List.mem_map.1 hl
      cases hk
    obtain ⟨n, found, kind, blank, _⟩ := h.shown
    obtain ⟨n', found', kind', blank', _⟩ := h'.shown
    rw [Source.every_ofItems]
    exact h.alike_parts h' found found' (kind.trans kind'.symm) blank blank' keys labels unmarked
      rfl fun item hi c c' hc hc' likewise => ih item hi hc hc' likewise

end Tree

/-! ## What values are read as -/

namespace Source

theorem parts_reread {value : Source} (h : value.Plain) :
    value.reread.parts = value.parts.map reread := by
  cases h with
  | scalar s => rfl
  | @table members _ =>
    rw [reread_ofMembers]
    change (Members.mapValues reread members).map (·.2) = (members.map (·.2)).map reread
    rw [Members.mapValues, List.map_map, List.map_map]
    rfl
  | @array items _ =>
    rw [reread_ofItems]
    rfl

theorem Plain.reread {value : Source} (h : value.Plain) : value.reread.Plain := by
  induction h with
  | scalar s => exact .scalar _
  | table _ ih =>
    rw [reread_ofMembers]
    constructor
    intro m hm
    obtain ⟨member, inside, rfl⟩ := List.mem_map.1 hm
    exact ih member inside
  | array _ ih =>
    rw [reread_ofItems]
    constructor
    intro item hi
    obtain ⟨part, inside, rfl⟩ := List.mem_map.1 hi
    exact ih part inside

/-- What a value is read as reaches as deep. -/
theorem height_reread {value : Source} (h : value.Plain) : value.reread.height = value.height := by
  have heights {parts : List Source} (same : ∀ part ∈ parts, part.reread.height = part.height) :
      itemsHeight (parts.map reread) = itemsHeight parts := by
    induction parts with
    | nil => rfl
    | cons part rest ih =>
      obtain ⟨first, later⟩ := List.forall_mem_cons.1 same
      rw [List.map_cons, itemsHeight, itemsHeight, first, ih later]
  rw [height_parts, parts_reread h, height_parts value]
  apply heights
  induction h with
  | scalar s =>
    intro part hp
    cases hp
  | table plain ih =>
    intro part hp
    obtain ⟨m, hm, rfl⟩ := List.mem_map.1 hp
    rw [height_parts, parts_reread (plain m hm), height_parts m.2]
    exact heights (ih m hm)
  | array plain ih =>
    intro part hp
    have hp : part ∈ _ := hp
    rw [height_parts, parts_reread (plain part hp), height_parts part]
    exact heights (ih part hp)

end Source

end SpanTree
