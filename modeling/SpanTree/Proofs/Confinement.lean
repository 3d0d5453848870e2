import SpanTree.Proofs.Allocation
import SpanTree.Proofs.Paths
import SpanTree.Proofs.Rendering
import SpanTree.Proofs.Storing

/-!
# What storing leaves alone

Storing a value may fail anywhere, with some nodes written and others still empty. Even then nothing
was touched but the node that the value went to, and what is new lies below it.

* `Node.Grows`: a node may get another kind and value, and more children;
* `Tree.Confined`: only some nodes grew, and every new one is below one of them;
* `Opens.confined`, `writeAll_confined`: so it is after one value and after a stack of them;
* `Confined.text`, `Confined.keyed`: what could be read can be read, and no child of a map lost its
  key;
* `store_confined`: so a node may still be rendered after a value was stored in it or not.
-/

namespace SpanTree

/-- A node may get another kind and value, and more children after those that it had, with ids from
`size` on. If it had children, it keeps its kind. -/
structure Node.Grows (size : Nat) (n n' : Node) : Prop where
  parent : n'.parent = n.parent
  key : n'.key = n.key ∨ (n.key = .missing ∧ n'.key = .blank)
  children : ∃ more, n'.children.toList = n.children.toList ++ more ∧ ∀ c ∈ more, size ≤ c
  kind : n.children = #[] ∨ n'.kind = n.kind

namespace Node.Grows

variable {size size' c i : Nat} {n n' n'' : Node}

theorem refl (size : Nat) (n : Node) : n.Grows size n where
  parent := rfl
  key := .inl rfl
  children := ⟨[], (List.append_nil _).symm, fun c hc => by cases hc⟩
  kind := .inr rfl

theorem trans (first : n.Grows size n') (later : n'.Grows size' n'') (le : size ≤ size') :
    n.Grows size n'' := by
  obtain ⟨more, children, new⟩ := first.children
  obtain ⟨more', children', new'⟩ := later.children
  refine ⟨later.parent.trans first.parent, ?_, ⟨more ++ more', ?_, ?_⟩, ?_⟩
  · rcases first.key with same | ⟨missing, blank⟩
    · rw [← same]
      exact later.key
    · rcases later.key with same | ⟨missing', _⟩
      · exact .inr ⟨missing, same.trans blank⟩
      · rw [blank] at missing'
        cases missing'
  · rw [children', children, List.append_assoc]
  · intro c hc
    rcases List.mem_append.1 hc with hc | hc
    · exact new c hc
    · exact Nat.le_trans le (new' c hc)
  · rcases first.kind with none | same
    · exact .inl none
    · rcases later.kind with none' | same'
      · left
        rw [none'] at children
        exact Array.toList_eq_nil_iff.1 (List.append_eq_nil_iff.1 children.symm).1
      · exact .inr (same'.trans same)

/-- Children keep their positions. -/
theorem child (h : n.Grows size n') (hc : n.children[i]? = some c) : n'.children[i]? = some c := by
  obtain ⟨more, children, _⟩ := h.children
  rw [← Array.getElem?_toList] at hc ⊢
  rw [children, List.getElem?_append_left (List.getElem?_eq_some_iff.1 hc).1, hc]

theorem mem (h : n.Grows size n') (hc : c ∈ n.children) : c ∈ n'.children := by
  obtain ⟨i, hi⟩ := Array.mem_iff_getElem?.1 hc
  exact Array.mem_of_getElem? (h.child hi)

/-- A child that is not new was one before. -/
theorem old (h : n.Grows size n') (hc : c ∈ n'.children) (below : c < size) : c ∈ n.children := by
  obtain ⟨more, children, new⟩ := h.children
  rw [← Array.mem_toList_iff, children, List.mem_append] at hc
  rcases hc with hc | hc
  · exact Array.mem_toList_iff.1 hc
  · exact absurd (new c hc) (by omega)

/-- A node with a child that is not new has the kind that it had. -/
theorem kind_eq (h : n.Grows size n') (hc : c ∈ n'.children) (below : c < size) :
    n'.kind = n.kind := by
  rcases h.kind with none | same
  · have := h.old hc below
    rw [none] at this
    exact absurd this (Array.not_mem_empty c)
  · exact same

end Node.Grows

theorem Arena.Fills.mono {a a' : Arena} {slot : Slot Span} (h : a.Fills slot)
    (more : a.size ≤ a'.size) : a'.Fills slot := by
  rcases h with blank | ⟨span, known, held⟩
  · exact .inl blank
  · exact .inr ⟨span, known, held.mono more⟩

theorem Arena.Spells.fills {a : Arena} {slot : Slot Span} {text : Text} (h : a.Spells slot text) :
    a.Fills slot := by
  obtain ⟨offset, length, known, reads⟩ := h
  refine .inr ⟨_, known, offset, length, rfl, Decidable.byContradiction fun outside => ?_⟩
  rw [read_natural, if_neg outside] at reads
  cases reads

theorem Arena.Names.fills {a : Arena} {slot : Slot Span} {label : Option Text}
    (h : a.Names slot label) : a.Fills slot := by
  cases label with
  | none => exact .inl h
  | some key => exact Spells.fills h

theorem Arena.Fills.ne_missing {a : Arena} {slot : Slot Span} (h : a.Fills slot) :
    slot ≠ .missing := by
  rintro rfl
  rcases h with blank | ⟨span, known, _⟩
  · cases blank
  · cases known

theorem Source.keptKey_cases (value : Source) (key : Slot Span) :
    value.keptKey key = key ∨ (key = .missing ∧ value.keptKey key = .blank) := by
  by_cases missing : key = .missing
  · subst missing
    cases value with
    | table | array => exact .inr ⟨rfl, rfl⟩
    | scalar | unsupported | unknown | absent => exact .inl rfl
  · exact .inl (Source.keptKey_eq missing)

namespace Tree

/-- Between two trees only some nodes were written to, which grew, and every new node is below one
of them. A new child of a map has a key, and all spans are such as the arena hands out if all were
so before. -/
structure Confined (targets : Nat → Prop) (t t' : Tree) : Prop where
  wellFormed : t'.WellFormed
  size : t.size ≤ t'.size
  bytes : t.arena.bytes <+: t'.arena.bytes
  capacity : t.arena.capacity ≤ t'.arena.capacity
  kept : ∀ j, j < t.size → ¬ targets j → t'.nodes[j]? = t.nodes[j]?
  grown : ∀ (j : Nat) (n : Node), t.nodes[j]? = some n →
    ∃ n', t'.nodes[j]? = some n' ∧ n.Grows t.size n'
  below : ∀ j, t.size ≤ j → j < t'.size → ∃ i, targets i ∧ i < t.size ∧ t'.Below i j
  named : ∀ (p : Nat) (m : Node), t'.nodes[p]? = some m → m.kind = .map →
    ∀ c ∈ m.children, t.size ≤ c → ∃ k span, t'.nodes[c]? = some k ∧ k.key = .known span
  grounded : t.Grounded → t'.Grounded

namespace Confined

variable {targets targets' : Nat → Prop} {t t₁ t' : Tree} {a c i id : Nat} {n : Node}

theorem refl (targets : Nat → Prop) (wf : t.WellFormed) : Confined targets t t where
  wellFormed := wf
  size := Nat.le_refl _
  bytes := List.prefix_rfl
  capacity := Nat.le_refl _
  kept _ _ _ := rfl
  grown _ n hn := ⟨n, hn, .refl _ n⟩
  below j hj hlt := absurd hlt (by omega)
  named p m hm _ c hc hle := by
    obtain ⟨_, k, hk, _⟩ := wf.down p m c hm hc
    have := lt_size hk
    omega
  grounded h := h

theorem mono (h : Confined targets t t') (sub : ∀ j, targets j → targets' j) :
    Confined targets' t t' where
  wellFormed := h.wellFormed
  size := h.size
  bytes := h.bytes
  capacity := h.capacity
  kept j hj hnot := h.kept j hj fun hin => hnot (sub j hin)
  grown := h.grown
  below j hle hlt := by
    obtain ⟨i, hi, rest⟩ := h.below j hle hlt
    exact ⟨i, sub i hi, rest⟩
  named := h.named
  grounded := h.grounded

/-- What was below a node still is. -/
theorem below_mono (h : Confined targets t t') (hb : t.Below a c) : t'.Below a c := by
  induction hb with
  | self => exact .self
  | child _ found hc ih =>
    obtain ⟨n', found', grows⟩ := h.grown _ _ found
    exact .child ih found' (grows.mem hc)

/-- What is not new and below a node was below it before. -/
theorem below_old (h : Confined targets t t') (hb : t'.Below a c) (old : c < t.size) :
    t.Below a c := by
  induction hb with
  | self => exact .self
  | child _ found' hc ih =>
    have := (h.wellFormed.down _ _ _ found' hc).1
    obtain ⟨n, found⟩ := exists_node (Nat.lt_trans this old)
    obtain ⟨n', found'', grows⟩ := h.grown _ _ found
    rw [found'] at found''
    cases found''
    exact .child (ih (lt_size found)) found (grows.old hc old)

theorem trans (first : Confined targets t t₁) (later : Confined targets' t₁ t')
    (inside : ∀ j, targets' j → targets j ∨ t.size ≤ j) : Confined targets t t' where
  wellFormed := later.wellFormed
  size := Nat.le_trans first.size later.size
  bytes := first.bytes.trans later.bytes
  capacity := Nat.le_trans first.capacity later.capacity
  kept j hj hnot := by
    have hnot' : ¬ targets' j := fun hin => by
      rcases inside j hin with hin | hle
      · exact hnot hin
      · omega
    rw [later.kept j (Nat.lt_of_lt_of_le hj first.size) hnot', first.kept j hj hnot]
  grown j n hn := by
    obtain ⟨n₁, hn₁, grows⟩ := first.grown j n hn
    obtain ⟨n', hn', grows'⟩ := later.grown j n₁ hn₁
    exact ⟨n', hn', grows.trans grows' first.size⟩
  below j hle hlt := by
    have old {i : Nat} (hle : t.size ≤ i) (hlt : i < t₁.size) :
        ∃ i', targets i' ∧ i' < t.size ∧ t'.Below i' i := by
      obtain ⟨i', hi', hsize, hb⟩ := first.below i hle hlt
      exact ⟨i', hi', hsize, later.below_mono hb⟩
    by_cases hlt₁ : j < t₁.size
    · exact old hle hlt₁
    · obtain ⟨i, hi, hsize, hb⟩ := later.below j (by omega) hlt
      by_cases new : t.size ≤ i
      · obtain ⟨i', hi', hsize', hb'⟩ := old new hsize
        exact ⟨i', hi', hsize', hb'.trans hb⟩
      · exact ⟨i, (inside i hi).resolve_right new, by omega, hb⟩
  named p m hm map c hc hle := by
    by_cases new : t₁.size ≤ c
    · exact later.named p m hm map c hc new
    · have old : c < t₁.size := by omega
      have hlt := (later.wellFormed.down p m c hm hc).1
      obtain ⟨m₁, hm₁⟩ := exists_node (Nat.lt_trans hlt old)
      obtain ⟨m', hm', grows⟩ := later.grown p m₁ hm₁
      rw [hm] at hm'
      cases hm'
      obtain ⟨k, span, hk, known⟩ := first.named p m₁ hm₁ ((grows.kind_eq hc old).symm.trans map) c
        (grows.old hc old) hle
      obtain ⟨k', hk', grows'⟩ := later.grown c k hk
      refine ⟨k', span, hk', ?_⟩
      rcases grows'.key with same | ⟨missing, _⟩
      · rw [same, known]
      · rw [known] at missing
        cases missing
  grounded h := later.grounded (first.grounded h)

/-- Every span that was readable reads the same. -/
theorem text (h : Confined targets t t') {span : Span}
    {text : Text} (reads : t.text span = .ok text) : t'.text span = .ok text := by
  unfold Tree.text at reads ⊢
  cases ht : t.arena.text span with
  | error fault =>
    rw [ht] at reads
    cases reads
  | ok found =>
    rw [ht] at reads
    rw [Arena.text_grow h.bytes h.capacity ht]
    exact reads

/-- No child of a map at or below a node loses its key, and new ones get one. -/
theorem keyed (h : Confined targets t t') (grounded : t.Grounded) (keyed : t.Keyed id) :
    t'.Keyed id := by
  intro i m hb hm map c hc k hk
  have hlt := (h.wellFormed.down i m c hm hc).1
  by_cases new : t.size ≤ c
  · obtain ⟨k', span, hk', known⟩ := h.named i m hm map c hc new
    rw [hk] at hk'
    cases hk'
    rw [known]
    intro blank
    cases blank
  · have old : c < t.size := by omega
    obtain ⟨m₀, hm₀⟩ := exists_node (Nat.lt_trans hlt old)
    obtain ⟨m', hm', grows⟩ := h.grown i m₀ hm₀
    rw [hm] at hm'
    cases hm'
    obtain ⟨k₀, hk₀⟩ := exists_node old
    obtain ⟨k', hk', grows'⟩ := h.grown c k₀ hk₀
    rw [hk] at hk'
    cases hk'
    rcases grows'.key with same | ⟨missing, _⟩
    · rw [same]
      exact keyed i m₀ (h.below_old hb (lt_size hm₀)) hm₀ ((grows.kind_eq hc old).symm.trans map) c
        (grows.old hc old) k₀ hk₀
    · exact absurd missing (grounded c k₀ hk₀).1.ne_missing

end Confined

variable {t t' : Tree} {id : Nat} {n : Node}

/-! ## One value -/

/-- More bytes in the arena touch no node. -/
theorem confined_arena (targets : Nat → Prop) (wf : t.WellFormed) {arena : Arena}
    (bytes : t.arena.bytes <+: arena.bytes) (capacity : t.arena.capacity ≤ arena.capacity) :
    Confined targets t { t with arena } where
  wellFormed := wf.of_nodes rfl
  size := Nat.le_refl _
  bytes := bytes
  capacity := capacity
  kept _ _ _ := rfl
  grown _ n hn := ⟨n, hn, .refl _ n⟩
  below j hj hlt := absurd hlt (Nat.not_lt.2 hj)
  named := (Confined.refl targets wf).named
  grounded h i n hn := by
    have more := Arena.size_le_of_prefix bytes
    exact ⟨(h i n hn).1.mono more, (h i n hn).2.mono more⟩

namespace Opens

variable {value : Source} {first : Nat}

/-- The new nodes are the children for the parts. -/
theorem exists_label (ho : Opens t id n value first t') {j : Nat} (hle : t.size ≤ j)
    (hlt : j < t'.size) : ∃ i label, j = t.size + i ∧ value.labels[i]? = some label := by
  have hi : j - t.size < value.labels.length := by
    rw [value.labels_length]
    have := ho.size
    omega
  exact ⟨j - t.size, _, by omega, List.getElem?_eq_getElem hi⟩

theorem grows (ho : Opens t id n value first t') (found : t.nodes[id]? = some n) (j : Nat)
    (m : Node) (hm : t.nodes[j]? = some m) : ∃ m', t'.nodes[j]? = some m' ∧ m.Grows t.size m' := by
  by_cases here : j = id
  · subst here
    rw [found] at hm
    cases hm
    obtain ⟨n', hn', _, key, parent, children, kind⟩ := ho.here
    refine ⟨n', hn', parent, ?_, ⟨List.range' t.size value.parts.length, ?_, ?_⟩, kind⟩
    · rw [key]
      exact value.keptKey_cases n.key
    · rw [children]
      exact Array.toList_append
    · intro c hc
      exact (List.mem_range'_1.1 hc).1
  · exact ⟨m, by rw [ho.kept j (lt_size hm) here, hm], .refl _ m⟩

/-- A new child of a map has a key. -/
theorem named (ho : Opens t id n value first t') (wf' : t'.WellFormed) {p c : Nat} {m : Node}
    (hm : t'.nodes[p]? = some m) (map : m.kind = .map) (hc : c ∈ m.children) (hle : t.size ≤ c) :
    ∃ k span, t'.nodes[c]? = some k ∧ k.key = .known span := by
  obtain ⟨_, k, hk, parent⟩ := wf'.down p m c hm hc
  obtain ⟨i, label, rfl, hi⟩ := ho.exists_label hle (lt_size hk)
  obtain ⟨k', hk', parent', _, _, names⟩ := ho.new i label hi
  rw [hk] at hk'
  cases hk'
  obtain rfl : p = id := Option.some.inj (parent.symm.trans parent')
  obtain ⟨n', hn', shown, _⟩ := ho.here
  rw [hm] at hn'
  cases hn'
  cases value with
  | table members ending =>
    simp only [Source.labels, List.getElem?_map, Option.map_eq_some_iff] at hi
    obtain ⟨member, _, rfl⟩ := hi
    obtain ⟨offset, length, known, _⟩ := names
    exact ⟨k, _, hk, known⟩
  | array => rw [shown.1] at map; cases map
  | scalar | unsupported | unknown | absent => simp [Source.labels] at hi

theorem grounded (ho : Opens t id n value first t') (found : t.nodes[id]? = some n)
    (h : t.Grounded) : t'.Grounded := by
  have more := Arena.size_le_of_prefix ho.bytes
  intro j m hm
  by_cases new : t.size ≤ j
  · obtain ⟨i, label, rfl, hi⟩ := ho.exists_label new (lt_size hm)
    obtain ⟨c, hc, _, _, blank, names⟩ := ho.new i label hi
    rw [hm] at hc
    cases hc
    exact ⟨names.fills, .inl blank⟩
  by_cases here : j = id
  · subst here
    obtain ⟨n', hn', shown, key, _⟩ := ho.here
    rw [hm] at hn'
    cases hn'
    refine ⟨?_, ?_⟩
    · rw [key, Source.keptKey_eq (h j n found).1.ne_missing]
      exact (h j n found).1.mono more
    · cases value with
      | table | array => exact .inl shown.2.1
      | scalar value => exact shown.2.1.fills
      | unsupported | unknown | absent => exact shown.elim
  · rw [ho.kept j (by omega) here] at hm
    exact ⟨(h j m hm).1.mono more, (h j m hm).2.mono more⟩

theorem confined (ho : Opens t id n value first t') (found : t.nodes[id]? = some n)
    (wf' : t'.WellFormed) : Confined (· = id) t t' where
  wellFormed := wf'
  size := by rw [ho.size]; exact Nat.le_add_right _ _
  bytes := ho.bytes
  capacity := ho.capacity
  kept := ho.kept
  grown := ho.grows found
  below j hle hlt := by
    obtain ⟨n', hn', _, _, _, children, _⟩ := ho.here
    refine ⟨id, rfl, lt_size found, .child .self hn' ?_⟩
    rw [children, ← Array.mem_toList_iff]
    have := ho.size
    simp
    omega
  named _ _ hm map _ hc hle := ho.named wf' hm map hc hle
  grounded := ho.grounded found

end Opens

/-! ## A stack of values -/

theorem put_wellFormed {node : Quantity} {value : Source} {r : Except Failure Nat}
    (wf : t.WellFormed) (ran : put node value t = (r, t')) : t'.WellFormed := by
  have := lasting_wellFormed.put node value t wf
  rwa [ran] at this

/-- Once a stack was written or was not, only its nodes grew, and all that is new is below them. -/
theorem writeAll_confined {limit : Quantity} {stack : List Pending} {r : Except Failure Unit}
    (wf : t.WellFormed) (ran : writeAll limit stack t = (r, t'))
    (ends : r ≠ .error (.arena .stuck)) :
    Confined (fun j => ∃ item ∈ stack, item.node = .natural j) t t' := by
  induction stack using Pending.stack_induction generalizing t with
  | nil =>
    rw [writeAll_nil] at ran
    cases ran
    exact .refl _ wf
  | cons item rest ih =>
    have wf' := lasting_wellFormed.writeAll limit (item :: rest) t wf
    have begun := writeAll_begun limit item rest t
    rw [ran] at wf' begun
    have here {id : Nat} {n : Node} {first : Nat} {t₁ : Tree} (same : item.node = .natural id)
        (found : t.nodes[id]? = some n) (opens : Opens t id n item.value first t₁)
        (wf₁ : t₁.WellFormed) :
        Confined (fun j => ∃ other ∈ item :: rest, other.node = .natural j) t t₁ := by
      refine (opens.confined found wf₁).mono ?_
      rintro j rfl
      exact ⟨item, List.mem_cons_self, same⟩
    generalize hp : (r, t') = p at begun
    cases begun with
    | deep => cases hp; exact .refl _ wf
    | stuck => cases hp; exact absurd rfl ends
    | refused _ _ bytes capacity => cases hp; exact confined_arena _ wf bytes capacity
    | broken _ same found opens => cases hp; exact here same found opens wf'
    | @opened id n first t₁ _ same found opens _ wrote =>
      have wf₁ := put_wellFormed wf wrote
      refine (here same found opens wf₁).trans (ih first wf₁ hp.symm) ?_
      rintro j ⟨other, mem, node⟩
      rcases List.mem_append.1 mem with mem | mem
      · obtain ⟨i, part, _, rfl⟩ := opens.mem_children mem
        cases node
        exact .inr (Nat.le_add_right _ _)
      · exact .inl ⟨other, List.mem_cons_of_mem _ mem, node⟩

/-! ## Storing a value -/

/-- With a buffer, storing never gets stuck. -/
theorem writeAll_ends (limit : Quantity) (stack : List Pending) (buffer : 0 < t.arena.capacity) :
    (writeAll limit stack t).1 ≠ .error (.arena .stuck) := by
  induction stack using Pending.stack_induction generalizing t with
  | nil =>
    rw [writeAll_nil]
    intro h
    cases h
  | cons item rest ih =>
    have begun := writeAll_begun limit item rest t
    generalize writeAll limit (item :: rest) t = p at begun
    cases begun with
    | deep => simp
    | stuck empty => omega
    | refused _ cause => simpa using cause.ne_stuck
    | broken _ _ _ _ fault => simpa using Source.fault_ne_stuck fault
    | opened _ _ _ opens => exact ih _ (Nat.lt_of_lt_of_le buffer opens.capacity)

/-- The key of the target is left as it was, or as the value leaves it. -/
theorem store_key {value : Source} {limit : Quantity} {r : Except Failure Unit}
    (wf : t.WellFormed) (ran : store value (.natural id) limit t = (r, t'))
    (ends : r ≠ .error (.arena .stuck)) (found : t.nodes[id]? = some n) :
    ∃ n', t'.nodes[id]? = some n' ∧ (n'.key = n.key ∨ n'.key = value.keptKey n.key) := by
  rw [store_def] at ran
  have begun := writeAll_begun limit ⟨value, .natural id, 0⟩ [] t
  rw [ran] at begun
  generalize hp : (r, t') = p at begun
  cases begun with
  | deep => cases hp; exact ⟨n, found, .inl rfl⟩
  | stuck => cases hp; exact absurd rfl ends
  | refused => cases hp; exact ⟨n, found, .inl rfl⟩
  | broken _ same found' opens =>
    cases hp
    cases same
    rw [found] at found'
    cases found'
    obtain ⟨n', hn', _, key, _⟩ := opens.here
    exact ⟨n', hn', .inr key⟩
  | @opened _ _ first t₁ _ same found' opens _ wrote =>
    cases same
    rw [found] at found'
    cases found'
    obtain ⟨n', hn', _, key, _⟩ := opens.here
    have confined := writeAll_confined (put_wellFormed wf wrote) hp.symm ends
    refine ⟨n', ?_, .inr key⟩
    rw [confined.kept id (lt_size hn') ?_, hn']
    rintro ⟨other, mem, node⟩
    rw [List.append_nil] at mem
    obtain ⟨i, part, _, rfl⟩ := opens.mem_children mem
    cases node
    exact absurd (lt_size found) (by omega)

/-- **Storing a value touches nothing but its node.** Whatever the value, the node and the tree
are, and whether or not the value could be stored: no node but the target was touched, the target
has the parent and the children that it had, and its key but for what `Source.keptKey` says, every
new node is below the target, and every new child of a map has a key. No byte of the arena has
changed, so that all that could be read reads the same. If the target could be rendered before, it
still can. -/
theorem store_confined (reachable : t.Reachable) {value : Source} {node limit : Quantity}
    {r : Except Failure Unit} (ran : store value node limit t = (r, t'))
    (ends : r ≠ .error (.arena .stuck)) :
    (∀ j, j < t.size → node ≠ .natural j → t'.nodes[j]? = t.nodes[j]?) ∧
    (∀ (id : Nat) (n : Node), node = .natural id → t.nodes[id]? = some n →
      ∃ n', t'.nodes[id]? = some n' ∧ n'.parent = n.parent ∧
        (n'.key = n.key ∨ n'.key = value.keptKey n.key) ∧
        n.children.toList <+: n'.children.toList) ∧
    (∀ j, t.size ≤ j → j < t'.size → ∃ id, node = .natural id ∧ id < t.size ∧ t'.Below id j) ∧
    (∀ (p : Nat) (m : Node), t'.nodes[p]? = some m → m.kind = .map → ∀ c ∈ m.children,
      t.size ≤ c → ∃ k span, t'.nodes[c]? = some k ∧ k.key = .known span) ∧
    t.arena.bytes <+: t'.arena.bytes ∧
    (∀ span text, t.text span = .ok text → t'.text span = .ok text) ∧
    ∀ id, node = .natural id → id < t.size → t.Grounded → t.Keyed id →
      ∀ k, ∃ text, t'.Emits id k text := by
  have wf := reachable.wellFormed
  have confined := writeAll_confined wf ran ends
  have only (j : Nat) : (∃ item ∈ [(⟨value, node, 0⟩ : Pending)], item.node = .natural j) ↔
      node = .natural j := by simp
  refine ⟨?_, ?_, ?_, confined.named, confined.bytes, ?_, ?_⟩
  · intro j hj other
    exact confined.kept j hj fun target => other ((only j).1 target)
  · rintro id n rfl found
    obtain ⟨n', found', grows⟩ := confined.grown id n found
    obtain ⟨m, hm, key⟩ := store_key wf ran ends found
    rw [found'] at hm
    cases hm
    obtain ⟨more, children, _⟩ := grows.children
    exact ⟨n', found', grows.parent, key, more, children.symm⟩
  · intro j hle hlt
    obtain ⟨id, target, hsize, below⟩ := confined.below j hle hlt
    exact ⟨id, (only id).1 target, hsize, below⟩
  · intro span text reads
    exact confined.text reads
  · rintro id rfl existing grounded keyed k
    have wf' := confined.wellFormed
    have existing' := Nat.lt_of_lt_of_le existing confined.size
    obtain ⟨document, depicts⟩ := exists_depicts wf' (confined.grounded grounded) existing'
      (confined.keyed grounded keyed)
    exact ⟨_, depicts.emits wf' existing' k⟩

/-- A list whose second item has no place in a tree. Its first item and the node for the second one
stay, and the list can be rendered. -/
theorem store_confined_unsupported : ∃ t' : Tree,
    store (.ofItems [.ofItems [], .unsupported (lit "x")]) (.natural 0) defaultLimit
      (ofArena (.empty 1)) = (.error (.unsupported (lit "x") (.natural 2)), t') ∧
    (∀ j, 1 ≤ j → j < t'.size → t'.Below 0 j) ∧ ∀ k, ∃ text, t'.Emits 0 k text := by
  have reachable : (ofArena (.empty 1)).Reachable := .new create_infinite
  have ran : store (.ofItems [.ofItems [], .unsupported (lit "x")]) (.natural 0) defaultLimit
      (ofArena (.empty 1)) = (.error (.unsupported (lit "x") (.natural 2)),
        ⟨.empty 1, #[{ kind := .seq, children := #[1, 2] }, { kind := .seq, parent := some 0 },
          { parent := some 0 }]⟩) := by
    have outer : put (.natural 0) (.ofItems [.ofItems [], .unsupported (lit "x")])
        (ofArena (.empty 1)) = (.ok 1, ⟨.empty 1, #[{ kind := .seq, children := #[1, 2] },
          { parent := some 0 }, { parent := some 0 }]⟩) := rfl
    have inner : put (.natural 1) (.ofItems []) ⟨.empty 1, #[{ kind := .seq, children := #[1, 2] },
        { parent := some 0 }, { parent := some 0 }]⟩ =
        (.ok 3, ⟨.empty 1, #[{ kind := .seq, children := #[1, 2] },
          { kind := .seq, parent := some 0 }, { parent := some 0 }]⟩) := rfl
    rw [store_def, writeAll_cons rfl outer]
    change writeAll defaultLimit [⟨.ofItems [], .natural 1, 1⟩,
      ⟨.unsupported (lit "x"), .natural 2, 1⟩] _ = _
    rw [writeAll_cons rfl inner]
    change writeAll defaultLimit [⟨.unsupported (lit "x"), .natural 2, 1⟩] _ = _
    rw [writeAll_def]
    rfl
  have only {i : Nat} {n : Node} (h : (ofArena (.empty 1)).nodes[i]? = some n) : n = {} := by
    have hlt : i < 1 := lt_size h
    obtain rfl : i = 0 := by omega
    exact (Option.some.inj h).symm
  have grounded : (ofArena (.empty 1)).Grounded := by
    intro i n h
    rw [only h]
    exact ⟨.inl rfl, .inl rfl⟩
  have keyed : (ofArena (.empty 1)).Keyed 0 := by
    intro i n _ h map
    rw [only h] at map
    cases map
  obtain ⟨_, _, below, _, _, _, emits⟩ := store_confined reachable ran (by simp)
  refine ⟨_, ran, ?_, emits 0 rfl Nat.zero_lt_one grounded keyed⟩
  intro j hle hlt
  obtain ⟨id, target, _, hb⟩ := below j hle hlt
  cases target
  exact hb

/-- A key in whose place nothing was put counts as taken before a table is stored in its node, and
as absent afterwards, also if the listing of the table breaks off. -/
theorem store_clears_key : ∃ t : Tree, t.Reachable ∧ t.key (.natural 0) = .ok .missing ∧
    (store (.table [] (.broken (.plain (lit "boom")))) (.natural 0) defaultLimit t).1 =
      .error (.interrupted (.plain (lit "boom"))) ∧
    (store (.table [] (.broken (.plain (lit "boom")))) (.natural 0) defaultLimit t).2.key
      (.natural 0) = .ok .blank := by
  have reachable : ((ofArena (.empty 1)).after
      [.makeScalar (.natural 0) .missing .blank]).Reachable := .step (.new create_infinite) _
  have ran : store (.table [] (.broken (.plain (lit "boom")))) (.natural 0) defaultLimit
      ((ofArena (.empty 1)).after [.makeScalar (.natural 0) .missing .blank]) =
      (.error (.interrupted (.plain (lit "boom"))), ⟨.empty 1, #[{ kind := .map }]⟩) := by
    rw [store_def, writeAll_def]
    rfl
  refine ⟨_, reachable, rfl, ?_, ?_⟩
  · rw [ran]
  · rw [ran]
    rfl

end Tree

end SpanTree
