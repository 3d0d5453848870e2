import Mathlib.Data.List.Induction
import Mathlib.Data.List.Nodup
import SpanTree.Proofs.Forest

/-!
# Paths

A path of positions leads from a node to one below it.

* `follow_cons`, `follow_concat`: the first and the last step of such a path go from a node to a
  child of it;
* `WellFormed.exists_path`, `WellFormed.path_unique`: one path leads from the root to each node;
* `Reachable.one_tree`: whatever is done to a tree, its nodes form one tree below the root.
-/

namespace SpanTree

/-- The steps of a path that names each child by its position. -/
def positions (path : List Nat) : List Step := path.map fun i => .position (.natural i)

namespace Tree

variable {t : Tree} {id i c : Nat} {n : Node} {path : List Nat}

theorem step_position (found : t.nodes[id]? = some n) (hc : n.children[i]? = some c) :
    t.step (.natural id) (.position (.natural i)) = .ok (.natural c) := by
  have at_i : t.childAt (.natural id) (.natural i) = .ok (some c) := by
    rw [childAt_def, node_natural found]
    exact congrArg Except.ok hc
  rw [step_def, child?_position, at_i]
  rfl

theorem step_position_inv {q : Quantity}
    (h : t.step (.natural id) (.position (.natural i)) = .ok q) :
    ∃ n c, t.nodes[id]? = some n ∧ n.children[i]? = some c ∧ q = .natural c := by
  cases found : t.nodes[id]? with
  | none =>
    have none : t.node? (.natural id) = none := found
    rw [step_def, child?_position, childAt_def, node_none none] at h
    cases h
  | some n =>
    cases hc : n.children[i]? with
    | none =>
      have at_i : t.childAt (.natural id) (.natural i) = .ok none := by
        rw [childAt_def, node_natural found]
        exact congrArg Except.ok hc
      rw [step_def, child?_position, at_i] at h
      cases h
    | some c =>
      rw [step_position found hc] at h
      cases h
      exact ⟨n, c, rfl, hc, rfl⟩

/-- The first step of a path goes from a node to a child of it. -/
theorem follow_cons {q : Quantity} : t.follow (.natural id) (positions (i :: path)) = .ok q ↔
    ∃ n c, t.nodes[id]? = some n ∧ n.children[i]? = some c ∧
      t.follow (.natural c) (positions path) = .ok q := by
  constructor
  · intro h
    cases hs : t.step (.natural id) (.position (.natural i)) with
    | error f =>
      rw [positions, List.map_cons, follow_step, hs] at h
      cases h
    | ok next =>
      obtain ⟨n, c, found, hc, rfl⟩ := step_position_inv hs
      rw [positions, List.map_cons, follow_step, hs] at h
      exact ⟨n, c, found, hc, h⟩
  · rintro ⟨n, c, found, hc, h⟩
    rw [positions, List.map_cons, follow_step, step_position found hc]
    exact h

/-- The last step of a path goes from a node to a child of it. -/
theorem follow_concat :
    t.follow (.natural id) (positions (path ++ [i])) = .ok (.natural c) ↔
      ∃ p n, t.follow (.natural id) (positions path) = .ok (.natural p) ∧
        t.nodes[p]? = some n ∧ n.children[i]? = some c := by
  induction path generalizing id with
  | nil =>
    rw [List.nil_append, follow_cons]
    constructor
    · rintro ⟨n, d, found, hd, h⟩
      cases h
      exact ⟨id, n, rfl, found, hd⟩
    · rintro ⟨p, n, h, found, hc⟩
      cases h
      exact ⟨n, c, found, hc, rfl⟩
  | cons j rest ih =>
    simp only [List.cons_append, follow_cons, ih]
    constructor
    · rintro ⟨m, d, found, hd, p, n, h, foundp, hc⟩
      exact ⟨p, n, ⟨m, d, found, hd, h⟩, foundp, hc⟩
    · rintro ⟨p, n, ⟨m, d, found, hd, h⟩, foundp, hc⟩
      exact ⟨m, d, found, hd, p, n, h, foundp, hc⟩

/-- A path of positions leads to one node that is below the first. -/
theorem below_of_follow (h : t.follow (.natural id) (positions path) = .ok (.natural c)) :
    t.Below id c := by
  induction path using List.reverseRecOn generalizing c with
  | nil =>
    cases h
    exact .self
  | append_singleton path i ih =>
    obtain ⟨p, n, hp, found, hc⟩ := follow_concat.1 h
    exact .child (ih hp) found (Array.mem_of_getElem? hc)

theorem Below.exists_path (h : t.Below id c) :
    ∃ path, t.follow (.natural id) (positions path) = .ok (.natural c) := by
  induction h with
  | self => exact ⟨[], rfl⟩
  | child _ found hc ih =>
    obtain ⟨path, hp⟩ := ih
    obtain ⟨i, hi⟩ := Array.mem_iff_getElem?.1 hc
    exact ⟨path ++ [i], follow_concat.2 ⟨_, _, hp, found, hi⟩⟩

namespace WellFormed

/-- Every node is below the root. -/
theorem below_root (h : t.WellFormed) (existing : i < t.size) : t.Below 0 i := by
  induction i using Nat.strongRecOn with
  | ind i ih =>
    rcases Nat.eq_zero_or_pos i with rfl | positive
    · exact .self
    · obtain ⟨n, found⟩ := exists_node existing
      obtain ⟨p, m, _, below, parent, mem⟩ := h.up i n found positive
      exact .child (ih p below (lt_size parent)) parent mem

/-- A node is a child of one node, at one position. -/
theorem child_inj (h : t.WellFormed) {p p' j : Nat} {m : Node} (found : t.nodes[p]? = some n)
    (found' : t.nodes[p']? = some m) (hc : n.children[i]? = some c)
    (hc' : m.children[j]? = some c) : p = p' ∧ i = j := by
  obtain ⟨_, k, hk, parent⟩ := h.down p n c found (Array.mem_of_getElem? hc)
  obtain ⟨_, k', hk', parent'⟩ := h.down p' m c found' (Array.mem_of_getElem? hc')
  obtain rfl : k = k' := by simpa [hk] using hk'
  obtain rfl : p = p' := by simpa [parent] using parent'
  obtain rfl : n = m := by simpa [found] using found'
  refine ⟨rfl, ?_⟩
  have nodup : n.children.toList.Nodup := (h.ascending p n found).imp Nat.ne_of_lt
  have low : i < n.children.toList.length := (Array.getElem?_eq_some_iff.1 hc).1
  apply (List.getElem?_inj low nodup).1
  rw [Array.getElem?_toList, Array.getElem?_toList, hc, hc']

theorem root_ne_child (h : t.WellFormed) (found : t.nodes[id]? = some n) :
    n.children[i]? ≠ some 0 := by
  intro hc
  exact Nat.not_lt_zero id (h.down id n 0 found (Array.mem_of_getElem? hc)).1

/-- Two paths from the root to a node are the same. -/
theorem path_unique (h : t.WellFormed) {path' : List Nat}
    (hp : t.follow (.natural 0) (positions path) = .ok (.natural c))
    (hp' : t.follow (.natural 0) (positions path') = .ok (.natural c)) : path = path' := by
  induction path using List.reverseRecOn generalizing c path' with
  | nil =>
    cases hp
    cases path' using List.reverseRecOn with
    | nil => rfl
    | append_singleton path' j =>
      obtain ⟨p, m, _, found, hc⟩ := follow_concat.1 hp'
      exact absurd hc (h.root_ne_child found)
  | append_singleton path i ih =>
    obtain ⟨p, n, hp, found, hc⟩ := follow_concat.1 hp
    cases path' using List.reverseRecOn with
    | nil =>
      cases hp'
      exact absurd hc (h.root_ne_child found)
    | append_singleton path' j =>
      obtain ⟨p', m, front, found', hc'⟩ := follow_concat.1 hp'
      obtain ⟨rfl, rfl⟩ := h.child_inj found found' hc hc'
      rw [ih hp front]

theorem exists_path (h : t.WellFormed) (existing : i < t.size) :
    ∃ path, t.follow (.natural 0) (positions path) = .ok (.natural i) :=
  (h.below_root existing).exists_path

/-- The parent of a node lists it once. -/
theorem count_child (h : t.WellFormed) (found : t.nodes[id]? = some n) (hc : c ∈ n.children) :
    n.children.toList.count c = 1 :=
  List.count_eq_one_of_mem ((h.ascending id n found).imp Nat.ne_of_lt)
    (Array.mem_toList_iff.2 hc)

/-- No other node than its parent lists a node. -/
theorem parent_unique (h : t.WellFormed) {p p' : Nat} {m : Node} (found : t.nodes[p]? = some n)
    (found' : t.nodes[p']? = some m) (hc : c ∈ n.children) (hc' : c ∈ m.children) : p = p' := by
  obtain ⟨i, hi⟩ := Array.mem_iff_getElem?.1 hc
  obtain ⟨j, hj⟩ := Array.mem_iff_getElem?.1 hc'
  exact (h.child_inj found found' hi hj).1

end WellFormed

/-- **The nodes form one tree.** Whatever was done to a tree, the root has no parent, and every
other node has one, which came before it and lists it once, as no other node does. Lists are
ascending. Only maps and seqs have children, they have no value, and an unset node has nothing. So
one path leads from the root to each node, and no path leads elsewhere. -/
theorem Reachable.one_tree (h : t.Reachable) :
    (∃ n : Node, t.nodes[0]? = some n ∧ n.parent = none) ∧
    (∀ (i : Nat) (n : Node), t.nodes[i]? = some n → 0 < i → ∃ p m, n.parent = some p ∧ p < i ∧
      t.nodes[p]? = some m ∧ m.children.toList.count i = 1 ∧
      ∀ (q : Nat) (k : Node), t.nodes[q]? = some k → i ∈ k.children → q = p) ∧
    (∀ (i : Nat) (n : Node), t.nodes[i]? = some n →
      n.children.toList.Pairwise (· < ·) ∧
      (n.children ≠ #[] → n.kind = .map ∨ n.kind = .seq) ∧
      (n.kind = .map ∨ n.kind = .seq → n.value = .blank) ∧
      (n.kind = .unset → n.key = .blank ∧ n.value = .blank ∧ n.children = #[])) ∧
    (∀ i < t.size, ∃! path, t.follow (.natural 0) (positions path) = .ok (.natural i)) ∧
    ∀ path i, t.follow (.natural 0) (positions path) = .ok (.natural i) → i < t.size := by
  have wf := h.wellFormed
  have container (k : Kind) : k.isContainer = true ↔ k = .map ∨ k = .seq := by
    cases k <;> decide
  refine ⟨wf.root, ?_, ?_, ?_, ?_⟩
  · intro i n found positive
    obtain ⟨p, m, parent, below, foundp, mem⟩ := wf.up i n found positive
    refine ⟨p, m, parent, below, foundp, wf.count_child foundp mem, ?_⟩
    intro q k foundq mem'
    exact wf.parent_unique foundq foundp mem' mem
  · intro i n found
    have proper := wf.proper i n found
    refine ⟨wf.ascending i n found, ?_, ?_, ?_⟩
    · intro some
      exact (container _).1 (proper.parental some)
    · intro kind
      exact proper.hollow ((container _).2 kind)
    · intro unset
      obtain ⟨key, value⟩ := proper.unset unset
      refine ⟨key, value, Classical.byContradiction fun some => ?_⟩
      have := proper.parental some
      rw [unset] at this
      cases this
  · intro i existing
    obtain ⟨path, hp⟩ := wf.exists_path existing
    exact ⟨path, hp, fun other ho => wf.path_unique ho hp⟩
  · intro path i hp
    obtain ⟨n, found, _⟩ := wf.root
    exact (below_of_follow hp).lt_size wf (lt_size found)

/-- A seq in a map, and a change that is refused. -/
theorem one_tree_nested : ∃ t : Tree,
    t = (ofArena (.empty 1)).after [.makeMap (.natural 0) .blank, .addChild (.natural 0),
      .makeSeq (.natural 1) .missing, .addChild (.natural 1),
      .makeScalar (.natural 1) .blank .blank] ∧
    t.size = 3 ∧ (∃! path, t.follow (.natural 0) (positions path) = .ok (.natural 2)) ∧
    ∃ p m, p < 2 ∧ t.nodes[p]? = some m ∧ m.children.toList.count 2 = 1 := by
  have reachable : ((ofArena (.empty 1)).after [.makeMap (.natural 0) .blank,
      .addChild (.natural 0), .makeSeq (.natural 1) .missing, .addChild (.natural 1),
      .makeScalar (.natural 1) .blank .blank]).Reachable :=
    .step (.step (.step (.step (.step (.new create_infinite) _) _) _) _) _
  obtain ⟨_, up, _, paths, _⟩ := Reachable.one_tree reachable
  obtain ⟨p, m, _, below, found, once, _⟩ := up 2 { parent := some 1 } rfl (by decide)
  exact ⟨_, rfl, rfl, paths 2 (by decide), p, m, below, found, once⟩

end Tree

end SpanTree
