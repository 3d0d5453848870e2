import Mathlib.Data.List.Nodup
import Mathlib.Data.List.Perm.Subperm
import SpanTree.Proofs.Forest

/-!
# Nodes in pre-order

The nodes at and below a node, each before the ones below it and the children of a node in order.

* `WellFormed.descend`: what holds of a node if it holds of its children holds of every node;
* `Tree.preorder`: the nodes at and below a node, by recursion over the tree;
* `mem_preorder`, `nodup_preorder`: each of them is listed, and none of them twice.
-/

namespace SpanTree.Tree

variable {t : Tree} {id j : Nat} {n : Node}

/-- Children come after their parents, so what a node has if its children have it, every node
has. -/
theorem WellFormed.descend (wf : t.WellFormed) {motive : Nat → Prop}
    (node : ∀ id n, t.nodes[id]? = some n → (∀ c ∈ n.children, motive c) → motive id)
    (existing : id < t.size) : motive id := by
  induction distance : t.size - id using Nat.strongRecOn generalizing id with
  | ind distance ih =>
    obtain ⟨n, found⟩ := exists_node existing
    refine node id n found fun c hc => ?_
    obtain ⟨later, _, hm, _⟩ := wf.down id n c found hc
    have inside := lt_size hm
    exact ih (t.size - c) (by omega) inside rfl

/-- What is at or below a node is the node or at or below one of its children. -/
theorem Below.first (h : t.Below id j) (found : t.nodes[id]? = some n) :
    id = j ∨ ∃ c ∈ n.children, t.Below c j := by
  induction h with
  | self => exact .inl rfl
  | child _ found' hc ih =>
    rcases ih with rfl | ⟨c, first, below⟩
    · rw [found] at found'
      cases found'
      exact .inr ⟨_, hc, .self⟩
    · exact .inr ⟨c, first, below.child found' hc⟩

/-- A node and the nodes below it, in pre-order. The recursion follows the children that come after
their parent, as all children do. -/
def preorder (t : Tree) (id : Nat) : List Nat :=
  match _found : t.nodes[id]? with
  | none => []
  | some n => id :: n.children.toList.flatMap fun c => if id < c then preorder t c else []
termination_by t.size - id
decreasing_by
  have := lt_size _found
  omega

theorem preorder_eq (wf : t.WellFormed) (found : t.nodes[id]? = some n) :
    t.preorder id = id :: n.children.toList.flatMap t.preorder := by
  rw [preorder]
  split
  · next none =>
    rw [found] at none
    cases none
  · next m found' =>
    rw [found] at found'
    cases found'
    refine congrArg (id :: ·) (List.flatMap_congr fun c hc => if_pos ?_)
    exact (wf.down id n c found (Array.mem_toList_iff.1 hc)).1

/-- The nodes in pre-order are the node itself and those below it. -/
theorem mem_preorder (wf : t.WellFormed) (existing : id < t.size) :
    j ∈ t.preorder id ↔ t.Below id j := by
  refine wf.descend (motive := fun id => j ∈ t.preorder id ↔ t.Below id j) ?_ existing
  intro id n found ih
  rw [preorder_eq wf found, List.mem_cons, List.mem_flatMap]
  constructor
  · rintro (rfl | ⟨c, hc, hj⟩)
    · exact .self
    · have hc := Array.mem_toList_iff.1 hc
      exact (Below.child .self found hc).trans ((ih c hc).1 hj)
  · intro below
    rcases below.first found with rfl | ⟨c, hc, below⟩
    · exact .inl rfl
    · exact .inr ⟨c, Array.mem_toList_iff.2 hc, (ih c hc).2 below⟩

/-- No node is listed twice: what is below two children of a node is apart. -/
theorem nodup_preorder (wf : t.WellFormed) (existing : id < t.size) : (t.preorder id).Nodup := by
  refine wf.descend (motive := fun id => (t.preorder id).Nodup) ?_ existing
  intro id n found ih
  have child {c j : Nat} (hc : c ∈ n.children) (hj : j ∈ t.preorder c) : t.Below c j := by
    obtain ⟨_, _, hm, _⟩ := wf.down id n c found hc
    exact (mem_preorder wf (lt_size hm)).1 hj
  rw [preorder_eq wf found, List.nodup_cons, List.nodup_flatMap]
  refine ⟨?_, fun c hc => ih c (Array.mem_toList_iff.1 hc), ?_⟩
  · intro mem
    obtain ⟨c, hc, hid⟩ := List.mem_flatMap.1 mem
    have hc := Array.mem_toList_iff.1 hc
    have above := (child hc hid).le wf
    have := (wf.down id n c found hc).1
    omega
  · refine (wf.ascending id n found).imp_of_mem fun {c c'} hc hc' less j hj hj' => ?_
    have hc := Array.mem_toList_iff.1 hc
    have hc' := Array.mem_toList_iff.1 hc'
    have same := Below.disjoint wf found hc hc' (child hc hj) (child hc' hj')
    omega

theorem length_preorder_le (wf : t.WellFormed) (existing : id < t.size) :
    (t.preorder id).length ≤ t.size := by
  have inside : t.preorder id ⊆ List.range t.size := fun j hj =>
    List.mem_range.2 (((mem_preorder wf existing).1 hj).lt_size wf existing)
  have := (List.subperm_of_subset (nodup_preorder wf existing) inside).length_le
  rwa [List.length_range] at this

end SpanTree.Tree
