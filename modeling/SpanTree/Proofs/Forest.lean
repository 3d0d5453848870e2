import SpanTree.Proofs.Histories

/-!
# The nodes of a tree form one tree

* `Node.Proper`: what the kind of a node says about the rest of it;
* `Tree.WellFormed`: every node but the root is a child of exactly one other, which came before it;
* `Reachable.wellFormed`: no history ever breaks this;
* `Tree.Below`: one node is below another, or is that node;
* `Below.disjoint`: what is below two children of a node is apart.
-/

namespace SpanTree

/-- Maps and seqs alone have children, they have no value, and an unset node has nothing. -/
structure Node.Proper (n : Node) : Prop where
  parental : n.children ≠ #[] → n.kind.isContainer = true
  hollow : n.kind.isContainer = true → n.value = .blank
  unset : n.kind = .unset → n.key = .blank ∧ n.value = .blank

namespace Tree

/-- The root has no parent. Every other node has a parent that came before it and lists it, every
listed child names its parent, and lists are ascending. -/
structure WellFormed (t : Tree) : Prop where
  proper : ∀ (i : Nat) (n : Node), t.nodes[i]? = some n → n.Proper
  root : ∃ n : Node, t.nodes[0]? = some n ∧ n.parent = none
  up : ∀ (i : Nat) (n : Node), t.nodes[i]? = some n → 0 < i →
    ∃ p m, n.parent = some p ∧ p < i ∧ t.nodes[p]? = some m ∧ i ∈ m.children
  down : ∀ (i : Nat) (n : Node) (c : Nat), t.nodes[i]? = some n → c ∈ n.children →
    i < c ∧ ∃ m, t.nodes[c]? = some m ∧ m.parent = some i
  ascending : ∀ (i : Nat) (n : Node), t.nodes[i]? = some n → n.children.toList.Pairwise (· < ·)

variable {t : Tree} {id p j : Nat} {n n' m : Node}

/-! ## Single changes -/

theorem withNode_cases (h : (t.withNode id n').nodes[j]? = some m) :
    (j = id ∧ m = n') ∨ (j ≠ id ∧ t.nodes[j]? = some m) := by
  by_cases hj : j = id
  · subst hj
    have hlt : j < t.size := by
      have := lt_size h
      rwa [withNode_size] at this
    rw [withNode_self hlt] at h
    exact .inl ⟨rfl, (Option.some.inj h).symm⟩
  · rw [withNode_other hj] at h
    exact .inr ⟨hj, h⟩

theorem withChild_cases (found : t.nodes[p]? = some n)
    (h : (t.withChild p).nodes[j]? = some m) :
    (j = t.size ∧ m = { parent := some p }) ∨
      (j = p ∧ m = { n with children := n.children.push t.size }) ∨
      (j ≠ p ∧ t.nodes[j]? = some m) := by
  by_cases hj : j = p
  · subst hj
    rw [withChild_parent found] at h
    exact .inr (.inl ⟨rfl, (Option.some.inj h).symm⟩)
  · have hlt := lt_size h
    rw [withChild_size] at hlt
    by_cases hs : j = t.size
    · subst hs
      rw [withChild_new] at h
      exact .inl ⟨rfl, (Option.some.inj h).symm⟩
    · rw [withChild_other hj (by omega)] at h
      exact .inr (.inr ⟨hj, h⟩)

/-- A node may be replaced by one with the same parent and children. -/
theorem WellFormed.withNode (h : t.WellFormed) (found : t.nodes[id]? = some n)
    (parent : n'.parent = n.parent) (children : n'.children = n.children) (proper : n'.Proper) :
    (t.withNode id n').WellFormed := by
  have back {j : Nat} {m : Node} (hm : (t.withNode id n').nodes[j]? = some m) :
      ∃ m₀, t.nodes[j]? = some m₀ ∧ m.parent = m₀.parent ∧ m.children = m₀.children := by
    rcases withNode_cases hm with ⟨rfl, rfl⟩ | ⟨_, hm⟩
    · exact ⟨n, found, parent, children⟩
    · exact ⟨m, hm, rfl, rfl⟩
  have forth {j : Nat} {m₀ : Node} (hm : t.nodes[j]? = some m₀) :
      ∃ m, (t.withNode id n').nodes[j]? = some m ∧ m.parent = m₀.parent ∧
        m.children = m₀.children := by
    by_cases hj : j = id
    · subst hj
      rw [found] at hm
      cases hm
      exact ⟨n', withNode_self (lt_size found), parent, children⟩
    · exact ⟨m₀, by rw [withNode_other hj, hm], rfl, rfl⟩
  refine ⟨?_, ?_, ?_, ?_, ?_⟩
  · intro j m hm
    rcases withNode_cases hm with ⟨_, rfl⟩ | ⟨_, hm⟩
    · exact proper
    · exact h.proper j m hm
  · obtain ⟨m₀, hm₀, none⟩ := h.root
    obtain ⟨m, hm, hp, _⟩ := forth hm₀
    exact ⟨m, hm, hp.trans none⟩
  · intro j m hm hj
    obtain ⟨m₀, hm₀, hp, _⟩ := back hm
    obtain ⟨p, q, hq, hlt, hpq, hmem⟩ := h.up j m₀ hm₀ hj
    obtain ⟨q', hq', _, hc⟩ := forth hpq
    exact ⟨p, q', hp.trans hq, hlt, hq', by rw [hc]; exact hmem⟩
  · intro j m c hm hc
    obtain ⟨m₀, hm₀, _, hch⟩ := back hm
    rw [hch] at hc
    obtain ⟨hlt, q, hq, hqp⟩ := h.down j m₀ c hm₀ hc
    obtain ⟨q', hq', hp, _⟩ := forth hq
    exact ⟨hlt, q', hq', hp.trans hqp⟩
  · intro j m hm
    obtain ⟨m₀, hm₀, _, hch⟩ := back hm
    rw [hch]
    exact h.ascending j m₀ hm₀

/-- A container may be given one more child. -/
theorem WellFormed.withChild (h : t.WellFormed) (found : t.nodes[p]? = some n)
    (container : n.kind.isContainer = true) : (t.withChild p).WellFormed := by
  have hp : p < t.size := lt_size found
  have forth {j : Nat} {m₀ : Node} (hm : t.nodes[j]? = some m₀) :
      ∃ m, (t.withChild p).nodes[j]? = some m ∧ m.parent = m₀.parent ∧
        ∀ c ∈ m₀.children, c ∈ m.children := by
    by_cases hj : j = p
    · subst hj
      rw [found] at hm
      cases hm
      exact ⟨_, withChild_parent found, rfl, fun c hc => Array.mem_push_of_mem _ hc⟩
    · exact ⟨m₀, by rw [withChild_other hj (lt_size hm), hm], rfl, fun _ hc => hc⟩
  have hproper := h.proper p n found
  refine ⟨?_, ?_, ?_, ?_, ?_⟩
  · intro j m hm
    rcases withChild_cases found hm with ⟨_, rfl⟩ | ⟨_, rfl⟩ | ⟨_, hm⟩
    · exact ⟨fun none => absurd rfl none, nofun, fun _ => ⟨rfl, rfl⟩⟩
    · exact ⟨fun _ => container, hproper.hollow, hproper.unset⟩
    · exact h.proper j m hm
  · obtain ⟨m₀, hm₀, none⟩ := h.root
    obtain ⟨m, hm, hp, _⟩ := forth hm₀
    exact ⟨m, hm, hp.trans none⟩
  · intro j m hm hj
    have old {m₀ : Node} (hm₀ : t.nodes[j]? = some m₀) (same : m.parent = m₀.parent) :
        ∃ q k, m.parent = some q ∧ q < j ∧ (t.withChild p).nodes[q]? = some k ∧
          j ∈ k.children := by
      obtain ⟨q, k, hq, hlt, hk, hmem⟩ := h.up j m₀ hm₀ hj
      obtain ⟨k', hk', _, hc⟩ := forth hk
      exact ⟨q, k', same.trans hq, hlt, hk', hc j hmem⟩
    rcases withChild_cases found hm with ⟨rfl, rfl⟩ | ⟨rfl, rfl⟩ | ⟨_, hm⟩
    · exact ⟨p, _, rfl, hp, withChild_parent found, Array.mem_push_self⟩
    · exact old found rfl
    · exact old hm rfl
  · intro j m c hm hc
    have old {m₀ : Node} (hm₀ : t.nodes[j]? = some m₀) (hc₀ : c ∈ m₀.children) :
        j < c ∧ ∃ q, (t.withChild p).nodes[c]? = some q ∧ q.parent = some j := by
      obtain ⟨hlt, q, hq, hqp⟩ := h.down j m₀ c hm₀ hc₀
      obtain ⟨q', hq', hpar, _⟩ := forth hq
      exact ⟨hlt, q', hq', hpar.trans hqp⟩
    rcases withChild_cases found hm with ⟨rfl, rfl⟩ | ⟨rfl, rfl⟩ | ⟨_, hm⟩
    · exact absurd hc (Array.not_mem_empty c)
    · rcases Array.mem_push.1 hc with hc | rfl
      · exact old found hc
      · exact ⟨hp, _, withChild_new, rfl⟩
    · exact old hm hc
  · intro j m hm
    rcases withChild_cases found hm with ⟨rfl, rfl⟩ | ⟨rfl, rfl⟩ | ⟨_, hm⟩
    · exact List.Pairwise.nil
    · rw [Array.toList_push, List.pairwise_append]
      refine ⟨h.ascending j n found, List.pairwise_singleton _ _, ?_⟩
      intro c hc d hd
      rw [List.mem_singleton.1 hd]
      obtain ⟨_, q, hq, _⟩ := h.down j n c found (Array.mem_toList_iff.1 hc)
      exact lt_size hq
    · exact h.ascending j m hm

/-! ## Histories -/

/-- A change of one node either leaves the tree as it is or puts another node at its place. -/
theorem revise_cases (id : Quantity) (change : Node → Except Failure Node) (t : Tree) :
    (revise id change t).2 = t ∨ ∃ i n n', t.nodes[i]? = some n ∧ change n = .ok n' ∧
      (revise id change t).2 = t.withNode i n' := by
  rcases revise_result id change t with ⟨f, failed⟩ | ⟨i, n, n', _, found, changed, done⟩
  · exact .inl (by rw [failed])
  · exact .inr ⟨i, n, n', found, changed, by rw [done]⟩

theorem addChild_cases (parent : Quantity) (t : Tree) :
    (addChild parent t).2 = t ∨ ∃ p n, t.nodes[p]? = some n ∧ n.kind.isContainer = true ∧
      (addChild parent t).2 = t.withChild p := by
  rcases addChild_result parent t with ⟨f, failed⟩ | ⟨p, n, _, found, container, done⟩
  · exact .inl (by rw [failed])
  · exact .inr ⟨p, n, found, container, by rw [done]⟩

theorem onArena_nodes {α : Type} (work : Arena → Except ArenaFault α × Arena) (t : Tree) :
    (Edit.onArena work t).2.nodes = t.nodes := by
  cases t with | mk arena nodes =>
  simp only [Edit.onArena]
  split <;> rfl

theorem WellFormed.of_nodes {t' : Tree} (h : t.WellFormed) (same : t'.nodes = t.nodes) :
    t'.WellFormed := by
  cases t
  cases t'
  cases same
  exact ⟨h.proper, h.root, h.up, h.down, h.ascending⟩

theorem revise_wellFormed (id : Quantity) {change : Node → Except Failure Node}
    (links : ∀ n n', change n = .ok n' → n'.parent = n.parent ∧ n'.children = n.children)
    (proper : ∀ n n', change n = .ok n' → n.Proper → n'.Proper) :
    Edit.Keeps WellFormed (revise id change) := by
  intro t h
  rcases revise_cases id change t with same | ⟨i, n, n', found, hc, new⟩
  · rw [same]
    exact h
  · rw [new]
    obtain ⟨parent, children⟩ := links n n' hc
    exact h.withNode found parent children (proper n n' hc (h.proper i n found))

theorem makeContainer_wellFormed {wanted : Kind} (container : wanted.isContainer = true)
    (id : Quantity) (key : Slot Span) : Edit.Keeps WellFormed (makeContainer wanted id key) := by
  rw [makeContainer_eq_revise]
  apply revise_wellFormed
  · intro n n' hc
    split at hc
    · cases hc
    · cases hc
      exact ⟨rfl, rfl⟩
  · intro n n' hc _
    split at hc
    · cases hc
    · cases hc
      refine ⟨fun _ => container, fun _ => rfl, ?_⟩
      intro unset
      rw [show wanted = .unset from unset] at container
      cases container

theorem makeScalar_wellFormed (id : Quantity) (key value : Slot Span) :
    Edit.Keeps WellFormed (makeScalar id key value) := by
  rw [makeScalar_eq_revise]
  apply revise_wellFormed
  · intro n n' hc
    split at hc
    · cases hc
    · cases hc
      exact ⟨rfl, rfl⟩
  · intro n n' hc _
    split at hc
    · cases hc
    · next none =>
      cases hc
      refine ⟨?_, nofun, nofun⟩
      intro some
      exact absurd (Array.size_pos_iff.2 some) none

theorem flag_wellFormed (id : Quantity) (flags : BitVec 32) :
    Edit.Keeps WellFormed (flag id flags) := by
  rw [flag_eq_revise]
  apply revise_wellFormed
  · intro n n' hc
    cases hc
    exact ⟨rfl, rfl⟩
  · intro n n' hc h
    cases hc
    exact ⟨h.parental, h.hollow, h.unset⟩

theorem addChild_wellFormed (parent : Quantity) : Edit.Keeps WellFormed (addChild parent) := by
  intro t h
  rcases addChild_cases parent t with same | ⟨p, n, found, container, new⟩
  · rw [same]
    exact h
  · rw [new]
    exact h.withChild found container

theorem lasting_wellFormed : Lasting WellFormed where
  addChild := addChild_wellFormed
  makeMap := makeContainer_wellFormed rfl
  makeSeq := makeContainer_wellFormed rfl
  makeScalar := makeScalar_wellFormed
  flag := flag_wellFormed
  allocate size t h := h.of_nodes (by rw [allocate_eq_onArena, onArena_nodes])
  copy text t h := h.of_nodes (by rw [copy_eq_onArena, onArena_nodes])
  write span new t h := h.of_nodes (by rw [write_eq_onArena, onArena_nodes])

theorem wellFormed_ofArena (a : Arena) : (ofArena a).WellFormed := by
  refine ⟨?_, ⟨_, rfl, rfl⟩, ?_, ?_, ?_⟩
  · intro i n h
    obtain ⟨_, rfl⟩ := ofArena_only h
    exact ⟨fun none => absurd rfl none, nofun, fun _ => ⟨rfl, rfl⟩⟩
  · intro i n h hi
    obtain ⟨rfl, _⟩ := ofArena_only h
    exact absurd hi (Nat.lt_irrefl 0)
  · intro i n c h hc
    obtain ⟨_, rfl⟩ := ofArena_only h
    exact absurd hc (Array.not_mem_empty c)
  · intro i n h
    obtain ⟨_, rfl⟩ := ofArena_only h
    exact List.Pairwise.nil

/-- No history breaks the tree of the nodes. -/
theorem Reachable.wellFormed (h : t.Reachable) : t.WellFormed := by
  refine lasting_wellFormed.reachable ?_ h
  intro capacity t created
  obtain ⟨a, _, rfl⟩ := create_inv created
  exact wellFormed_ofArena a

/-! ## Descent -/

/-- The second node is the first or is below it. -/
inductive Below (t : Tree) (top : Nat) : Nat → Prop
  | self : Below t top top
  | child {i c : Nat} {n : Node} (h : Below t top i) (found : t.nodes[i]? = some n)
      (hc : c ∈ n.children) : Below t top c

theorem Below.trans {a b c : Nat} (h : t.Below a b) (h' : t.Below b c) : t.Below a c := by
  induction h' with
  | self => exact h
  | child _ found hc ih => exact .child ih found hc

theorem Below.le (h : t.WellFormed) {a d : Nat} (hd : t.Below a d) : a ≤ d := by
  induction hd with
  | self => exact Nat.le_refl a
  | child _ found hc ih =>
    have := (h.down _ _ _ found hc).1
    omega

theorem Below.lt_size (h : t.WellFormed) {a d : Nat} (ha : a < t.size) (hd : t.Below a d) :
    d < t.size := by
  cases hd with
  | self => exact ha
  | child _ found hc =>
    obtain ⟨_, m, hm, _⟩ := h.down _ _ _ found hc
    exact Tree.lt_size hm

/-- A node below a proper ancestor is below the parent of the node, too. -/
theorem Below.parent (h : t.WellFormed) {a c i : Nat} (found : t.nodes[i]? = some n)
    (hc : c ∈ n.children) (hb : t.Below a c) : a = c ∨ t.Below a i := by
  obtain ⟨_, m, hm, hp⟩ := h.down _ _ _ found hc
  cases hb with
  | self => exact .inl rfl
  | child hb found' hc' =>
    obtain ⟨_, m', hm', hp'⟩ := h.down _ _ _ found' hc'
    rw [hm] at hm'
    cases hm'
    rw [hp] at hp'
    cases hp'
    exact .inr hb

/-- Of two nodes above a third one, one is above the other. -/
theorem Below.linear (h : t.WellFormed) {a b d : Nat} (ha : t.Below a d) (hb : t.Below b d) :
    t.Below a b ∨ t.Below b a := by
  induction ha with
  | self => exact .inr hb
  | child ha found hc ih =>
    rcases hb.parent h found hc with rfl | hb
    · exact .inl (.child ha found hc)
    · exact ih hb

/-- What is below two children of a node is apart. -/
theorem Below.disjoint (h : t.WellFormed) {i c c' d : Nat} (found : t.nodes[i]? = some n)
    (hc : c ∈ n.children) (hc' : c' ∈ n.children) (hd : t.Below c d) (hd' : t.Below c' d) :
    c = c' := by
  have apart {a b : Nat} (ha : a ∈ n.children) (hb : b ∈ n.children) (hab : t.Below a b) :
      a = b := by
    rcases hab.parent h found hb with same | above
    · exact same
    · have hle := above.le h
      have := (h.down _ _ _ found ha).1
      omega
  rcases hd.linear h hd' with hb | hb
  · exact apart hc hc' hb
  · exact (apart hc' hc hb).symm

end Tree

end SpanTree
