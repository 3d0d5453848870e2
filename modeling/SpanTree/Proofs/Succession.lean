import SpanTree.Proofs.Forest

/-!
# What later trees keep

Nothing is ever taken from a tree: nodes are only added, and children only at the end.

* `Node.Retains`, `Edit.Replaces`: a change of one node, which keeps its place in the tree;
* `Operation.Single`: what an operation on a single node comes to;
* `Tree.ContinuedBy`: what a later tree keeps of an earlier one;
* `lasting_continued`, `after_continued`: so it is at any two points of a history.
-/

namespace SpanTree

/-! ## Operations on a single node -/

/-- The same place in the tree, and the same kind unless there are no children. -/
structure Node.Retains (n n' : Node) : Prop where
  parent : n'.parent = n.parent
  children : n'.children = n.children
  kind : n.children ≠ #[] → n'.kind = n.kind

/-- A change fails and changes nothing, or it replaces one node, which retains its place. -/
def Edit.Replaces (e : Edit Unit) (id : Quantity) : Prop :=
  ∀ t, (∃ f, e t = (.error f, t)) ∨ ∃ i n n', id = .natural i ∧ t.nodes[i]? = some n ∧
    n.Retains n' ∧ e t = (.ok (), t.withNode i n')

namespace Tree

variable {t t' t'' : Tree} {i p : Nat} {n n' : Node}

theorem revise_replaces (id : Quantity) {change : Node → Except Failure Node}
    (retains : ∀ n n', change n = .ok n' → n.Retains n') : (revise id change).Replaces id := by
  intro t
  rcases revise_result id change t with failed | ⟨i, n, n', natural, found, changed, done⟩
  · exact .inl failed
  · exact .inr ⟨i, n, n', natural, found, retains n n' changed, done⟩

theorem makeContainer_replaces (wanted : Kind) (id : Quantity) (key : Slot Span) :
    (makeContainer wanted id key).Replaces id := by
  rw [makeContainer_eq_revise]
  refine revise_replaces id fun n n' changed => ?_
  split at changed
  · cases changed
  · next free =>
    cases changed
    refine ⟨rfl, rfl, fun some => ?_⟩
    exact (Decidable.not_not.1 fun other => free ⟨Array.size_pos_iff.2 some, other⟩).symm

theorem makeScalar_replaces (id : Quantity) (key value : Slot Span) :
    (makeScalar id key value).Replaces id := by
  rw [makeScalar_eq_revise]
  refine revise_replaces id fun n n' changed => ?_
  split at changed
  · cases changed
  · next free =>
    cases changed
    exact ⟨rfl, rfl, fun some => absurd (Array.size_pos_iff.2 some) free⟩

theorem flag_replaces (id : Quantity) (flags : BitVec 32) : (flag id flags).Replaces id := by
  rw [flag_eq_revise]
  refine revise_replaces id fun n n' changed => ?_
  cases changed
  exact ⟨rfl, rfl, fun _ => rfl⟩

end Tree

namespace Operation

/-- The node that an operation is on, if it is on a single one. -/
def target? : Operation → Option Quantity
  | addChild parent => some parent
  | makeMap id _ | makeSeq id _ | makeScalar id _ _ | flag id _ => some id
  | allocate _ | copy _ | write _ _ | store _ _ _ | load _ _ => none

/-- What an operation on a single node comes to: it fails and nothing is changed, or a child is
added to the node, or the node is replaced and retains its place. -/
inductive Single (id : Quantity) (t : Tree) : Operation → Except Failure Answer × Tree → Prop
  | failed (o : Operation) (f : Failure) : Single id t o (.error f, t)
  | added {i : Nat} {n : Node} (natural : id = .natural i) (found : t.nodes[i]? = some n)
      (container : n.kind.isContainer = true) :
      Single id t (.addChild id) (.ok (.node t.size), t.withChild i)
  | replaced {o : Operation} {i : Nat} {n n' : Node} (other : ∀ parent, o ≠ .addChild parent)
      (natural : id = .natural i) (found : t.nodes[i]? = some n) (retains : n.Retains n') :
      Single id t o (.ok .done, t.withNode i n')

theorem single_of_replaces (o : Operation) {e : Edit Unit} {id : Quantity}
    (replaces : e.Replaces id) (runs : o.run = (do e; return .done))
    (other : ∀ parent, o ≠ .addChild parent) (t : Tree) : Single id t o (o.run t) := by
  rw [runs]
  rcases replaces t with ⟨f, failed⟩ | ⟨i, n, n', natural, found, retains, done⟩
  · rw [Edit.bind_error failed]
    exact .failed o f
  · rw [Edit.bind_ok done]
    exact .replaced other natural found retains

theorem single {o : Operation} {id : Quantity} (target : o.target? = some id) (t : Tree) :
    Single id t o (o.run t) := by
  cases o with
  | addChild parent =>
    cases target
    rcases Tree.addChild_result id t with ⟨f, failed⟩ | ⟨i, n, natural, found, container, done⟩
    · rw [run_addChild, Edit.bind_error failed]
      exact .failed _ f
    · rw [run_addChild, Edit.bind_ok done]
      exact .added natural found container
  | makeMap id key =>
    cases target
    exact single_of_replaces (.makeMap id key) (Tree.makeContainer_replaces .map id key) rfl nofun t
  | makeSeq id key =>
    cases target
    exact single_of_replaces (.makeSeq id key) (Tree.makeContainer_replaces .seq id key) rfl nofun t
  | makeScalar id key value =>
    cases target
    exact single_of_replaces (.makeScalar id key value) (Tree.makeScalar_replaces id key value) rfl
      nofun t
  | flag id mask =>
    cases target
    exact single_of_replaces (.flag id mask) (Tree.flag_replaces id mask.toInt32) rfl nofun t
  | allocate | copy | write | store | load => cases target

end Operation

/-! ## Earlier and later trees -/

/-- What a node keeps: its parent, its children in front of any later ones, and its kind if it has
children. -/
structure Node.ContinuedBy (n n' : Node) : Prop where
  parent : n'.parent = n.parent
  children : n.children.toList <+: n'.children.toList
  kind : n.children ≠ #[] → n'.kind = n.kind

namespace Node

variable {n n' n'' : Node}

theorem ContinuedBy.refl (n : Node) : n.ContinuedBy n := ⟨rfl, List.prefix_refl _, fun _ => rfl⟩

theorem ContinuedBy.trans (first : n.ContinuedBy n') (later : n'.ContinuedBy n'') :
    n.ContinuedBy n'' where
  parent := later.parent.trans first.parent
  children := first.children.trans later.children
  kind some := by
    refine (later.kind fun none => some ?_).trans (first.kind some)
    have none' := first.children
    rw [none, List.prefix_nil] at none'
    exact Array.toList_eq_nil_iff.1 none'

theorem Retains.continuedBy (h : n.Retains n') : n.ContinuedBy n' :=
  ⟨h.parent, h.children ▸ List.prefix_refl _, h.kind⟩

theorem continuedBy_push (n : Node) (c : Nat) :
    n.ContinuedBy { n with children := n.children.push c } :=
  ⟨rfl, by rw [Array.toList_push]; exact List.prefix_append _ _, fun _ => rfl⟩

end Node

namespace Tree

variable {t t' t'' : Tree} {i : Nat} {n n' : Node}

/-- Every node is still there and keeps what nodes keep. -/
structure ContinuedBy (t t' : Tree) : Prop where
  size : t.size ≤ t'.size
  node : ∀ (i : Nat) (n : Node), t.nodes[i]? = some n →
    ∃ n', t'.nodes[i]? = some n' ∧ n.ContinuedBy n'

namespace ContinuedBy

theorem refl (t : Tree) : t.ContinuedBy t :=
  ⟨Nat.le_refl _, fun _ n found => ⟨n, found, .refl n⟩⟩

theorem trans (first : t.ContinuedBy t') (later : t'.ContinuedBy t'') : t.ContinuedBy t'' where
  size := Nat.le_trans first.size later.size
  node _ _ found := by
    obtain ⟨n', found', kept⟩ := first.node _ _ found
    obtain ⟨n'', found'', kept'⟩ := later.node _ _ found'
    exact ⟨n'', found'', kept.trans kept'⟩

theorem of_nodes (same : t'.nodes = t.nodes) : t.ContinuedBy t' where
  size := Nat.le_of_eq (congrArg Array.size same.symm)
  node _ n found := ⟨n, same ▸ found, .refl n⟩

theorem withNode (found : t.nodes[i]? = some n) (retains : n.Retains n') :
    t.ContinuedBy (t.withNode i n') where
  size := Nat.le_of_eq withNode_size.symm
  node j m found' := by
    by_cases same : j = i
    · subst same
      rw [found] at found'
      cases found'
      exact ⟨n', withNode_self (lt_size found), retains.continuedBy⟩
    · exact ⟨m, by rw [withNode_other same, found'], .refl m⟩

theorem withChild (found : t.nodes[i]? = some n) : t.ContinuedBy (t.withChild i) where
  size := by
    rw [withChild_size]
    exact Nat.le_succ _
  node j m found' := by
    by_cases same : j = i
    · subst same
      rw [found] at found'
      cases found'
      exact ⟨_, withChild_parent found, n.continuedBy_push _⟩
    · exact ⟨m, by rw [withChild_other same (lt_size found'), found'], .refl m⟩

end ContinuedBy

theorem continued_of_replaces {e : Edit Unit} {id : Quantity} (replaces : e.Replaces id) :
    e.Keeps t.ContinuedBy := by
  intro t₁ before
  rcases replaces t₁ with ⟨f, failed⟩ | ⟨i, n, n', _, found, retains, done⟩
  · rw [failed]
    exact before
  · rw [done]
    exact before.trans (.withNode found retains)

theorem continued_onArena {α : Type} (work : Arena → Except ArenaFault α × Arena) :
    (Edit.onArena work).Keeps t.ContinuedBy :=
  fun _ before => before.trans (.of_nodes (onArena_nodes work _))

/-- No change takes anything from what was there at some time. -/
theorem lasting_continued (t : Tree) : Lasting t.ContinuedBy where
  addChild parent t₁ before := by
    rcases addChild_result parent t₁ with ⟨f, failed⟩ | ⟨i, n, _, found, _, done⟩
    · rw [failed]
      exact before
    · rw [done]
      exact before.trans (.withChild found)
  makeMap id key := continued_of_replaces (makeContainer_replaces .map id key)
  makeSeq id key := continued_of_replaces (makeContainer_replaces .seq id key)
  makeScalar id key value := continued_of_replaces (makeScalar_replaces id key value)
  flag id flags := continued_of_replaces (flag_replaces id flags)
  allocate size := by
    rw [allocate_eq_onArena]
    exact continued_onArena _
  copy text := by
    rw [copy_eq_onArena]
    exact continued_onArena _
  write span bytes := by
    rw [write_eq_onArena]
    exact continued_onArena _

/-- **What was there stays there.** Of any two points of a history, every node of the earlier one is
there at the later one, with the same parent and with its children in front of any later ones; if it
has children, it is a map or a seq, and stays it. An operation on a single node that fails at such a
point changes nothing. One that succeeds never touches the arena and no node but the one that it is
on: adding a child puts one unset node at the end of all nodes and of the children of this node, and
anything else changes at most its kind, its key, its value and its flags. -/
theorem after_continued {capacity : Binary64} {start t : Tree}
    (created : create capacity = .ok start) {earlier : List Operation}
    (reached : t = start.after earlier) (later : List Operation) :
    t.size ≤ (t.after later).size ∧
    (∀ (i : Nat) (n : Node), t.nodes[i]? = some n → ∃ n', (t.after later).nodes[i]? = some n' ∧
      n'.parent = n.parent ∧ n.children.toList <+: n'.children.toList ∧
      (n.children ≠ #[] → n.kind.isContainer = true ∧ n'.kind = n.kind)) ∧
    ∀ (o : Operation) (id : Quantity), o.target? = some id → ∀ t',
      (∀ f, o.run t = (.error f, t') → t' = t) ∧
      ∀ answer, o.run t = (.ok answer, t') → t'.arena = t.arena ∧
        ∃ (i : Nat) (n n' : Node), id = .natural i ∧ t.nodes[i]? = some n ∧
          t'.nodes[i]? = some n' ∧ n'.parent = n.parent ∧
          (∀ j, j ≠ i → j < t.size → t'.nodes[j]? = t.nodes[j]?) ∧
          (o = .addChild id → answer = .node t.size ∧ t'.size = t.size + 1 ∧
            n' = { n with children := n.children.push t.size } ∧
            t'.nodes[t.size]? = some { parent := some i }) ∧
          (o ≠ .addChild id → t'.size = t.size ∧ n'.children = n.children) := by
  have formed : t.WellFormed := by
    rw [reached]
    exact lasting_wellFormed.after (Reachable.new created).wellFormed earlier
  have continued : t.ContinuedBy (t.after later) := (lasting_continued t).after (.refl t) later
  refine ⟨continued.size, ?_, ?_⟩
  · intro i n found
    obtain ⟨n', found', kept⟩ := continued.node i n found
    exact ⟨n', found', kept.parent, kept.children,
      fun some => ⟨(formed.proper i n found).parental some, kept.kind some⟩⟩
  · intro o id target t'
    have single := Operation.single target t
    constructor
    · intro f failed
      rw [failed] at single
      cases single with
      | failed => rfl
    · intro answer done
      rw [done] at single
      cases single with
      | @added i n natural found container =>
        exact ⟨rfl, i, n, _, natural, found, withChild_parent found, rfl,
          fun j other inside => withChild_other other inside,
          fun _ => ⟨rfl, withChild_size, rfl, withChild_new⟩, fun other => absurd rfl other⟩
      | @replaced _ i n n' other natural found retains =>
        exact ⟨rfl, i, n, n', natural, found, withNode_self (lt_size found), retains.parent,
          fun j other _ => withNode_other other, fun same => absurd same (other id),
          fun _ => ⟨withNode_size, retains.children⟩⟩

/-- A seq with a child, in a tree that was made for a NaN of bytes. It does not become a map, its
child becomes a scalar, and a second child is added. -/
theorem after_continued_seq : ∃ start t n', create .nan = .ok start ∧
    t = start.after [.makeSeq (.natural 0) .blank, .addChild (.natural 0)] ∧
    (t.after [.makeScalar (.natural 1) .blank .blank, .addChild (.natural 0)]).nodes[0]? = some n' ∧
    n'.kind = .seq ∧ [1] <+: n'.children.toList ∧
    ∃ f, (Operation.makeMap (.natural 0) .blank).run t = (.error f, t) := by
  have created : create .nan = .ok (ofArena (.empty 0)) := rfl
  obtain ⟨t, reached⟩ : ∃ t, t = (ofArena (.empty 0)).after
      [.makeSeq (.natural 0) .blank, .addChild (.natural 0)] := ⟨_, rfl⟩
  have found : t.nodes[0]? = some { kind := .seq, children := #[1] } := by
    rw [reached]
    rfl
  obtain ⟨f, failed⟩ : ∃ f, ((Operation.makeMap (.natural 0) .blank).run t).1 = .error f := by
    rw [reached]
    exact ⟨_, rfl⟩
  obtain ⟨_, nodes, single⟩ := after_continued created reached
    [.makeScalar (.natural 1) .blank .blank, .addChild (.natural 0)]
  obtain ⟨n', found', _, children, kept⟩ := nodes 0 _ found
  have unchanged := (single (.makeMap (.natural 0) .blank) _ rfl _).1 f (Prod.ext failed rfl)
  exact ⟨_, t, n', created, reached, found', (kept (by decide)).2, children, f,
    Prod.ext failed unchanged⟩

end Tree

end SpanTree
