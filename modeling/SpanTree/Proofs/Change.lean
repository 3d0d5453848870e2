import SpanTree.Tree.Edit
import SpanTree.Proofs.Storage

/-!
# What each change of a tree does

The changes of a tree are opened here once; elsewhere only what is stated here is used.

* `Edit.bind_ok`, `Edit.bind_error`, `Edit.bind_inv`: one change after another;
* `Edit.Keeps`: a property of trees that a change keeps, whether or not it succeeds;
* `Tree.withNode`, `Tree.withChild`: a tree with another node at an id, and with one more node;
* `addChild_eq`, `makeContainer_eq`, `makeScalar_eq`, `flag_eq`: what a change does where nothing
  speaks against it;
* `revise_result`, `addChild_result`: what comes of a change of a node and of a new child;
* `copy_cases`: what a copy does.
-/

namespace SpanTree

namespace Edit

variable {α β : Type} {e : Edit α} {f : α → Edit β} {t t' : Tree}

/-- A change that ends well has parts that end well. -/
theorem bind_inv {b : β} (h : (e >>= f) t = (.ok b, t')) :
    ∃ a t₁, e t = (.ok a, t₁) ∧ f a t₁ = (.ok b, t') := by
  cases he : e t with | mk r t₁ =>
  cases r with
  | ok a =>
    rw [bind_ok he] at h
    exact ⟨a, t₁, rfl, h⟩
  | error x =>
    rw [bind_error he] at h
    cases h

def onArena (work : Arena → Except ArenaFault α × Arena) : Edit α := fun t =>
  match work t.arena with
  | (.ok a, arena) => (.ok a, { t with arena })
  | (.error fault, arena) => (.error (.arena fault), { t with arena })

theorem onArenaM_eq (work : Arena → Except ArenaFault α × Arena) :
    (Tree.onArenaM work : Edit α) = onArena work := by
  funext t
  have worked :
      (modifyGet fun t : Tree => ((work t.arena).1, { t with arena := (work t.arena).2 }) :
        Edit (Except ArenaFault α)) t =
      (.ok (work t.arena).1, { t with arena := (work t.arena).2 }) := rfl
  refine (bind_ok worked).trans ?_
  rw [onArena]
  cases work t.arena with | mk result arena =>
  cases result <;> rfl

/-- A change leads from a tree with a property to a tree with it, whether or not it succeeds. -/
def Keeps (P : Tree → Prop) (e : Edit α) : Prop := ∀ t, P t → P (e t).2

variable {P : Tree → Prop}

theorem keeps_pure (a : α) : Keeps P (pure a : Edit α) := fun _ h => h

theorem keeps_ask (query : Tree → Except Failure α) : Keeps P (ask query) := fun _ h => h

theorem keeps_fail (x : Failure) : Keeps P (fail x : Edit α) := fun _ h => h

theorem Keeps.bind (he : Keeps P e) (hf : ∀ a, Keeps P (f a)) : Keeps P (e >>= f) := by
  intro t h
  have hp := he t h
  cases hr : e t with | mk r t' =>
  rw [hr] at hp
  cases r with
  | ok a => rw [bind_ok hr]; exact hf a t' hp
  | error x => rw [bind_error hr]; exact hp

end Edit

namespace Tree

theorem allocate_eq_onArena (size : Quantity) :
    allocate size = Edit.onArena (Arena.allocate size) :=
  Edit.onArenaM_eq (Arena.allocate size)

theorem copy_eq_onArena (text : Text) : copy text = Edit.onArena (Arena.copy text) :=
  Edit.onArenaM_eq (Arena.copy text)

theorem write_eq_onArena (span : Span) (bytes : List UInt8) :
    write span bytes = Edit.onArena (Arena.write span bytes) :=
  Edit.onArenaM_eq (Arena.write span bytes)

/-- Replaces a node by what a function makes of it, unless that fails. -/
def revise (id : Quantity) (change : Node → Except Failure Node) : Edit Unit := fun t =>
  match id with
  | .irregular _ => (.error (.unknownNode id t.size), t)
  | .natural n =>
    match t.nodes[n]? with
    | none => (.error (.unknownNode id t.size), t)
    | some node =>
      match change node with
      | .error f => (.error f, t)
      | .ok node => (.ok (), { t with nodes := t.nodes.setIfInBounds n node })

def withNode (t : Tree) (id : Nat) (n : Node) : Tree :=
  { t with nodes := t.nodes.setIfInBounds id n }

/-- The tree with one more node, below a parent. -/
def withChild (t : Tree) (parent : Nat) : Tree :=
  { t with
    nodes := (t.nodes.modify parent fun n => { n with children := n.children.push t.size }).push
      { parent := some parent } }

variable {t : Tree} {id j : Nat} {n : Node}

theorem lt_size (h : t.nodes[id]? = some n) : id < t.size :=
  (Array.getElem?_eq_some_iff.1 h).1

theorem exists_node (h : id < t.size) : ∃ n, t.nodes[id]? = some n :=
  ⟨t.nodes[id], Array.getElem?_eq_getElem h⟩

@[simp] theorem withNode_arena : (t.withNode id n).arena = t.arena := rfl

@[simp] theorem withNode_size : (t.withNode id n).size = t.size := Array.size_setIfInBounds

theorem withNode_self (h : id < t.size) : (t.withNode id n).nodes[id]? = some n := by
  simp only [withNode, Array.getElem?_setIfInBounds_self]
  exact if_pos h

theorem withNode_other (h : j ≠ id) : (t.withNode id n).nodes[j]? = t.nodes[j]? :=
  Array.getElem?_setIfInBounds_ne (Ne.symm h)

@[simp] theorem withChild_size : (t.withChild id).size = t.size + 1 := by
  simp [withChild, size]

theorem withChild_new : (t.withChild id).nodes[t.size]? = some { parent := some id } := by
  simp only [withChild, size]
  rw [Array.getElem?_push, if_pos Array.size_modify.symm]

theorem withChild_parent (h : t.nodes[id]? = some n) :
    (t.withChild id).nodes[id]? = some { n with children := n.children.push t.size } := by
  have hlt : id < t.nodes.size := lt_size h
  simp only [withChild]
  rw [Array.getElem?_push, if_neg (by rw [Array.size_modify]; omega), Array.getElem?_modify,
    if_pos rfl, h]
  rfl

theorem withChild_other (h : j ≠ id) (hj : j < t.size) :
    (t.withChild id).nodes[j]? = t.nodes[j]? := by
  have hlt : j < t.nodes.size := hj
  simp only [withChild]
  rw [Array.getElem?_push, if_neg (by rw [Array.size_modify]; omega), Array.getElem?_modify,
    if_neg (Ne.symm h)]

/-- A new tree has one node, which is unset. -/
theorem ofArena_only {a : Arena} (h : (ofArena a).nodes[id]? = some n) : id = 0 ∧ n = {} := by
  have hlt : id < 1 := lt_size h
  obtain rfl : id = 0 := by omega
  exact ⟨rfl, (Option.some.inj h).symm⟩

theorem node_natural (h : t.nodes[id]? = some n) : t.node (.natural id) = .ok n := by
  rw [node_def, node?, h]

theorem node_none {id : Quantity} (h : t.node? id = none) :
    t.node id = .error (.unknownNode id t.size) := by
  rw [node_def, h]

theorem key_natural (h : t.nodes[id]? = some n) : t.key (.natural id) = .ok n.key := by
  rw [key_def, node_natural h]
  rfl

theorem keyText_known {span : Span} (h : t.nodes[id]? = some n) (known : n.key = .known span) :
    t.keyText (.natural id) = t.text span := by
  rw [keyText_def, key_natural h, known]
  exact slotText_known t (.noKey (.natural id)) span

theorem ask_key (h : t.nodes[id]? = some n) :
    Edit.ask (·.key (.natural id)) t = (.ok n.key, t) := Edit.ask_ok (key_natural h)

theorem node?_natural {node : Quantity} (h : t.node? node = some n) :
    ∃ id, node = .natural id ∧ t.nodes[id]? = some n := by
  cases node with
  | natural id => exact ⟨id, rfl, h⟩
  | irregular x => cases h

theorem ask_key_none {node : Quantity} (h : t.node? node = none) :
    Edit.ask (·.key node) t = (.error (.unknownNode node t.size), t) := by
  rw [Edit.ask, key_def, node_none h]
  rfl

theorem ask_size (t : Tree) : Edit.ask (fun t => .ok t.size) t = (.ok t.size, t) := rfl

theorem revise_eq {change : Node → Except Failure Node} {n' : Node}
    (h : t.nodes[id]? = some n) (hc : change n = .ok n') :
    revise (.natural id) change t = (.ok (), t.withNode id n') := by
  simp only [revise, h, hc]
  rfl

theorem revise_error {change : Node → Except Failure Node} {f : Failure}
    (h : t.nodes[id]? = some n) (hc : change n = .error f) :
    revise (.natural id) change t = (.error f, t) := by
  simp only [revise, h, hc]

/-- A change of one node fails and leaves the tree as it is, or puts another node in its place. -/
theorem revise_result (id : Quantity) (change : Node → Except Failure Node) (t : Tree) :
    (∃ f, revise id change t = (.error f, t)) ∨
      ∃ i n n', id = .natural i ∧ t.nodes[i]? = some n ∧ change n = .ok n' ∧
        revise id change t = (.ok (), t.withNode i n') := by
  cases id with
  | irregular x => exact .inl ⟨_, rfl⟩
  | natural i =>
    cases found : t.nodes[i]? with
    | none =>
      refine .inl ⟨.unknownNode (.natural i) t.size, ?_⟩
      simp only [revise, found]
    | some n =>
      cases changed : change n with
      | error f => exact .inl ⟨f, revise_error found changed⟩
      | ok n' => exact .inr ⟨i, n, n', rfl, found, changed, revise_eq found changed⟩

theorem updated_eq (change : Node → Node) (h : t.nodes[id]? = some n) :
    t.updated (.natural id) change = t.withNode id (change n) := by
  rw [updated, withNode]
  congr 1
  apply Array.ext_getElem?
  intro i
  rw [Array.getElem?_modify, Array.getElem?_setIfInBounds]
  split
  · next same =>
    subst same
    rw [h, if_pos (show id < t.nodes.size from lt_size h)]
    rfl
  · rfl

/-- The node is looked up, then checked, and then replaced. -/
theorem guarded_eq_revise (id : Quantity) (bad : Node → Prop) [DecidablePred bad]
    (f : Node → Failure) (change : Node → Node) :
    (do
      let n ← askM (·.nodeM id)
      if bad n then Failing.fail (f n)
      modify (updated id change) : Edit Unit) =
      revise id fun n => if bad n then .error (f n) else .ok (change n) := by
  funext t
  rw [askM_nodeM]
  cases id with
  | irregular x => exact Edit.bind_error (Edit.fail_at _ t)
  | natural i =>
    cases found : t.nodes[i]? with
    | none =>
      have none : t.node? (.natural i) = none := found
      rw [Edit.bind_error (Edit.ask_error (node_none none)), revise, found]
    | some n =>
      rw [Edit.bind_ok (Edit.ask_ok (node_natural found)), revise, found]
      by_cases refused : bad n
      · simp only [if_pos refused]
        exact Edit.bind_error (Edit.fail_at _ t)
      · simp only [if_neg refused]
        exact Prod.ext rfl (updated_eq change found)

theorem makeContainer_eq_revise (wanted : Kind) (id : Quantity) (key : Slot Span) :
    makeContainer wanted id key = revise id fun n =>
      if n.children.size > 0 ∧ n.kind ≠ wanted then
        .error (.populated id wanted n.children.size n.kind)
      else .ok (n.reassigned wanted key.orBlank .blank) :=
  guarded_eq_revise id (fun n => n.children.size > 0 ∧ n.kind ≠ wanted) _ _

theorem makeScalar_eq_revise (id : Quantity) (key value : Slot Span) :
    makeScalar id key value = revise id fun n =>
      if n.children.size > 0 then .error (.populatedScalar id n.children.size)
      else .ok (n.reassigned .scalar key value) :=
  guarded_eq_revise id (fun n => n.children.size > 0) _ _

theorem flag_eq_revise (id : Quantity) (flags : BitVec 32) :
    flag id flags = revise id fun n => .ok { n with flags := n.flags ||| flags } := by
  refine (guarded_eq_revise id (fun _ => False) (fun _ => .missingValue) _).trans ?_
  simp only [if_false]

theorem addChild_eq (h : t.nodes[id]? = some n) (hk : n.kind.isContainer = true) :
    addChild (.natural id) t = (.ok t.size, t.withChild id) := by
  have kind : t.kind (.natural id) = .ok n.kind := by
    rw [kind_def, node_natural h]
    rfl
  rw [addChild_eq_bind, Edit.bind_ok (Edit.ask_ok kind)]
  simp only [hk]
  rfl

theorem addChild_none {parent : Quantity} (h : t.node? parent = none) :
    addChild parent t = (.error (.unknownNode parent t.size), t) := by
  have kind : t.kind parent = .error (.unknownNode parent t.size) := by
    rw [kind_def, node_none h]
    rfl
  rw [addChild_eq_bind]
  exact Edit.bind_error (Edit.ask_error kind)

/-- Only containers get children. -/
theorem addChild_error (h : t.nodes[id]? = some n) (hk : ¬ n.kind.isContainer = true) :
    addChild (.natural id) t = (.error (.notContainer (.natural id) n.kind), t) := by
  have kind : t.kind (.natural id) = .ok n.kind := by
    rw [kind_def, node_natural h]
    rfl
  rw [addChild_eq_bind, Edit.bind_ok (Edit.ask_ok kind)]
  simp only [hk]
  rfl

/-- A child is added to a container, or nothing is changed. -/
theorem addChild_result (parent : Quantity) (t : Tree) :
    (∃ f, addChild parent t = (.error f, t)) ∨ ∃ i n, parent = .natural i ∧
      t.nodes[i]? = some n ∧ n.kind.isContainer = true ∧
      addChild parent t = (.ok t.size, t.withChild i) := by
  cases found : t.node? parent with
  | none => exact .inl ⟨_, addChild_none found⟩
  | some n =>
    obtain ⟨i, rfl, found⟩ := node?_natural found
    by_cases container : n.kind.isContainer = true
    · exact .inr ⟨i, n, rfl, found, container, addChild_eq found container⟩
    · exact .inl ⟨_, addChild_error found container⟩

/-- A node that has no children, or is a container of the wanted kind already, becomes one. -/
theorem makeContainer_eq {wanted : Kind} (key : Slot Span) (h : t.nodes[id]? = some n)
    (free : n.children = #[] ∨ n.kind = wanted) :
    makeContainer wanted (.natural id) key t =
      (.ok (), t.withNode id (n.reassigned wanted key.orBlank .blank)) := by
  rw [makeContainer_eq_revise]
  apply revise_eq h
  apply if_neg
  rintro ⟨hsize, hkind⟩
  rcases free with hc | hc
  · rw [hc] at hsize
    exact absurd hsize (by decide)
  · exact hkind hc

/-- A node with children does not become a container of another kind. -/
theorem makeContainer_error {wanted : Kind} (key : Slot Span) (h : t.nodes[id]? = some n)
    (some : n.children ≠ #[]) (other : n.kind ≠ wanted) :
    makeContainer wanted (.natural id) key t =
      (.error (.populated (.natural id) wanted n.children.size n.kind), t) := by
  rw [makeContainer_eq_revise]
  exact revise_error h (if_pos ⟨Array.size_pos_iff.2 some, other⟩)

theorem makeScalar_error (key value : Slot Span) (h : t.nodes[id]? = some n)
    (some : n.children ≠ #[]) :
    makeScalar (.natural id) key value t =
      (.error (.populatedScalar (.natural id) n.children.size), t) := by
  rw [makeScalar_eq_revise]
  exact revise_error h (if_pos (Array.size_pos_iff.2 some))

theorem makeScalar_eq (key value : Slot Span) (h : t.nodes[id]? = some n)
    (free : n.children = #[]) :
    makeScalar (.natural id) key value t =
      (.ok (), t.withNode id (n.reassigned .scalar key value)) := by
  rw [makeScalar_eq_revise]
  apply revise_eq h
  apply if_neg
  rw [free]
  decide

theorem flag_eq (flags : BitVec 32) (h : t.nodes[id]? = some n) :
    flag (.natural id) flags t = (.ok (), t.withNode id { n with flags := n.flags ||| flags }) := by
  rw [flag_eq_revise]
  exact revise_eq h rfl

/-- A copy touches no node. It succeeds, or it gets stuck without a buffer. -/
theorem copy_cases (text : Text) (t : Tree) :
    (t.arena.capacity = 0 ∧ copy text t = (.error (.arena .stuck), t)) ∨
      ∃ arena span, copy text t = (.ok span, { t with arena }) ∧
        arena.bytes = t.arena.bytes ++ Utf8.encode text ∧ t.arena.capacity ≤ arena.capacity ∧
        arena.Spells (.known span) text := by
  rcases Arena.copy_cases text t.arena with ⟨empty, stuck⟩ | ⟨arena, copied, bytes, more⟩
  · exact .inl ⟨empty, by simp only [copy_eq_onArena, Edit.onArena, stuck]⟩
  · refine .inr ⟨arena, _, ?_, bytes, more, Arena.spells_of_copy bytes⟩
    simp only [copy_eq_onArena, Edit.onArena, copied]

end Tree

end SpanTree
