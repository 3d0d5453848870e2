import SpanTree.Proofs.Offspring
import SpanTree.Proofs.Preorder
import SpanTree.Proofs.Storing

/-!
# Where a stored value lies

A stored value adds its nodes at the end of the table and its texts at the end of the arena, at
places that follow from the value and from the two sizes alone.

* `Tree.Gains`: new nodes at the end of the table, as the last children of a node;
* `put_nodes`: the node of one value, and those of its parts before they are written;
* `Settles`, `settles`: all nodes of a value, as `Source.offspring` lists them;
* `Numbers`, `numbers`: the children that are met in pre-order are then numbered through;
* `store_numbered`: so the nodes, spans and bytes of a stored value are known.
-/

namespace SpanTree

/-- A child that has a key and nothing else yet. -/
def Node.labelled (parent : Nat) (span : Span) : Node :=
  { kind := .scalar, key := .known span, parent := some parent }

/-- The nodes of the parts of a value before the parts are written, if their keys begin at a
place. -/
def Source.sprouts (parent place : Nat) : Source → List Node
  | .table members _ => (Span.ofTexts place (members.map (·.1))).map (.labelled parent)
  | .array items _ => items.map fun _ => { parent := some parent }
  | _ => []

theorem Source.map_key_sprouts (value : Source) (parent place : Nat) :
    (value.sprouts parent place).map (·.key) = value.partKeys place := by
  cases value <;> simp [sprouts, partKeys, Node.labelled, Function.comp_def]

theorem Source.length_sprouts (value : Source) (parent place : Nat) :
    (value.sprouts parent place).length = value.parts.length := by
  rw [← length_partKeys value place, ← map_key_sprouts value parent, List.length_map]

theorem Source.mem_sprouts {value : Source} {parent place : Nat} {c : Node}
    (hc : c ∈ value.sprouts parent place) :
    c.parent = some parent ∧ c.children = #[] ∧ c.key ≠ .missing := by
  cases value with
  | table members ending =>
    obtain ⟨span, _, rfl⟩ := List.mem_map.1 hc
    exact ⟨rfl, rfl, by rintro ⟨⟩⟩
  | array items ending =>
    obtain ⟨item, _, rfl⟩ := List.mem_map.1 hc
    exact ⟨rfl, rfl, by rintro ⟨⟩⟩
  | scalar | unsupported | unknown | absent => cases hc

namespace Tree

variable {t t' t'' : Tree} {id first : Nat} {n : Node} {limit : Quantity}

theorem length_nodes (t : Tree) : t.nodes.toList.length = t.size := rfl

theorem nodes_withNode (t : Tree) (id : Nat) (n : Node) :
    (t.withNode id n).nodes.toList = t.nodes.toList.set id n := Array.toList_setIfInBounds

/-! ## New children -/

/-- New nodes are at the end of the table, as the last children of node `id`, which was `n`. No
other node was touched. -/
def Gains (t : Tree) (id : Nat) (n : Node) (new : List Node) (t' : Tree) : Prop :=
  t'.nodes.toList = t.nodes.toList.set id
    { n with children := n.children ++ (List.range' t.size new.length).toArray } ++ new

theorem Gains.nil (found : t.nodes[id]? = some n) : t.Gains id n [] t := by
  obtain ⟨inside, rfl⟩ := Array.getElem?_eq_some_iff.1 found
  have kept : t.nodes.toList.set id t.nodes[id] = t.nodes.toList :=
    @List.set_getElem_self _ t.nodes.toList _ inside
  simp [Gains, kept]

theorem Gains.size_eq {new : List Node} (h : t.Gains id n new t') :
    t'.size = t.size + new.length := by
  rw [← length_nodes, h, List.length_append, List.length_set, length_nodes]

theorem Gains.cons {c : Node} {new : List Node} (existing : id < t.size)
    (now : t.Gains id n [c] t')
    (later : t'.Gains id { n with children := n.children.push t.size } new t'') :
    t.Gains id n (c :: new) t'' := by
  have inside : id < (t.nodes.toList.set id
      { n with children := n.children ++ (List.range' t.size 1).toArray }).length := by
    rw [List.length_set]
    exact existing
  have numbered : n.children.push t.size ++ (List.range' (t.size + 1) new.length).toArray =
      n.children ++ (List.range' t.size (new.length + 1)).toArray := by
    apply Array.ext'
    simp [List.range'_succ]
  rw [Gains, later, now.size_eq, now, List.length_singleton, List.set_append_left _ _ inside,
    List.set_set, List.append_assoc, numbered]
  rfl

theorem gains_withChild (found : t.nodes[id]? = some n) :
    t.Gains id n [{ parent := some id }] (t.withChild id) := by
  rw [← Array.getElem?_toList] at found
  simp [Gains, withChild, List.modify_eq_set_getElem?, found]

/-- A new child may be replaced. -/
theorem Gains.replace {c c' : Node} (h : t.Gains id n [c] t') :
    t.Gains id n [c'] (t'.withNode t.size c') := by
  have last : (t.nodes.toList.set id
      { n with children := n.children ++ (List.range' t.size 1).toArray }).length ≤ t.size :=
    Nat.le_of_eq List.length_set
  rw [Gains, nodes_withNode, h, List.length_singleton, List.set_append_right _ _ last,
    List.length_set, length_nodes, Nat.sub_self]
  rfl

theorem addItems_gains {items : List Source} (found : t.nodes[id]? = some n)
    (container : n.kind.isContainer = true)
    (added : addItems (.natural id) items.length t = (.ok (), t')) :
    t.Gains id n (items.map fun _ => { parent := some id }) t' := by
  induction items generalizing t n with
  | nil =>
    cases added
    exact .nil found
  | cons item rest ih =>
    rw [List.length_cons, addItems_succ, Edit.bind_ok (addChild_eq found container)] at added
    exact (gains_withChild found).cons (lt_size found) (ih (withChild_parent found) container added)

theorem copy_ofText {text : Text} {span : Span} (copied : copy text t = (.ok span, t')) :
    span = .ofText t.arena.size text ∧ t'.nodes = t.nodes ∧
      t'.arena.size = t.arena.size + (Utf8.encode text).length := by
  have size := (copy_appends text t span t' copied).size_eq
  rcases Arena.copy_cases text t.arena with ⟨_, stuck⟩ | ⟨arena, done, _⟩
  · simp only [copy_eq_onArena, Edit.onArena, stuck] at copied
    cases copied
  · simp only [copy_eq_onArena, Edit.onArena, done] at copied
    cases copied
    exact ⟨rfl, rfl, size⟩

theorem addMembers_gains {keys : List Text} (found : t.nodes[id]? = some n)
    (container : n.kind.isContainer = true)
    (added : addMembers (.natural id) keys t = (.ok (), t')) :
    t.Gains id n ((Span.ofTexts t.arena.size keys).map (.labelled id)) t' := by
  induction keys generalizing t n with
  | nil =>
    cases added
    exact .nil found
  | cons key rest ih =>
    rw [addMembers_cons, Edit.bind_ok (addChild_eq found container)] at added
    obtain ⟨span, t₁, copied, added⟩ := Edit.bind_inv added
    obtain ⟨rfl, nodes, size⟩ := copy_ofText copied
    have existing := lt_size found
    have here : t₁.nodes[id]? = some { n with children := n.children.push t.size } := by
      rw [nodes]
      exact withChild_parent found
    have fresh : t₁.nodes[t.size]? = some { parent := some id } := by
      rw [nodes]
      exact withChild_new
    have now : t.Gains id n [{ parent := some id }] t₁ := by
      rw [Gains, nodes]
      exact gains_withChild found
    rw [Edit.bind_ok (makeScalar_eq _ _ fresh rfl)] at added
    rw [← withNode_other (Nat.ne_of_lt existing)] at here
    have later := ih here container added
    rw [withNode_arena, size] at later
    exact now.replace.cons existing later

/-! ## One value -/

/-- A container has its node and those of its parts. -/
theorem container_nodes {wanted : Kind} {ending : Ending} {add : Edit Unit} {new : List Node}
    (container : wanted.isContainer = true) (found : t.nodes[id]? = some n)
    (free : n.children = #[])
    (adds : ∀ {s s' : Tree} {m : Node}, s.nodes[id]? = some m → m.kind.isContainer = true →
      s.arena = t.arena → add s = (.ok (), s') → s.Gains id m new s')
    (wrote : (do
      makeContainer wanted (.natural id) (← Edit.ask (·.key (.natural id)))
      let first ← Edit.ask fun t => .ok t.size
      add
      finish ending
      return first : Edit Nat) t = (.ok first, t')) :
    first = t.size ∧ t'.nodes.toList = t.nodes.toList.set id
      { n.reassigned wanted n.key.orBlank .blank with
        children := (List.range' t.size new.length).toArray } ++ new := by
  rw [Edit.bind_ok (ask_key found), Edit.bind_ok (makeContainer_eq n.key found (.inl free)),
    Edit.bind_ok (ask_size _)] at wrote
  obtain ⟨_, t₁, added, wrote⟩ := Edit.bind_inv wrote
  obtain ⟨_, t₂, finished, wrote⟩ := Edit.bind_inv wrote
  have gains := adds (withNode_self (lt_size found)) container rfl added
  cases ending with
  | broken error => cases finished
  | complete =>
    cases finished
    cases wrote
    rw [Gains, nodes_withNode, List.set_set, withNode_size] at gains
    refine ⟨withNode_size, gains.trans ?_⟩
    simp [Node.reassigned, free]

/-- The node of a scalar has its text at the end of the arena. -/
theorem putScalar_nodes {value : Scalar} (found : t.nodes[id]? = some n) (free : n.children = #[])
    (stored : putScalar (.natural id) value t = (.ok (), t')) :
    t'.nodes.toList = t.nodes.toList.set id
      ((Source.scalar value).record n.parent n.key t.size t.arena.size) := by
  have record {flags : BitVec 32} (h : flags = (Source.scalar value).flags) :
      { n.reassigned .scalar n.key (.known (.ofText t.arena.size value.text)) with flags } =
        (Source.scalar value).record n.parent n.key t.size t.arena.size := by
    rw [h, Node.reassigned, free]
    rfl
  rw [putScalar_def] at stored
  obtain ⟨span, t₁, copied, stored⟩ := Edit.bind_inv stored
  obtain ⟨rfl, nodes, _⟩ := copy_ofText copied
  rw [← nodes] at found ⊢
  rw [Edit.bind_ok (ask_key found), Edit.bind_ok (makeScalar_eq _ _ found free)] at stored
  by_cases quoted : value.isQuoted = true
  · rw [if_pos quoted, flag_eq _ (withNode_self (lt_size found))] at stored
    cases stored
    rw [nodes_withNode, nodes_withNode, List.set_set, record]
    -- The flags were cleared before the one for quotes was set.
    rw [Source.flags, if_pos quoted]
    exact BitVec.zero_or
  · rw [if_neg quoted] at stored
    cases stored
    rw [nodes_withNode, ← record (Eq.refl _), Source.flags, if_neg quoted]
    rfl

/-- **The nodes of one value.** Its own node is another one, and the nodes of its parts are new. -/
theorem put_nodes {value : Source} (found : t.nodes[id]? = some n) (free : n.children = #[])
    (wrote : put (.natural id) value t = (.ok first, t')) :
    (value.parts ≠ [] → first = t.size) ∧ t'.nodes.toList = t.nodes.toList.set id
      (value.record n.parent (value.keptKey n.key) t.size t.arena.size) ++
        value.sprouts id t.arena.size := by
  cases value with
  | table members ending =>
    rw [put_table] at wrote
    obtain ⟨first, nodes⟩ := container_nodes rfl found free
      (fun here container arena added => arena ▸ addMembers_gains here container added) wrote
    refine ⟨fun _ => first, nodes.trans ?_⟩
    have length := (Source.table members ending).length_sprouts id t.arena.size
    rw [Source.sprouts] at length
    rw [length]
    rfl
  | array items ending =>
    rw [put_array] at wrote
    obtain ⟨first, nodes⟩ := container_nodes rfl found free
      (fun here container _ added => addItems_gains here container added) wrote
    refine ⟨fun _ => first, nodes.trans ?_⟩
    rw [List.length_map]
    rfl
  | scalar value =>
    refine ⟨fun some => absurd rfl some, ?_⟩
    obtain ⟨_, t₁, stored, done⟩ := Edit.bind_inv wrote
    cases done
    exact (putScalar_nodes found free stored).trans (List.append_nil _).symm
  | unsupported | unknown | absent => cases wrote

/-! ## All values -/

theorem plant_appends (limit : Quantity) (value : Source) (node : Quantity) (depth : Nat) :
    Edit.Appends (plant limit value node depth) value.footprint := by
  have whole := writeAll_appends limit [⟨value, node, depth⟩]
  rwa [writeAll_eq_plant, List.map_singleton, Source.itemsFootprint, Source.itemsFootprint,
    List.append_nil] at whole

/-- Wherever a value is written, its own node is another one, and the nodes below it are listed by
the recursion over the value, after all nodes that were there. -/
def Settles (limit : Quantity) (value : Source) : Prop :=
  ∀ {t t' : Tree} {id depth : Nat} {n : Node}, t.nodes[id]? = some n → n.children = #[] →
    plant limit value (.natural id) depth t = (.ok (), t') →
      t'.nodes.toList = t.nodes.toList.set id
        (value.record n.parent (value.keptKey n.key) t.size t.arena.size) ++
          value.offspring id t.size t.arena.size

/-- The nodes of values that are siblings are replaced one after another, and what is below them
comes last. -/
theorem plantItems_nodes {values : List Source} (each : ∀ value ∈ values, Settles limit value)
    {parent depth : Nat} {before new after : List Node} (length : new.length = values.length)
    (fresh : ∀ c ∈ new, c.parent = some parent ∧ c.children = #[] ∧ c.key ≠ .missing)
    (here : values ≠ [] → first = before.length) (nodes : t.nodes.toList = before ++ new ++ after)
    (planted : plantItems limit values first depth t = (.ok (), t')) :
    t'.nodes.toList =
      before ++ Source.block parent (new.map (·.key)) values t.size t.arena.size ++ after ++
        Source.itemsOffspring values first t.size t.arena.size := by
  induction values generalizing t first before new after with
  | nil =>
    cases planted
    rw [nodes, List.eq_nil_of_length_eq_zero length]
    exact (List.append_nil _).symm
  | cons value rest ih =>
    obtain ⟨c, new, rfl⟩ := List.exists_cons_of_length_eq_add_one length
    obtain ⟨settles, others⟩ := List.forall_mem_cons.1 each
    obtain ⟨⟨below, childless, key⟩, fresh⟩ := List.forall_mem_cons.1 fresh
    have here := here (List.cons_ne_nil _ _)
    subst here
    obtain ⟨_, t₁, done, planted⟩ := Edit.bind_inv planted
    have found : t.nodes[before.length]? = some c := by
      rw [← Array.getElem?_toList, nodes]
      simp
    have first := settles found childless done
    have size : t₁.size = t.size + (value.count - 1) := by
      rw [← length_nodes, first, List.length_append, List.length_set, length_nodes,
        Source.length_offspring]
    have nodes₁ : t₁.nodes.toList =
        (before ++ [value.record (some parent) c.key t.size t.arena.size]) ++ new ++
          (after ++ value.offspring before.length t.size t.arena.size) := by
      rw [first, nodes, below, Source.keptKey_eq key]
      simp
    have later := ih others (Nat.succ.inj length) fresh (fun _ => by simp) nodes₁ planted
    rw [size, (plant_appends _ _ _ _ t () t₁ done).size_eq] at later
    rw [later, List.map_cons, Source.block, Source.itemsOffspring]
    simp

/-- **The nodes of a value.** -/
theorem settles (limit : Quantity) (value : Source) : Settles limit value := by
  induction value using Source.descend with
  | parts value ih =>
    intro t t' id depth n found free planted
    rw [plant_eq] at planted
    obtain ⟨_, t₁, entered, planted⟩ := Edit.bind_inv planted
    obtain ⟨first, t₂, wrote, later⟩ := Edit.bind_inv planted
    rw [enter_ok entered] at wrote
    obtain ⟨here, nodes⟩ := put_nodes found free wrote
    have size : t₂.size = t.size + value.parts.length := by
      rw [← length_nodes, nodes, List.length_append, List.length_set, length_nodes,
        Source.length_sprouts]
    have room := (put_appends _ _ t first t₂ wrote).size_eq
    have all := plantItems_nodes ih (value.length_sprouts id t.arena.size)
      (fun c hc => Source.mem_sprouts hc) (fun some => by rw [here some, List.length_set]; rfl)
      (nodes.trans (List.append_nil _).symm) later
    rw [List.append_nil, Source.map_key_sprouts, size, room] at all
    rw [all, Source.offspring_eq, List.append_assoc]
    by_cases none : value.parts = []
    · simp only [none, Source.itemsOffspring]
    · rw [here none]

/-! ## Ids in pre-order -/

/-- The children of a node, none where there is no such node. -/
def childIds (t : Tree) (id : Nat) : List Nat := t.nodes[id]?.elim [] (·.children.toList)

theorem childIds_eq (found : t.nodes[id]? = some n) : t.childIds id = n.children.toList := by
  rw [childIds, found]
  rfl

/-- Where the nodes below a node are those of a value, with ids from `next` on, the children that
are met in pre-order are numbered through. -/
def Numbers (t : Tree) (value : Source) : Prop :=
  ∀ {id next place : Nat} {before after : List Node}, id < t.size →
    t.childIds id = List.range' next value.parts.length → next = before.length →
    t.nodes.toList = before ++ value.offspring id next place ++ after →
      (t.preorder id).flatMap t.childIds = List.range' next (value.offspring id next place).length

/-- The nodes of values that are siblings come first, and then, value by value, what is below
them. -/
theorem flatMap_siblings {values : List Source} (each : ∀ value ∈ values, t.Numbers value)
    {keys : List (Slot Span)} (length : keys.length = values.length) {parent next place : Nat}
    {before between after : List Node} (here : first = before.length)
    (there : next =
      (before ++ Source.block parent keys values next place ++ between).length)
    (nodes : t.nodes.toList = before ++ Source.block parent keys values next place ++ between ++
      Source.itemsOffspring values first next place ++ after) :
    (List.range' first values.length).flatMap (fun c => (t.preorder c).flatMap t.childIds) =
      List.range' next (Source.itemsOffspring values first next place).length := by
  induction values generalizing keys first next place before between with
  | nil => rfl
  | cons value rest ih =>
    obtain ⟨key, keys, rfl⟩ := List.exists_cons_of_length_eq_add_one length
    obtain ⟨numbers, others⟩ := List.forall_mem_cons.1 each
    rw [Source.block] at nodes there
    rw [Source.itemsOffspring] at nodes ⊢
    let record := value.record (some parent) key next place
    have found : t.nodes[first]? = some record := by
      rw [← Array.getElem?_toList, nodes, here]
      simp [record]
    have later : first + 1 = (before ++ [record]).length := by simp [here]
    have length₁ := Nat.succ.inj length
    have there₁ : next + (value.count - 1) = (before ++ [record] ++
        Source.block parent keys rest (next + (value.count - 1)) (place + value.footprint.length) ++
        (between ++ value.offspring first next place)).length := by
      simp only [List.length_append, List.length_cons, List.length_nil,
        Source.length_block _ length₁, Source.length_offspring] at there ⊢
      omega
    have head := numbers (lt_size found) (childIds_eq found) there
      (nodes.trans (by simp only [List.append_assoc]; rfl))
    have tail := ih others length₁ later there₁ (nodes.trans (by simp [record]))
    rw [List.length_cons, List.range'_succ, List.flatMap_cons, head, tail, List.length_append,
      Source.length_offspring, List.range'_append_1]

theorem numbers (wf : t.WellFormed) (value : Source) : t.Numbers value := by
  induction value using Source.descend with
  | parts value ih =>
    intro id next place before after existing children here nodes
    obtain ⟨n, found⟩ := exists_node existing
    rw [Source.offspring_eq] at nodes ⊢
    have length := value.length_partKeys place
    have there : next + value.parts.length = (before ++ Source.block id (value.partKeys place)
        value.parts (next + value.parts.length)
        (place + (value.texts.flatMap Utf8.encode).length) ++ []).length := by
      rw [List.append_nil, List.length_append, Source.length_block _ length, here]
    have below := flatMap_siblings ih length here there
      (nodes.trans (by simp only [List.append_nil, List.append_assoc]; rfl))
    rw [preorder_eq wf found, List.flatMap_cons, children, ← childIds_eq found, children,
      List.flatMap_assoc, below, List.range'_append_1, List.length_append,
      Source.length_block _ length]

/-- Where the lists of some nodes are numbered through, each of them is. -/
theorem consecutive_of_flatMap {ids : List Nat} {next count : Nat}
    (all : ids.flatMap t.childIds = List.range' next count) {j : Nat} (hj : j ∈ ids) :
    ∃ first, t.childIds j = List.range' first (t.childIds j).length := by
  obtain ⟨before, after, rfl⟩ := List.append_of_mem hj
  rw [List.flatMap_append, List.flatMap_cons] at all
  obtain ⟨k, _, _, later⟩ := List.range'_eq_append_iff.1 all.symm
  obtain ⟨k', _, here, _⟩ := List.range'_eq_append_iff.1 later.symm
  exact ⟨_, by rw [here, List.length_range']⟩

/-! ## Storing a value -/

/-- **Where a stored value lies.** Whatever was done to a tree since it was made, a node without
children takes any value of tables, arrays and scalars within the depth limit, unless the tree was
made for a NaN of bytes; and what is then in the tree is what a recursion over the value writes. The
arena has the bytes of the value at its end, and the node and the new nodes are those of the value.
The new spans lie one behind the other from the first new byte to the last one. The children of each
node have consecutive ids, and in pre-order they are numbered through from the first new id to the
last one. -/
theorem store_numbered {capacity : Binary64} {start : Tree}
    (created : create capacity = .ok start) {history : List Operation}
    (reached : t = start.after history) (found : t.nodes[id]? = some n) (free : n.children = #[])
    {value : Source} (plain : value.Plain) (shallow : limit.exceededBy value.height = false) :
    (capacity ≠ .nan → ∃ t', store value (.natural id) limit t = (.ok (), t')) ∧
    store value (.natural id) limit t = plant limit value (.natural id) 0 t ∧
    ∀ t', store value (.natural id) limit t = (.ok (), t') →
      t.arena.GrownBy value.footprint t'.arena ∧
      t'.nodes.toList = t.nodes.toList.set id
        (value.record n.parent (value.keptKey n.key) t.size t.arena.size) ++
          value.offspring id t.size t.arena.size ∧
      (∃ n' spans, t'.nodes[id]? = some n' ∧ spans.Perm
          (n'.value.value?.toList ++ (t'.nodes.toList.drop t.size).flatMap Node.spans) ∧
        Span.Tile t.arena.size spans t'.arena.size) ∧
      (∀ j ∈ t'.preorder id,
        ∃ first, t'.childIds j = List.range' first (t'.childIds j).length) ∧
      (t'.preorder id).flatMap t'.childIds = List.range' t.size (t'.size - t.size) := by
  refine ⟨fun number => ?_, congrFun (store_eq_plant value (.natural id) limit) t, ?_⟩
  · have buffer : 0 < t.arena.capacity := by
      rw [reached]
      exact after_buffer number created history
    obtain ⟨t', stored, _⟩ := store_fulfils found free buffer plain shallow
    exact ⟨t', stored⟩
  intro t' stored
  have before : t.WellFormed := by
    rw [reached]
    exact ((Reachable.new created).after history).wellFormed
  have wf := lasting_wellFormed.writeAll limit [⟨value, .natural id, 0⟩] t before
  rw [show writeAll limit _ t = _ from stored] at wf
  have grown := store_appends value (.natural id) limit t () t' stored
  rw [store_eq_plant] at stored
  have nodes := settles limit value found free stored
  have length : (t.nodes.toList.set id (value.record n.parent (value.keptKey n.key) t.size
      t.arena.size)).length = t.size := List.length_set
  have size : t'.size - t.size = (value.offspring id t.size t.arena.size).length := by
    rw [← length_nodes, nodes, List.length_append, length, Nat.add_sub_cancel_left]
  have here : t'.nodes[id]? = some (value.record n.parent (value.keptKey n.key) t.size
      t.arena.size) := by
    have inside := lt_size found
    rw [← length] at inside
    rw [← Array.getElem?_toList, nodes, List.getElem?_append_left inside]
    exact List.getElem?_set_self (lt_size found)
  have numbered : (t'.preorder id).flatMap t'.childIds = List.range' t.size (t'.size - t.size) := by
    rw [size]
    exact numbers wf value (lt_size here) (childIds_eq here) length.symm
      (nodes.trans (List.append_nil _).symm)
  refine ⟨grown, nodes, ⟨_, Span.ofTexts t.arena.size value.inscription, here, ?_, ?_⟩,
    fun j hj => consecutive_of_flatMap numbered hj, numbered⟩
  · rw [nodes, List.drop_left' length]
    exact (value.spans_offspring id _ t.arena.size).symm
  · rw [grown.size_eq, Source.footprint_inscription]
    exact Span.tile_ofTexts _ _

/-- A table with a list, an empty list and a text inside, stored in a new tree. -/
theorem store_numbered_nested :
    let value := Source.ofMembers [(lit "a", .ofItems [.scalar .null, .ofItems []]),
      (lit "b", .scalar (.string (lit "c")))]
    ∃ t', store value (.natural 0) (.natural 2) (ofArena (.empty 1)) = (.ok (), t') ∧
      t'.arena.bytes = Utf8.encode (lit "abnullc") ∧
      t'.nodes.toList.map (·.children.toList) = [[1, 2], [3, 4], [], [], []] ∧
      (∃ n' spans, t'.nodes[0]? = some n' ∧ spans.Perm
          (n'.value.value?.toList ++ (t'.nodes.toList.drop 1).flatMap Node.spans) ∧
        Span.Tile 0 spans 7) ∧
      (t'.preorder 0).flatMap t'.childIds = [1, 2, 3, 4] := by
  intro value
  have plain : value.Plain := by
    apply Source.Plain.table
    intro m hm
    rcases List.mem_cons.1 hm with rfl | hm
    · apply Source.Plain.array
      intro item hi
      rcases List.mem_cons.1 hi with rfl | hi
      · exact .scalar .null
      · rw [List.mem_singleton.1 hi]
        exact .array nofun
    · rw [List.mem_singleton.1 hm]
      exact .scalar _
  have reached : ofArena (.empty 1) = (ofArena (.empty 1)).after [] := rfl
  have found : (ofArena (.empty 1)).nodes[0]? = some ({} : Node) := rfl
  obtain ⟨succeeds, _, numbered⟩ := store_numbered create_infinite reached found rfl plain
    (show (Quantity.natural 2).exceededBy value.height = false from rfl)
  obtain ⟨t', stored⟩ := succeeds nofun
  obtain ⟨grown, nodes, tiled, _, ids⟩ := numbered t' stored
  have count : t'.size = 5 := by
    rw [← length_nodes, nodes]
    rfl
  refine ⟨t', stored, grown.bytes.trans ?_, ?_, ?_, ?_⟩
  · decide
  · rw [nodes]
    decide
  · rwa [grown.size_eq] at tiled
  · rwa [count] at ids

end Tree

end SpanTree
