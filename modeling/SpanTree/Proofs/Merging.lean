import SpanTree.Proofs.Confinement
import SpanTree.Proofs.Reporting

/-!
# Storing into nodes with children

A value may go to a node that has children, if the node is the container that the value makes of it.
The new children come after those that it has.

* `Tree.Takes`: which values a node takes;
* `put_merges`: a container that takes a value is opened like a node without children;
* `Tree.Merged`: what a stored value adds to a node and below it, and that nothing else was touched;
* `store_cases`: a plain value is refused before any node is touched, or it is stored, or there was
  no buffer for a text;
* `store_merged`: what a caller and a handler see of a value for any node.
-/

namespace SpanTree

namespace Tree

variable {t t' : Tree} {id : Nat} {n : Node} {value : Source} {node limit : Quantity}

/-- A node takes a value if it has no children, or if it is a map and the value a table, or a seq
and the value an array. -/
def Takes (t : Tree) (node : Quantity) (value : Source) : Prop :=
  ∃ n, t.node? node = some n ∧ (n.children = #[] ∨ value.Extends n.kind)

/-! ## Keys of containers -/

/-- Every map and every seq has a key or a blank. -/
def Marked (t : Tree) : Prop :=
  ∀ (i : Nat) (n : Node), t.nodes[i]? = some n → n.kind.isContainer = true → n.key ≠ .missing

theorem Marked.of_nodes (h : t.Marked) (same : t'.nodes = t.nodes) : t'.Marked := by
  intro i n found
  rw [same] at found
  exact h i n found

theorem revise_marked (id : Quantity) {change : Node → Except Failure Node}
    (keeps : ∀ n n', change n = .ok n' → (n.kind.isContainer = true → n.key ≠ .missing) →
      n'.kind.isContainer = true → n'.key ≠ .missing) : Edit.Keeps Marked (revise id change) := by
  intro t h
  rcases revise_cases id change t with same | ⟨i, n, n', found, hc, new⟩
  · rw [same]
    exact h
  · rw [new]
    intro j m hm
    rcases withNode_cases hm with ⟨_, rfl⟩ | ⟨_, hm⟩
    · exact keeps n m hc (h i n found)
    · exact h j m hm

theorem makeContainer_marked (wanted : Kind) (id : Quantity) (key : Slot Span) :
    Edit.Keeps Marked (makeContainer wanted id key) := by
  rw [makeContainer_eq_revise]
  apply revise_marked
  intro n n' hc _ _
  split at hc
  · cases hc
  · cases hc
    cases key <;> nofun

theorem lasting_marked : Lasting Marked where
  addChild parent t h := by
    rcases addChild_cases parent t with same | ⟨p, n, found, container, new⟩
    · rw [same]
      exact h
    · rw [new]
      intro j m hm
      rcases withChild_cases found hm with ⟨_, rfl⟩ | ⟨_, rfl⟩ | ⟨_, hm⟩
      · nofun
      · exact h p n found
      · exact h j m hm
  makeMap := makeContainer_marked .map
  makeSeq := makeContainer_marked .seq
  makeScalar id key value := by
    rw [makeScalar_eq_revise]
    apply revise_marked
    intro n n' hc _
    split at hc
    · cases hc
    · cases hc
      nofun
  flag id flags := by
    rw [flag_eq_revise]
    apply revise_marked
    intro n n' hc h
    cases hc
    exact h
  allocate size t h := by
    rw [allocate_eq_onArena]
    exact h.of_nodes (onArena_nodes _ t)
  copy text t h := by
    rw [copy_eq_onArena]
    exact h.of_nodes (onArena_nodes _ t)
  write span bytes t h := by
    rw [write_eq_onArena]
    exact h.of_nodes (onArena_nodes _ t)

theorem Reachable.marked (h : t.Reachable) : t.Marked := by
  refine lasting_marked.reachable ?_ h
  intro capacity t created i n found
  obtain ⟨a, _, rfl⟩ := create_inv created
  obtain ⟨_, rfl⟩ := ofArena_only found
  nofun

/-! ## One value -/

/-- A container has room for the parts of a value that agrees with it. -/
theorem put_extends (plain : value.Plain) (found : t.nodes[id]? = some n)
    (same : value.Extends n.kind) :
    (t.arena.capacity = 0 ∧ ∃ t', put (.natural id) value t = (.error (.arena .stuck), t')) ∨
      ∃ first t', put (.natural id) value t = (.ok first, t') := by
  have made (wanted : Kind) := withNode_self (n := n.reassigned wanted n.key.orBlank .blank)
    (lt_size found)
  cases kind : n.kind with
  | unset | scalar =>
    rw [kind] at same
    cases plain <;> exact same.elim
  | map =>
    rw [kind] at same
    cases plain with
    | scalar | array => exact same.elim
    | @table members _ =>
      rw [Source.ofMembers, put_table, Edit.bind_ok (ask_key found), makeMap_def,
        Edit.bind_ok (makeContainer_eq n.key found (.inr kind)), Edit.bind_ok (ask_size _)]
      rcases addMembers_sprouts (members.map (·.1)) (made .map) rfl with
        ⟨empty, t', stuck⟩ | ⟨t', added, _⟩
      · exact .inl ⟨empty, t', Edit.bind_error stuck⟩
      · rw [Edit.bind_ok added]
        exact .inr ⟨_, t', rfl⟩
  | seq =>
    rw [kind] at same
    cases plain with
    | scalar | table => exact same.elim
    | @array items _ =>
      obtain ⟨t', added, _⟩ := addItems_sprouts items (made .seq) rfl
      rw [Source.ofItems, put_array, Edit.bind_ok (ask_key found), makeSeq_def,
        Edit.bind_ok (makeContainer_eq n.key found (.inr kind)), Edit.bind_ok (ask_size _),
        Edit.bind_ok added]
      exact .inr ⟨_, t', rfl⟩

/-- A node that was opened for a value did take it. -/
theorem Opens.takes {first : Nat} (wf : t.WellFormed) (found : t.nodes[id]? = some n)
    (ho : Opens t id n value first t') : t.Takes (.natural id) value := by
  refine ⟨n, found, ?_⟩
  obtain ⟨n', _, shown, _, _, _, room⟩ := ho.here
  rcases room with free | same
  · exact .inl free
  · cases value with
    | table | array =>
      rw [← same, shown.1]
      exact .inr trivial
    | scalar value =>
      left
      by_contra some
      have container := (wf.proper id n found).parental some
      rw [← same, shown.1] at container
      cases container
    | unsupported | unknown | absent => exact shown.elim

/-- What comes of writing a plain value to a node: there is no buffer for a text; or the node does
not take it, and no node is touched; or the node takes it and is opened. -/
theorem put_cases (wf : t.WellFormed) (plain : value.Plain) (node : Quantity) :
    (t.arena.capacity = 0 ∧ ∃ t', put node value t = (.error (.arena .stuck), t')) ∨
    (¬ t.Takes node value ∧ ∃ f arena, put node value t = (.error f, { t with arena }) ∧
      Refusal t node value f) ∨
    (t.Takes node value ∧ ∃ id n first t', node = .natural id ∧ t.nodes[id]? = some n ∧
      put node value t = (.ok first, t') ∧ Opens t id n value first t') := by
  have written := put_written node value t
  generalize wrote : put node value t = p at written
  cases written with
  | stuck empty => exact .inl ⟨empty, _, rfl⟩
  | @refused f arena cause =>
    refine .inr (.inl ⟨?_, f, arena, rfl, cause⟩)
    rintro ⟨n, hn, free | same⟩
    · have fault := cause.fault_of_free hn free
      rw [plain.fault] at fault
      cases fault
    · obtain ⟨id, rfl, found⟩ := node?_natural hn
      rcases put_extends plain found same with ⟨_, t', stuck⟩ | ⟨first, t', ok⟩
      · rw [stuck] at wrote
        cases wrote
        exact cause.ne_stuck rfl
      · rw [ok] at wrote
        cases wrote
  | @opened id n first t' same found opens =>
    cases same
    rw [plain.fault] at wrote ⊢
    exact .inr (.inr ⟨opens.takes wf found, id, n, first, t', rfl, found, rfl, opens⟩)

/-! ## A value and all that is below it -/

/-- A value was stored in node `id`, which was `n`. The node shows the value, its children come
first, and then one child for each part of the value, in order, which bears the name of the part
and mirrors it. If the node had children, its kind and its key are what they were, and what was
below its children still is. No other node was touched. -/
structure Merged (t : Tree) (id : Nat) (n : Node) (value : Source) (t' : Tree) : Prop where
  size : t'.size + 1 = t.size + value.count
  bytes : t.arena.bytes <+: t'.arena.bytes
  kept : ∀ j, j < t.size → j ≠ id → t'.nodes[j]? = t.nodes[j]?
  old : ∀ c ∈ n.children, ∀ j, t'.Below c j ↔ t.Below c j
  here : ∃ n', t'.nodes[id]? = some n' ∧ value.Shown t'.arena n' ∧ n'.parent = n.parent ∧
    n'.children = n.children ++ (List.range' t.size value.parts.length).toArray ∧
    n'.key = value.keptKey n.key ∧ (n.children ≠ #[] → n'.kind = n.kind ∧ n'.key = n.key)
  labelled : ∀ i label, value.labels[i]? = some label → ∃ c, t'.nodes[t.size + i]? = some c ∧
    c.parent = some id ∧ t'.arena.Names c.key label
  mirrors : ∀ i part, value.parts[i]? = some part → t'.Mirrors part (t.size + i)

/-- What is below a node that was not touched, and above no node that was, is as it was. -/
theorem below_kept {c j : Nat} (wf : t.WellFormed) (existing : c < t.size) (later : id < c)
    (kept : ∀ j, j < t.size → j ≠ id → t'.nodes[j]? = t.nodes[j]?) :
    t'.Below c j ↔ t.Below c j := by
  have same {i : Nat} (below : t.Below c i) : t'.nodes[i]? = t.nodes[i]? := by
    have := below.le wf
    exact kept i (below.lt_size wf existing) (by omega)
  constructor
  · intro below
    induction below with
    | self => exact .self
    | child _ found hc ih =>
      rw [same ih] at found
      exact .child ih found hc
  · intro below
    induction below with
    | self => exact .self
    | child below found hc ih =>
      rw [← same below] at found
      exact .child ih found hc

/-- Each part of a value is left to be written to the node that was added for it. -/
theorem Opens.pending (item : Pending) {first i : Nat} {part : Source}
    (ho : Opens t id n item.value first t') (hp : item.value.parts[i]? = some part) :
    ⟨part, .natural (t.size + i), item.depth + 1⟩ ∈ item.children first := by
  have some : item.value.parts ≠ [] := by
    intro none
    rw [none] at hp
    cases hp
  rw [Pending.children, ho.first some]
  exact mem_consecutive.2 ⟨i, part, hp, rfl⟩

theorem Opens.awaits_children (item : Pending) {first : Nat}
    (ho : Opens t id n item.value first t') :
    Awaits t' (item.children first) (List.range' t.size item.value.parts.length) := by
  have none : Awaits t [] [] := ⟨rfl, .nil, fun _ mem => absurd mem List.not_mem_nil⟩
  have waits := ho.awaits_parts none List.not_mem_nil
  rwa [List.append_nil, List.append_nil] at waits

/-- Once the parts of a value were written after it, the value is stored. -/
theorem Opens.merged {first : Nat} {t₁ : Tree} (wf : t.WellFormed) (marked : t.Marked)
    (found : t.nodes[id]? = some n) (ho : Opens t id n value first t₁)
    (done : writeAll limit (Pending.children ⟨value, .natural id, 0⟩ first) t₁ = (.ok (), t')) :
    Merged t id n value t' := by
  let item : Pending := ⟨value, .natural id, 0⟩
  have fulfils := writeAll_done (Opens.awaits_children item ho) done
  have grown := ho.size
  have kept (j : Nat) (hj : j < t.size) (other : j ≠ id) : t'.nodes[j]? = t.nodes[j]? := by
    rw [fulfils.kept j (by omega) ?_, ho.kept j hj other]
    intro new
    have := (List.mem_range'_1.1 new).1
    omega
  have untouched : t'.nodes[id]? = t₁.nodes[id]? := by
    have := lt_size found
    refine fulfils.kept id (by omega) fun new => ?_
    have := (List.mem_range'_1.1 new).1
    omega
  refine ⟨?_, ho.bytes.trans fulfils.bytes, kept, ?_, ?_, ?_, ?_⟩
  · have size := fulfils.size
    have length : (item.children first).length = value.parts.length := by
      have := congrArg List.length (map_value_consecutive (item.depth + 1) item.value.parts first)
      rwa [List.length_map] at this
    rw [length, Pending.children, map_value_consecutive] at size
    rw [Source.count_eq]
    change t'.size + value.parts.length = t₁.size + Source.itemsCount value.parts at size
    omega
  · intro c hc j
    obtain ⟨later, m, hm, _⟩ := wf.down id n c found hc
    exact below_kept wf (lt_size hm) later kept
  · obtain ⟨n', hn', shown, key, parent, children, room⟩ := ho.here
    refine ⟨n', untouched.trans hn', shown.mono fulfils.bytes, parent, children, key, ?_⟩
    intro some
    refine ⟨room.resolve_left some, key.trans (Source.keptKey_eq ?_)⟩
    exact marked id n found ((wf.proper id n found).parental some)
  · intro i label hl
    obtain ⟨c, hc, parent, _, _, names⟩ := ho.new i label hl
    have hi : i < value.parts.length := by
      rw [← value.labels_length]
      exact (List.getElem?_eq_some_iff.1 hl).1
    obtain ⟨c', hc', key, parent'⟩ := fulfils.keys _
      (Opens.pending item ho (List.getElem?_eq_getElem hi)) _ c rfl hc
    refine ⟨c', hc', parent'.trans parent, ?_⟩
    rw [key, Source.keptKey_eq names.ne_missing]
    exact names.mono fulfils.bytes
  · intro i part hp
    exact fulfils.mirrors _ (Opens.pending item ho hp) _ rfl

/-- What comes of storing a plain value within the depth limit: there is no buffer for a text; or
the node does not take it, and no node is touched; or the node takes it and it is stored. -/
theorem store_cases (wf : t.WellFormed) (marked : t.Marked) (plain : value.Plain)
    (shallow : limit.exceededBy value.height = false) (node : Quantity) :
    (t.arena.capacity = 0 ∧ (store value node limit t).1 = .error (.arena .stuck)) ∨
    (¬ t.Takes node value ∧ ∃ f arena, store value node limit t = (.error f, { t with arena }) ∧
      Refusal t node value f) ∨
    (t.Takes node value ∧ ∃ id n t', node = .natural id ∧ t.nodes[id]? = some n ∧
      store value node limit t = (.ok (), t') ∧ Merged t id n value t') := by
  have here : limit.exceededBy 0 = false := Quantity.exceededBy_mono (Nat.zero_le _) shallow
  have refused {f : Failure} {t' : Tree} (h : put node value t = (.error f, t')) :
      store value node limit t = (.error f, t') := by
    rw [store_def, writeAll_def, here, h]
    rfl
  rcases put_cases wf plain node with
    ⟨empty, t', stuck⟩ | ⟨loose, f, arena, error, cause⟩ | ⟨takes, id, n, first, t₁, rfl, found,
      wrote, opens⟩
  · exact .inl ⟨empty, by rw [refused stuck]⟩
  · exact .inr (.inl ⟨loose, f, arena, refused error, cause⟩)
  · have ran : store value (.natural id) limit t =
        writeAll limit (Pending.children ⟨value, .natural id, 0⟩ first) t₁ := by
      rw [store_def, writeAll_cons here wrote, List.append_nil]
    cases later : writeAll limit (Pending.children ⟨value, .natural id, 0⟩ first) t₁ with
    | mk r t' =>
    rw [later] at ran
    cases r with
    | ok done =>
      exact .inr (.inr ⟨takes, id, n, t', rfl, found, ran, opens.merged wf marked found later⟩)
    | error f =>
      have waits := Opens.awaits_children ⟨value, .natural id, 0⟩ opens
      have within := children_within plain (.natural id) first
      rcases writeAll_waiting waits (fun other inside => (within other inside).1) later with
        ⟨empty, rfl⟩ | ⟨other, inside, deep, _⟩
      · exact .inl ⟨Nat.le_zero.1 (empty ▸ opens.capacity), by rw [ran]⟩
      · have := Quantity.exceededBy_of_le (within other inside).2 deep
        rw [shallow] at this
        cases this

/-! ## What is seen of it -/

/-- A plain value is not refused for its own sake. -/
theorem Refusal.of_plain {f : Failure} (h : Refusal t node value f) (plain : value.Plain) :
    ∃ report, Declines t node value f report := by
  cases h with
  | declined declines => exact ⟨_, declines⟩
  | fault fault =>
    rw [plain.fault] at fault
    cases fault

/-- **A value is stored in every node that takes it, and in no other.** Whatever was done to a tree
since it was made for a number of bytes, a value of tables, arrays and scalars within the depth
limit is stored in a node if and only if the node is there and has no children, or is a map and the
value a table, or is a seq and the value an array. Then nothing is reported, the children that the
node had come first, with all that is below them, and the parts of the value come behind them, in
order. If the node had children, it keeps its kind and its key. Otherwise the handler is sent one
report, that the node is not there or has children already, what the handler makes of it is raised,
and all nodes are what they were. -/
theorem store_merged {capacity : Binary64} (number : capacity ≠ .nan) {start : Tree}
    (created : create capacity = .ok start) {history : List Operation}
    (reached : t = start.after history) (handler : Handler) (plain : value.Plain)
    (shallow : limit.exceededBy value.height = false) (node : Quantity) {outcome : Outcome Unit}
    (performed : outcome = Attended.outcome (storeM value node limit) handler t) :
    outcome.ends = true ∧
    (outcome.result = .ok () ↔ t.Takes node value) ∧
    (t.Takes node value → outcome.reports = [] ∧ ∃ id n, node = .natural id ∧
      t.nodes[id]? = some n ∧ Merged t id n value outcome.tree) ∧
    (¬ t.Takes node value → ∃ cause report, Declines t node value cause report ∧
      outcome.reports = [report] ∧ outcome.result = .error (report.deliver handler) ∧
      outcome.tree.nodes = t.nodes) := by
  have reachable : t.Reachable := by
    rw [reached]
    exact (Reachable.new created).after history
  have buffer : 0 < t.arena.capacity := by
    rw [reached]
    exact after_buffer number created history
  rw [Attended.outcome_store] at performed
  rcases store_cases reachable.wellFormed reachable.marked plain shallow node with
    ⟨empty, _⟩ | ⟨loose, f, arena, error, cause⟩ | ⟨takes, id, n, t', rfl, found, ran, merged⟩
  · omega
  · obtain ⟨report, declines⟩ := cause.of_plain plain
    rw [Edit.perform_reported error declines.reported] at performed
    subst performed
    refine ⟨rfl, iff_of_false ?_ loose, fun takes => absurd takes loose,
      fun _ => ⟨f, report, declines, rfl, rfl, rfl⟩⟩
    intro ok
    cases ok
  · rw [Edit.perform_ok ran] at performed
    subst performed
    exact ⟨rfl, iff_of_true rfl takes, fun _ => ⟨rfl, id, n, rfl, found, merged⟩,
      fun loose => absurd takes loose⟩

/-- A table for a map that has a child already. -/
theorem store_merged_map :
    let t := (ofArena (.empty 1)).after [.makeMap (.natural 0) .blank, .addChild (.natural 0)]
    let value := Source.ofMembers [(lit "k", .ofItems [])]
    ∃ outcome : Outcome Unit,
      outcome = Attended.outcome (storeM value (.natural 0) (.natural 1)) (fun _ => none) t ∧
      outcome.result = .ok () ∧ outcome.reports = [] ∧
      Merged t 0 { kind := .map, children := #[1] } value outcome.tree := by
  intro t value
  have plain : value.Plain := by
    apply Source.Plain.table
    intro m hm
    rw [List.mem_singleton.1 hm]
    exact .array nofun
  have number : Binary64.infinite true ≠ .nan := by decide
  have found : t.nodes[0]? = some { kind := .map, children := #[1] } := rfl
  have takes : t.Takes (.natural 0) value := ⟨_, found, .inr trivial⟩
  obtain ⟨_, stored, merges, _⟩ := store_merged number create_infinite (t := t) rfl
    (fun _ => none) plain
    (show (Quantity.natural 1).exceededBy value.height = false from rfl) (.natural 0) rfl
  obtain ⟨quiet, id, n, same, found', merged⟩ := merges takes
  cases same
  rw [found] at found'
  cases found'
  exact ⟨_, rfl, stored.2 takes, quiet, merged⟩

/-- A new node takes nothing in place of a value: this has neither parts nor a depth, and an error
is raised for it without a report. And in a tree that was made for a NaN of bytes there is no room
for the text of a scalar, so the call never ends. -/
theorem store_nothing_or_endless :
    (Attended.outcome (storeM .absent (.natural 0) defaultLimit) Report.raise new).result =
        .error .type ∧
      (Attended.outcome (storeM .absent (.natural 0) defaultLimit) Report.raise new).reports = [] ∧
    ∃ t, create .nan = .ok t ∧
      (Attended.outcome (storeM (.scalar .null) (.natural 0) defaultLimit) Report.raise t).ends =
        false := by
  have failed : store .absent (.natural 0) defaultLimit new = (.error .missingValue, new) := by
    rw [store_def, writeAll_def]
    rfl
  rw [Attended.outcome_store, Edit.perform_error failed]
  refine ⟨rfl, rfl, ofArena (.empty 0), rfl, ?_⟩
  rw [Attended.outcome_store, Edit.perform_error (store_stuck rfl _)]
  rfl

end Tree

end SpanTree
