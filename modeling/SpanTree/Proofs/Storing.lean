import SpanTree.Proofs.Histories
import SpanTree.Proofs.Rounding
import SpanTree.Proofs.Writing

/-!
# Storing a value

Storing a value of tables, arrays and scalars makes the subtree of its node a mirror of the value.
The walk keeps a stack of values whose nodes were added with their parents and are still empty, so
the main induction is over stacks: `Awaits` says what holds of the nodes that a stack waits for,
and `Fulfils` what has become of them.

* `put_opens`: a value that is not refused is shown in its node, with an empty child for each part;
* `writeAll_succeeds`, `writeAll_done`: a stack is written to its end, and then every node of it
  mirrors its value;
* `writeAll_ok`: only plain values within the depth limit are ever written to the end;
* `store_mirrors`: so the node that a value is stored in mirrors it, below the key that it had.
-/

namespace SpanTree

namespace Tree

variable {t : Tree} {id : Nat} {n : Node}

/-- A value that is none of the refused ones is written into any node without children. -/
theorem put_opens {value : Source} (plain : value.Plain) (h : t.nodes[id]? = some n)
    (free : n.children = #[]) (buffer : 0 < t.arena.capacity) :
    ∃ first t', put (.natural id) value t = (.ok first, t') ∧ Opens t id n value first t' := by
  have written := put_written (.natural id) value t
  generalize put (.natural id) value t = r at written
  cases written with
  | stuck empty => omega
  | refused cause =>
    have := cause.fault_of_free h free
    rw [plain.fault] at this
    cases this
  | opened same found opens =>
    cases same
    rw [h] at found
    cases found
    rw [plain.fault]
    exact ⟨_, _, rfl, opens⟩

/-! ## Writing a stack -/

/-- A stack waits for nodes that are there once each and have no children. -/
structure Awaits (t : Tree) (stack : List Pending) (ids : List Nat) : Prop where
  nodes : stack.map (·.node) = ids.map .natural
  nodup : ids.Nodup
  free : ∀ id ∈ ids, ∃ n, t.nodes[id]? = some n ∧ n.children = #[]

theorem Awaits.topmost {item : Pending} {rest : List Pending} {ids : List Nat}
    (hw : Awaits t (item :: rest) ids) : ∃ id more, ids = id :: more ∧
      item.node = .natural id ∧ ∃ n, t.nodes[id]? = some n ∧ n.children = #[] := by
  cases ids with
  | nil => cases hw.nodes
  | cons id more =>
    exact ⟨id, more, rfl, (List.cons.inj hw.nodes).1, hw.free id List.mem_cons_self⟩

theorem awaits_one (value : Source) (found : t.nodes[id]? = some n) (free : n.children = #[]) :
    Awaits t [⟨value, .natural id, 0⟩] [id] where
  nodes := rfl
  nodup := List.pairwise_singleton _ id
  free j hj := by
    rw [List.mem_singleton.1 hj]
    exact ⟨n, found, free⟩

/-- The nodes that a stack waited for mirror its values, below the keys that they had. No other
node was touched, and as many were added as the values have parts at all levels. -/
structure Fulfils (t : Tree) (stack : List Pending) (ids : List Nat) (t' : Tree) : Prop where
  size : t'.size + stack.length = t.size + Source.itemsCount (stack.map (·.value))
  bytes : t.arena.bytes <+: t'.arena.bytes
  kept : ∀ j, j < t.size → j ∉ ids → t'.nodes[j]? = t.nodes[j]?
  mirrors : ∀ item ∈ stack, ∀ id, item.node = .natural id → t'.Mirrors item.value id
  keys : ∀ item ∈ stack, ∀ id n, item.node = .natural id → t.nodes[id]? = some n →
    ∃ n', t'.nodes[id]? = some n' ∧ n'.key = item.value.keptKey n.key ∧ n'.parent = n.parent

theorem Awaits.later {item : Pending} {rest : List Pending} {ids : List Nat}
    (hw : Awaits t (item :: rest) (id :: ids)) : Awaits t rest ids where
  nodes := (List.cons.inj hw.nodes).2
  nodup := (List.nodup_cons.1 hw.nodup).2
  free j hj := hw.free j (List.mem_cons_of_mem _ hj)

/-- Once a value is written, wherever that was, the stack waits for its parts and for what it waited
for before. -/
theorem Opens.awaits_parts {t' : Tree} {item : Pending} {rest : List Pending} {ids : List Nat}
    {first : Nat} (waits : Awaits t rest ids) (apart : id ∉ ids)
    (ho : Opens t id n item.value first t') :
    Awaits t' (item.children first ++ rest)
      (List.range' t.size item.value.parts.length ++ ids) where
  nodes := by
    rw [List.map_append, List.map_append, waits.nodes, Pending.children, consecutive_nodes]
    by_cases none : item.value.parts = []
    · rw [none]
      rfl
    · rw [ho.first none]
  nodup := by
    refine List.nodup_append.2 ⟨List.nodup_range', waits.nodup, ?_⟩
    intro a ha b hb
    obtain ⟨m, hm, _⟩ := waits.free b hb
    have hlt : b < t.size := lt_size hm
    have hge := (List.mem_range'_1.1 ha).1
    omega
  free := by
    intro j hj
    rcases List.mem_append.1 hj with hj | hj
    · obtain ⟨hge, hlt⟩ := List.mem_range'_1.1 hj
      obtain ⟨i, rfl⟩ : ∃ i, j = t.size + i := ⟨j - t.size, by omega⟩
      have hi : i < item.value.labels.length := by
        rw [item.value.labels_length]
        omega
      obtain ⟨c, hc, _, hnone, _, _⟩ := ho.new i _ (List.getElem?_eq_getElem hi)
      exact ⟨c, hc, hnone⟩
    · obtain ⟨m, hm, hnone⟩ := waits.free j hj
      have hne : j ≠ id := by
        rintro rfl
        exact apart hj
      exact ⟨m, by rw [ho.kept j (lt_size hm) hne, hm], hnone⟩

theorem Opens.awaits {t' : Tree} {item : Pending} {rest : List Pending} {ids : List Nat}
    {first : Nat} (hw : Awaits t (item :: rest) (id :: ids))
    (ho : Opens t id n item.value first t') :
    Awaits t' (item.children first ++ rest)
      (List.range' t.size item.value.parts.length ++ ids) :=
  ho.awaits_parts hw.later (List.nodup_cons.1 hw.nodup).1

/-- The node that a value was written to is not waited for again. -/
theorem Awaits.not_mem {item : Pending} {rest : List Pending} {ids : List Nat} {k : Nat}
    (hw : Awaits t (item :: rest) (id :: ids)) (hid : id < t.size) :
    id ∉ List.range' t.size k ++ ids := by
  intro h
  rcases List.mem_append.1 h with h | h
  · have := (List.mem_range'_1.1 h).1
    omega
  · exact (List.nodup_cons.1 hw.nodup).1 h

/-- Once the stack that is left after a value is fulfilled, the node mirrors the value. -/
theorem Opens.mirrors {t₁ t' : Tree} {item : Pending} {rest : List Pending} {ids : List Nat}
    {first : Nat} (ho : Opens t id n item.value first t₁)
    (hf : Fulfils t₁ (item.children first ++ rest)
      (List.range' t.size item.value.parts.length ++ ids) t')
    (free : n.children = #[]) (untouched : t'.nodes[id]? = t₁.nodes[id]?) :
    t'.Mirrors item.value id := by
  obtain ⟨n', hn', shown, _, _, children, _⟩ := ho.here
  rw [free, Array.empty_append] at children
  -- The parts are on the stack that is left, each with the node added for it.
  have pending {i : Nat} {part : Source} (hp : item.value.parts[i]? = some part) :
      ⟨part, .natural (t.size + i), item.depth + 1⟩ ∈ item.children first ++ rest := by
    have some : item.value.parts ≠ [] := by
      intro none
      rw [none] at hp
      cases hp
    rw [Pending.children, ho.first some]
    exact List.mem_append_left _ (mem_consecutive.2 ⟨i, part, hp, rfl⟩)
  have child {i c : Nat} (hc : n'.children[i]? = some c) : c = t.size + i := by
    rw [children, List.getElem?_toArray] at hc
    obtain ⟨hlt, rfl⟩ := List.getElem?_eq_some_iff.1 hc
    rw [List.getElem_range', Nat.one_mul]
  refine .intro (untouched.trans hn') (shown.mono hf.bytes) (by rw [children]; simp) ?_ ?_
  · intro i c label hc hl
    obtain rfl := child hc
    obtain ⟨m, hm, hparent, _, _, hname⟩ := ho.new i label hl
    have hi : i < item.value.parts.length := by
      rw [← item.value.labels_length]
      exact (List.getElem?_eq_some_iff.1 hl).1
    obtain ⟨m', hm', hkey', hparent'⟩ :=
      hf.keys _ (pending (List.getElem?_eq_getElem hi)) _ m rfl hm
    refine ⟨m', hm', by rw [hparent', hparent], ?_⟩
    rw [hkey', Source.keptKey_eq hname.ne_missing]
    exact hname.mono hf.bytes
  · intro i c part hc hp
    obtain rfl := child hc
    exact hf.mirrors _ (pending hp) _ rfl

/-- If the stack that is left after a value is fulfilled, so is the stack with the value. -/
theorem Opens.fulfils {t₁ t' : Tree} {item : Pending} {rest : List Pending} {ids : List Nat}
    {first : Nat} (hw : Awaits t (item :: rest) (id :: ids)) (found : t.nodes[id]? = some n)
    (free : n.children = #[]) (ho : Opens t id n item.value first t₁)
    (hf : Fulfils t₁ (item.children first ++ rest)
      (List.range' t.size item.value.parts.length ++ ids) t') :
    Fulfils t (item :: rest) (id :: ids) t' := by
  have hid : id < t.size := lt_size found
  have hsize := ho.size
  have hnode : item.node = .natural id := (List.cons.inj hw.nodes).1
  have untouched := hf.kept id (by omega) (hw.not_mem hid)
  have mirrors := ho.mirrors hf free untouched
  obtain ⟨n', hn', _, key, parent, _⟩ := ho.here
  refine ⟨?_, ho.bytes.trans hf.bytes, ?_, ?_, ?_⟩
  · have hlen : (item.children first).length = item.value.parts.length := by
      have := congrArg List.length
        (map_value_consecutive (item.depth + 1) item.value.parts first)
      rwa [List.length_map] at this
    have hall := hf.size
    simp only [List.map_append, Pending.children, map_value_consecutive, List.length_append,
      Source.itemsCount_append] at hall hlen
    simp only [List.map_cons, Source.itemsCount, List.length_cons, Source.count_eq item.value]
    omega
  · intro j hj hnj
    rw [hf.kept j (by omega) ?_, ho.kept j hj (List.ne_of_not_mem_cons hnj)]
    intro h
    rcases List.mem_append.1 h with h | h
    · have := (List.mem_range'_1.1 h).1
      omega
    · exact hnj (List.mem_cons_of_mem _ h)
  · intro other ho' j hj
    rcases List.mem_cons.1 ho' with rfl | ho'
    · rw [hnode] at hj
      cases hj
      exact mirrors
    · exact hf.mirrors other (List.mem_append_right _ ho') j hj
  · intro other ho' j m hj hm
    rcases List.mem_cons.1 ho' with rfl | ho'
    · rw [hnode] at hj
      cases hj
      rw [found] at hm
      cases hm
      exact ⟨n', untouched.trans hn', key, parent⟩
    · have hmem : j ∈ ids := by
        have h : (Quantity.natural j) ∈ ids.map .natural := by
          rw [← (List.cons.inj hw.nodes).2, ← hj]
          exact List.mem_map_of_mem ho'
        obtain ⟨k, hk, heq⟩ := List.mem_map.1 h
        cases heq
        exact hk
      have hne : j ≠ id := by
        rintro rfl
        exact (List.nodup_cons.1 hw.nodup).1 hmem
      exact hf.keys other (List.mem_append_right _ ho') j m hj
        (by rw [ho.kept j (lt_size hm) hne, hm])

/-- A stack that was written to its end is fulfilled. -/
theorem writeAll_done {limit : Quantity} {stack : List Pending} {ids : List Nat} {t' : Tree}
    (hw : Awaits t stack ids) (done : writeAll limit stack t = (.ok (), t')) :
    Fulfils t stack ids t' := by
  induction stack using Pending.stack_induction generalizing t ids with
  | nil =>
    rw [writeAll_nil] at done
    cases done
    refine ⟨rfl, List.prefix_rfl, fun _ _ _ => rfl, ?_, ?_⟩
    · intro item hi
      cases hi
    · intro item hi
      cases hi
  | cons item rest ih =>
    obtain ⟨id, ids, rfl, hnode, n, found, free⟩ := hw.topmost
    have begun := writeAll_begun limit item rest t
    rw [done] at begun
    generalize hp : ((.ok (), t') : Except Failure Unit × Tree) = p at begun
    cases begun with
    | deep | stuck | refused | broken => cases hp
    | @opened _ _ first _ _ same found' opens =>
      rw [hnode] at same
      cases same
      rw [found] at found'
      cases found'
      exact opens.fulfils hw found free (ih first (opens.awaits hw) hp.symm)

/-- A stack of plain values within the depth limit is written to its end. -/
theorem writeAll_succeeds {limit : Quantity} {stack : List Pending} {ids : List Nat}
    (hw : Awaits t stack ids) (buffer : 0 < t.arena.capacity)
    (plain : ∀ item ∈ stack, item.value.Plain)
    (shallow : ∀ item ∈ stack, limit.exceededBy (item.depth + item.value.height) = false) :
    ∃ t', writeAll limit stack t = (.ok (), t') := by
  induction stack using Pending.stack_induction generalizing t ids with
  | nil => exact ⟨t, by rw [writeAll_nil]; rfl⟩
  | cons item rest ih =>
    obtain ⟨id, ids, rfl, hnode, n, found, free⟩ := hw.topmost
    obtain ⟨first, t₁, hput, ho⟩ := put_opens (plain item List.mem_cons_self) found free buffer
    rw [← hnode] at hput
    have here : limit.exceededBy item.depth = false :=
      Quantity.exceededBy_mono (Nat.le_add_right _ _) (shallow item List.mem_cons_self)
    have plainRest : ∀ other ∈ item.children first ++ rest, other.value.Plain := by
      intro other hother
      rcases List.mem_append.1 hother with hother | hother
      · obtain ⟨i, part, hp, rfl⟩ := mem_consecutive.1 hother
        exact (plain item List.mem_cons_self).part (List.mem_of_getElem? hp)
      · exact plain other (List.mem_cons_of_mem _ hother)
    have shallowRest : ∀ other ∈ item.children first ++ rest,
        limit.exceededBy (other.depth + other.value.height) = false := by
      intro other hother
      rcases List.mem_append.1 hother with hother | hother
      · obtain ⟨i, part, hp, rfl⟩ := mem_consecutive.1 hother
        have hpart := Source.height_part (List.mem_of_getElem? hp)
        refine Quantity.exceededBy_mono ?_ (shallow item List.mem_cons_self)
        dsimp only
        omega
      · exact shallow other (List.mem_cons_of_mem _ hother)
    have buffer := Nat.lt_of_lt_of_le buffer ho.capacity
    rw [writeAll_cons here hput]
    exact ih first (ho.awaits hw) buffer plainRest shallowRest

/-! ## What was written -/

/-- A stack that was written to its end had plain values, all of them within the depth limit. -/
theorem writeAll_ok {limit : Quantity} {stack : List Pending} {t' : Tree}
    (h : writeAll limit stack t = (.ok (), t')) : ∀ item ∈ stack,
      item.value.Plain ∧ limit.exceededBy (item.depth + item.value.height) = false := by
  induction stack using Pending.stack_induction generalizing t with
  | nil =>
    intro item hi
    cases hi
  | cons item rest ih =>
    have begun := writeAll_begun limit item rest t
    rw [h] at begun
    generalize hp : ((.ok (), t') : Except Failure Unit × Tree) = p at begun
    cases begun with
    | deep | stuck | refused | broken => cases hp
    | @opened _ _ first _ shallow _ _ _ fault =>
      have later := ih first hp.symm
      have part {p : Source} (hp : p ∈ item.value.parts) :
          p.Plain ∧ limit.exceededBy (item.depth + 1 + p.height) = false := by
        obtain ⟨i, hi⟩ := List.getElem?_of_mem hp
        exact later ⟨p, .natural (first + i), item.depth + 1⟩
          (List.mem_append_left _ (mem_consecutive.2 ⟨i, p, hi, rfl⟩))
      intro other hother
      rcases List.mem_cons.1 hother with rfl | hother
      · refine ⟨Source.plain_of_fault fault fun p hp => (part hp).1, ?_⟩
        rcases Source.height_eq other.value with low | ⟨p, hp, high⟩
        · rw [low, Nat.add_zero]
          exact shallow
        · rw [high, Nat.add_comm p.height, ← Nat.add_assoc]
          exact (part hp).2
      · exact later other (List.mem_append_right _ hother)

/-! ## Storing a value -/

/-- A value that was stored is made of tables, arrays and scalars within the depth limit. -/
theorem store_ok {value : Source} {node limit : Quantity} {t' : Tree}
    (h : store value node limit t = (.ok (), t')) :
    value.Plain ∧ limit.exceededBy value.height = false := by
  have := writeAll_ok h _ List.mem_cons_self
  rwa [Nat.zero_add] at this

theorem store_fulfils (found : t.nodes[id]? = some n) (free : n.children = #[])
    (buffer : 0 < t.arena.capacity) {value : Source} (plain : value.Plain) {limit : Quantity}
    (shallow : limit.exceededBy value.height = false) :
    ∃ t', store value (.natural id) limit t = (.ok (), t') ∧
      Fulfils t [⟨value, .natural id, 0⟩] [id] t' := by
  have waits := awaits_one value found free
  have plains : ∀ item ∈ [(⟨value, .natural id, 0⟩ : Pending)], item.value.Plain := by
    intro item hi
    rw [List.mem_singleton.1 hi]
    exact plain
  have shallows : ∀ item ∈ [(⟨value, .natural id, 0⟩ : Pending)],
      limit.exceededBy (item.depth + item.value.height) = false := by
    intro item hi
    rw [List.mem_singleton.1 hi, Nat.zero_add]
    exact shallow
  obtain ⟨t', done⟩ := writeAll_succeeds waits buffer plains shallows
  exact ⟨t', done, writeAll_done waits done⟩

/-- **A stored value is mirrored.** In any tree that was made for a number of bytes, whatever was
done to it since, a node without children takes any value of tables, arrays and scalars that does
not reach below the depth limit. The node then mirrors the value and has the key that it had, and
each value but the topmost one has a node of its own. -/
theorem store_mirrors {capacity : Binary64} (number : capacity ≠ .nan) {start t : Tree}
    (created : create capacity = .ok start) {history : List Operation}
    (reached : t = start.after history) {id : Nat} {n : Node} (found : t.nodes[id]? = some n)
    (free : n.children = #[]) {value : Source} (plain : value.Plain) {limit : Quantity}
    (shallow : limit.exceededBy value.height = false) :
    ∃ t', store value (.natural id) limit t = (.ok (), t') ∧ t'.Mirrors value id ∧
      (∃ n', t'.nodes[id]? = some n' ∧ n'.key = value.keptKey n.key) ∧
      t'.size + 1 = t.size + value.count := by
  have buffer : 0 < t.arena.capacity := by
    rw [reached]
    exact after_buffer number created history
  obtain ⟨t', hr, hf⟩ := store_fulfils found free buffer plain shallow
  obtain ⟨n', hn', key, _⟩ := hf.keys _ List.mem_cons_self id n rfl found
  refine ⟨t', hr, hf.mirrors _ List.mem_cons_self id rfl, ⟨n', hn', key⟩, ?_⟩
  have size := hf.size
  simp only [List.map_cons, List.map_nil, Source.itemsCount, List.length_singleton] at size
  omega

/-- A table with a list inside, stored in a new tree. -/
theorem store_mirrors_nested :
    ∃ t', store (.ofMembers [(lit "a", .ofItems [.scalar .null, .ofItems []])]) (.natural 0)
        (.natural 2) (ofArena (.empty 1)) = (.ok (), t') ∧
      t'.Mirrors (.ofMembers [(lit "a", .ofItems [.scalar .null, .ofItems []])]) 0 ∧
      (∃ n', t'.nodes[0]? = some n' ∧ n'.key = .blank) ∧ t'.size + 1 = 1 + 4 := by
  have plain : (Source.ofMembers [(lit "a", .ofItems [.scalar .null, .ofItems []])]).Plain := by
    apply Source.Plain.table
    intro m hm
    rw [List.mem_singleton.1 hm]
    apply Source.Plain.array
    intro item hi
    rcases List.mem_cons.1 hi with rfl | hi
    · exact .scalar .null
    · rw [List.mem_singleton.1 hi]
      exact .array nofun
  have shallow : (Quantity.natural 2).exceededBy
      (Source.ofMembers [(lit "a", .ofItems [.scalar .null, .ofItems []])]).height = false := rfl
  have reached : ofArena (.empty 1) = (ofArena (.empty 1)).after [] := rfl
  have number : Binary64.infinite true ≠ .nan := by decide
  have found : (ofArena (.empty 1)).nodes[0]? = some ({} : Node) := rfl
  exact store_mirrors number create_infinite reached found rfl plain shallow

/-- Without a buffer there is no room for the text of a scalar. -/
theorem store_stuck {t : Tree} (empty : t.arena.capacity = 0) (node : Quantity) :
    store (.scalar .null) node defaultLimit t = (.error (.arena .stuck), t) := by
  have bytes : Utf8.encode Scalar.null.text ≠ [] := by decide
  have hcopy : copy Scalar.null.text t = (.error (.arena .stuck), t) := by
    simp only [copy_eq_onArena, Edit.onArena, Arena.copy_stuck empty bytes]
  have hput : put node (.scalar .null) t = (.error (.arena .stuck), t) := by
    rw [put_scalar, putScalar_def]
    exact Edit.bind_error (Edit.bind_error hcopy)
  rw [store_def, writeAll_def]
  simp only [hput]
  rfl

/-- Two values that are not stored as they should be. A key in whose place nothing was put counts
as taken before a table is stored in its node, and as absent afterwards. And in a tree that was
made for a NaN of bytes, there is no room for the text of a scalar. -/
theorem store_without_key_or_buffer :
    (∃ t, t = (ofArena (.empty 1)).after [.makeScalar (.natural 0) .missing .blank] ∧
        t.key (.natural 0) = .ok .missing ∧
        (store (.ofMembers []) (.natural 0) defaultLimit t).2.key (.natural 0) = .ok .blank) ∧
    ∃ t, create .nan = .ok t ∧
      (store (.scalar .null) (.natural 0) defaultLimit t).1 = .error (.arena .stuck) := by
  refine ⟨⟨_, rfl, rfl, ?_⟩, ofArena (.empty 0), rfl, ?_⟩
  · have hput : put (.natural 0) (.ofMembers [])
        ((ofArena (.empty 1)).after [.makeScalar (.natural 0) .missing .blank]) =
        (.ok 1, ⟨.empty 1, #[{ kind := .map }]⟩) := rfl
    rw [store_def, writeAll_cons rfl hput]
    change (writeAll defaultLimit [] _).2.key _ = _
    rw [writeAll_nil]
    rfl
  · rw [store_stuck rfl]

end Tree

end SpanTree
