import SpanTree.Proofs.Confinement
import SpanTree.Proofs.Footprint
import SpanTree.Proofs.Resemblance

/-!
# Values in different nodes

Two values that are stored in two nodes without children, one after the other. New nodes and bytes
come in the order of the two calls, but nothing that callers can see depends on it.

* `Tree.Hosts`: what has become of a tree once two values were stored in two of its nodes, said
  without the order in which this was done;
* `store_hosts`: it is so after one value and then the other;
* `Hosts.resembles`: so every node of the tree before is rendered alike after either order;
* `stores_commute`: either order has the same outcome.
-/

namespace SpanTree

/-- A span that an arena handed out has the same text when there are more bytes. -/
theorem Arena.Holds.text_eq {a a' : Arena} {span : Span} (h : a.Holds span)
    (bytes : a.bytes <+: a'.bytes) : a'.text span = a.text span := by
  obtain ⟨offset, length, rfl, inside⟩ := h
  simp only [Arena.text, read_of_prefix bytes inside]

namespace Tree

variable {t t' s t₁ t₂ : Tree} {a b id : Nat} {n m : Node} {u v value : Source}
  {limit limit' : Quantity}

/-! ## What stays as it was -/

theorem text_of_holds {span : Span} (held : t.arena.Holds span)
    (bytes : t.arena.bytes <+: t'.arena.bytes) : t'.text span = t.text span := by
  rw [Tree.text, Tree.text, held.text_eq bytes]

/-- A scalar that was not touched is written as before. -/
theorem scalarText_of_grounded (grounded : t.Grounded) (found : t.nodes[id]? = some n)
    (bytes : t.arena.bytes <+: t'.arena.bytes) : t'.scalarText n = t.scalarText n := by
  rw [scalarText_def, scalarText_def]
  rcases (grounded id n found).2 with blank | ⟨span, known, held⟩
  · rw [blank]
  · rw [known]
    dsimp only
    rw [text_of_holds held bytes]

/-- A node that has its key still has the text of the key, or the same error in its place. -/
theorem keyText_of_grounded (grounded : t.Grounded) (found : t.nodes[id]? = some n)
    (found' : t'.nodes[id]? = some m) (key : m.key = n.key)
    (bytes : t.arena.bytes <+: t'.arena.bytes) :
    t'.keyText (.natural id) = t.keyText (.natural id) := by
  rw [keyText_def, keyText_def, key_natural found, key_natural found', key]
  change t'.slotText _ n.key = t.slotText _ n.key
  rcases (grounded id n found).1 with blank | ⟨span, known, held⟩
  · rw [blank]
    rfl
  · rw [known, slotText_known, slotText_known]
    exact text_of_holds held bytes

/-- A mirror lasts as long as its nodes are not touched. -/
theorem Mirrors.lasts (h : t.Mirrors value id) (bytes : t.arena.bytes <+: t'.arena.bytes)
    (kept : ∀ j, t.Below id j → t'.nodes[j]? = t.nodes[j]?) : t'.Mirrors value id := by
  induction h with
  | @intro value id n found shown length labelled _ ih =>
    have below {i c : Nat} (hc : n.children[i]? = some c) : t.Below id c :=
      .child .self found (Array.mem_of_getElem? hc)
    refine .intro ((kept id .self).trans found) (shown.mono bytes) length ?_ ?_
    · intro i c label hc hl
      obtain ⟨k, hk, parent, names⟩ := labelled i c label hc hl
      exact ⟨k, (kept c (below hc)).trans hk, parent, names.mono bytes⟩
    · intro i c part hc hp
      exact ih i c part hc hp fun j hj => kept j ((below hc).trans hj)

theorem Below.eq_of_free (h : t.Below id a) (found : t.nodes[id]? = some n)
    (free : n.children = #[]) : a = id := by
  induction h with
  | self => rfl
  | child _ found' hc ih =>
    subst ih
    rw [found] at found'
    cases found'
    rw [free] at hc
    exact absurd hc (Array.not_mem_empty _)

/-- A node without children is not a map with a child that has no key. -/
theorem keyed_of_free (found : t.nodes[id]? = some n) (free : n.children = #[]) : t.Keyed id := by
  intro i k below hk _ c hc
  rw [below.eq_of_free found free] at hk
  rw [found] at hk
  cases hk
  rw [free] at hc
  exact absurd hc (Array.not_mem_empty _)

/-! ## One value and then another -/

/-- Two values were stored in two nodes. All other nodes were left alone, all keys stayed, and the
arena has grown by the bytes of both values. -/
structure Hosts (t : Tree) (a : Nat) (u : Source) (b : Nat) (v : Source) (t' : Tree) : Prop where
  wellFormed : t'.WellFormed
  grounded : t'.Grounded
  size : t'.size + 2 = t.size + (u.count + v.count)
  grown : ∃ added, added.length = u.footprint.length + v.footprint.length ∧
    t.arena.GrownBy added t'.arena
  left : t'.Mirrors u a ∧ t'.Keyed a
  right : t'.Mirrors v b ∧ t'.Keyed b
  kept : ∀ j, j < t.size → j ≠ a → j ≠ b → t'.nodes[j]? = t.nodes[j]?
  keys : ∀ (j : Nat) (n : Node), t.nodes[j]? = some n →
    ∃ n', t'.nodes[j]? = some n' ∧ n'.key = n.key

theorem Hosts.swap (h : t.Hosts a u b v t') : t.Hosts b v a u t' where
  wellFormed := h.wellFormed
  grounded := h.grounded
  size := by rw [h.size, Nat.add_comm u.count]
  grown := by simpa only [Nat.add_comm] using h.grown
  left := h.right
  right := h.left
  kept j hj hb ha := h.kept j hj ha hb
  keys := h.keys

/-- No node loses its key to a value that is stored. -/
theorem Fulfils.keys_kept (h : Fulfils t [⟨value, .natural id, 0⟩] [id] t')
    (grounded : t.Grounded) {j : Nat} (found : t.nodes[j]? = some n) :
    ∃ n', t'.nodes[j]? = some n' ∧ n'.key = n.key := by
  by_cases here : j = id
  · subst here
    obtain ⟨n', found', key, _⟩ := h.keys _ List.mem_cons_self j n rfl found
    rw [Source.keptKey_eq (grounded j n found).1.ne_missing] at key
    exact ⟨n', found', key⟩
  · refine ⟨n, ?_, rfl⟩
    rw [h.kept j (lt_size found) (by simpa using here), found]

/-- Two nodes without children take two plain values within the depth limits. -/
theorem exists_stores (wf : t.WellFormed) (buffer : 0 < t.arena.capacity)
    (found : t.nodes[a]? = some n) (free : n.children = #[]) (found' : t.nodes[b]? = some m)
    (free' : m.children = #[]) (apart : a ≠ b) (plain : u.Plain) (plain' : v.Plain)
    (shallow : limit.exceededBy u.height = false) (shallow' : limit'.exceededBy v.height = false) :
    ∃ t', (do store u (.natural a) limit; store v (.natural b) limit' : Edit Unit) t =
      (.ok (), t') := by
  obtain ⟨s, first, one⟩ := store_fulfils found free buffer plain shallow
  have still : s.nodes[b]? = some m := by
    rw [one.kept b (lt_size found') (by simpa using apart.symm), found']
  have buffer' := Nat.lt_of_lt_of_le buffer (writeAll_confined wf first nofun).capacity
  obtain ⟨t', later, _⟩ := store_fulfils still free' buffer' plain' shallow'
  exact ⟨t', by rw [Edit.bind_ok first, later]⟩

/-- After one value and then another, the tree hosts both. -/
theorem store_hosts (wf : t.WellFormed) (grounded : t.Grounded) (found : t.nodes[a]? = some n)
    (free : n.children = #[]) (found' : t.nodes[b]? = some m) (free' : m.children = #[])
    (apart : a ≠ b) (first : store u (.natural a) limit t = (.ok (), s))
    (later : store v (.natural b) limit' s = (.ok (), t')) : t.Hosts a u b v t' := by
  have one := writeAll_done (awaits_one u found free) first
  have confined := writeAll_confined wf first nofun
  have still : s.nodes[b]? = some m := by
    rw [one.kept b (lt_size found') (by simpa using apart.symm), found']
  have two := writeAll_done (awaits_one v still free') later
  have confined' := writeAll_confined confined.wellFormed later nofun
  have grounded' := confined.grounded grounded
  -- What is below the first node in the meantime is new, and the second node is not.
  have outside {j : Nat} (below : s.Below a j) : j ≠ b := by
    rintro rfl
    have old := confined.below_old below (lt_size found')
    exact apart (old.eq_of_free found free).symm
  have inside {j : Nat} (below : s.Below a j) : j < s.size :=
    below.lt_size confined.wellFormed (Nat.lt_of_lt_of_le (lt_size found) confined.size)
  have left := one.mirrors _ List.mem_cons_self a rfl
  refine ⟨confined'.wellFormed, confined'.grounded grounded', ?_,
    ⟨u.footprint ++ v.footprint, List.length_append, ?_⟩, ⟨?_, ?_⟩, ⟨?_, ?_⟩, ?_, ?_⟩
  · have size := one.size
    have size' := two.size
    simp only [List.map_cons, List.map_nil, List.length_singleton, Source.itemsCount] at size size'
    omega
  · exact (store_appends u (.natural a) limit t () s first).trans
      (store_appends v (.natural b) limit' s () t' later)
  · refine left.lasts two.bytes fun j below => ?_
    exact two.kept j (inside below) (by simpa using outside below)
  · exact confined'.keyed grounded' (confined.keyed grounded (keyed_of_free found free))
  · exact two.mirrors _ List.mem_cons_self b rfl
  · exact confined'.keyed grounded' (keyed_of_free still free')
  · intro j hj ha hb
    rw [two.kept j (Nat.lt_of_lt_of_le hj confined.size) (by simpa using hb),
      one.kept j hj (by simpa using ha)]
  · intro j k hk
    obtain ⟨k₁, hk₁, key₁⟩ := one.keys_kept grounded hk
    obtain ⟨k₂, hk₂, key₂⟩ := two.keys_kept grounded' hk₁
    exact ⟨k₂, hk₂, key₂.trans key₁⟩

/-- Every node that was there is rendered alike in two trees that host the same values. -/
theorem Hosts.resembles (h : t.Hosts a u b v t₁) (h' : t.Hosts a u b v t₂) (wf : t.WellFormed)
    (grounded : t.Grounded) (existing : id < t.size) : t₁.Resembles t₂ id id := by
  obtain ⟨_, _, grown⟩ := h.grown
  obtain ⟨_, _, grown'⟩ := h'.grown
  have bytes : t.arena.bytes <+: t₁.arena.bytes := ⟨_, grown.bytes.symm⟩
  have bytes' : t.arena.bytes <+: t₂.arena.bytes := ⟨_, grown'.bytes.symm⟩
  -- Children come after their parents, so the induction is on how many nodes come after one.
  induction rest : t.size - id using Nat.strongRecOn generalizing id with
  | ind rest ih =>
    by_cases ha : id = a
    · subst ha
      exact h.left.1.resembles h'.left.1
    by_cases hb : id = b
    · subst hb
      exact h.right.1.resembles h'.right.1
    obtain ⟨n, found⟩ := exists_node existing
    have found₁ := (h.kept id existing ha hb).trans found
    have found₂ := (h'.kept id existing ha hb).trans found
    refine .intro found₁ found₂ rfl (fun _ => ?_) rfl ?_ ?_
    · rw [scalarText_of_grounded grounded found bytes, scalarText_of_grounded grounded found bytes']
    · intro i c c' _ hc hc'
      cases hc.symm.trans hc'
      obtain ⟨_, k, hk, _⟩ := wf.down id n c found (Array.mem_of_getElem? hc)
      obtain ⟨k₁, hk₁, key₁⟩ := h.keys c k hk
      obtain ⟨k₂, hk₂, key₂⟩ := h'.keys c k hk
      rw [keyText_of_grounded grounded hk hk₁ key₁ bytes,
        keyText_of_grounded grounded hk hk₂ key₂ bytes']
    · intro i c c' hc hc'
      cases hc.symm.trans hc'
      obtain ⟨later, k, hk, _⟩ := wf.down id n c found (Array.mem_of_getElem? hc)
      have inside := lt_size hk
      exact ih (t.size - c) (by omega) inside rfl

/-- A node in which a value was stored is rendered as a text. -/
theorem Hosts.emits (h : t.Hosts a u b v t') (k : Nat) : ∃ text, t'.Emits a k text := by
  obtain ⟨mirrors, keyed⟩ := h.left
  have existing := mirrors.lt_size
  obtain ⟨document, depicts⟩ := exists_depicts h.wellFormed h.grounded existing keyed
  exact ⟨_, depicts.emits h.wellFormed existing k⟩

/-- Of nodes that resemble each other, one is rendered as the text of the other, if as any text. -/
theorem Resembles.emits {id' k : Nat} {text : Text} (h : t.Resembles t' id id')
    (size : t'.size = t.size) (emits : t.Emits id k text) (some : ∃ text', t'.Emits id' k text') :
    t'.Emits id' k text := by
  obtain ⟨text', emits'⟩ := some
  have whole := emits.1 none
  have whole' := emits'.1 none
  simp only [Option.all_none, if_true] at whole whole'
  rw [h.render size, whole] at whole'
  cases whole'
  exact emits'

/-- **Values in different nodes may be stored in either order.** Whatever was done to a tree since
it was made for a number of bytes, as long as its spans are such as its arena hands out, two of its
nodes without children take two values of tables, arrays and scalars within the depth limits, in
either order. Both trees have as many nodes and bytes and a buffer of the same size, and every node
that was there is rendered as the same text, or fails with the same error, in any layout and under
any settings. If it is the same value, both nodes are rendered as the same text in both trees, with
any whole number of spaces. -/
theorem stores_commute {capacity : Binary64} (number : capacity ≠ .nan) {start : Tree}
    (created : create capacity = .ok start) {history : List Operation}
    (reached : t = start.after history) (grounded : t.Grounded)
    (found : t.nodes[a]? = some n) (free : n.children = #[]) (found' : t.nodes[b]? = some m)
    (free' : m.children = #[]) (apart : a ≠ b) (plain : u.Plain) (plain' : v.Plain)
    (shallow : limit.exceededBy u.height = false) (shallow' : limit'.exceededBy v.height = false) :
    ∃ t₁ t₂,
      (do store u (.natural a) limit; store v (.natural b) limit' : Edit Unit) t = (.ok (), t₁) ∧
      (do store v (.natural b) limit'; store u (.natural a) limit : Edit Unit) t = (.ok (), t₂) ∧
      t₁.size = t₂.size ∧ t₁.arena.size = t₂.arena.size ∧
      t₁.arena.capacity = t₂.arena.capacity ∧
      (∀ id < t.size, ∀ layout,
        t₁.render layout (.natural id) = t₂.render layout (.natural id)) ∧
      (∀ id < t.size, ∀ s : RenderSettings, nodeOf s.node? = .natural id →
        s.render t₁ = s.render t₂) ∧
      (u = v → ∀ k, ∃ text, t₁.Emits a k text ∧ t₁.Emits b k text ∧ t₂.Emits a k text ∧
        t₂.Emits b k text) := by
  have wf : t.WellFormed := by
    rw [reached]
    exact lasting_wellFormed.after (Reachable.new created).wellFormed history
  have buffer : 0 < t.arena.capacity := by
    rw [reached]
    exact after_buffer number created history
  obtain ⟨t₁, ran⟩ := exists_stores wf buffer found free found' free' apart plain plain' shallow
    shallow'
  obtain ⟨t₂, ran'⟩ := exists_stores wf buffer found' free' found free apart.symm plain' plain
    shallow' shallow
  obtain ⟨_, s, first, later⟩ := Edit.bind_inv ran
  obtain ⟨_, s', first', later'⟩ := Edit.bind_inv ran'
  have hosts := store_hosts wf grounded found free found' free' apart first later
  have hosts' := (store_hosts wf grounded found' free' found free apart.symm first' later').swap
  obtain ⟨added, length, grown⟩ := hosts.grown
  obtain ⟨added', length', grown'⟩ := hosts'.grown
  have size : t₁.size = t₂.size := by
    have := hosts.size
    have := hosts'.size
    omega
  have alike {id : Nat} (existing : id < t.size) (layout : Layout) :
      t₁.render layout (.natural id) = t₂.render layout (.natural id) :=
    ((hosts.resembles hosts' wf grounded existing).render size.symm layout).symm
  refine ⟨t₁, t₂, ran, ran', size, ?_, ?_, fun id existing => alike existing, ?_, ?_⟩
  · rw [grown.size_eq, grown'.size_eq, length, length']
  · exact grown.capacity_eq grown' (length.trans length'.symm)
  · intro id existing s node
    rw [RenderSettings.render_def, RenderSettings.render_def, node, alike existing]
  · rintro rfl k
    obtain ⟨text, emits⟩ := hosts.emits k
    refine ⟨text, emits, ?_, ?_, ?_⟩
    · exact (hosts.left.1.resembles hosts.right.1).emits rfl emits (hosts.swap.emits k)
    · exact (hosts.left.1.resembles hosts'.left.1).emits size.symm emits (hosts'.emits k)
    · exact (hosts.left.1.resembles hosts'.right.1).emits size.symm emits (hosts'.swap.emits k)

/-- Two values for the two items of a list, one of which has a key and a text. -/
theorem stores_commute_siblings :
    let t := (ofArena (.empty 1)).after [.makeSeq (.natural 0) .blank, .addChild (.natural 0),
      .addChild (.natural 0)]
    let u := Source.ofMembers [(lit "k", .scalar .null)]
    let v := Source.ofItems [.ofItems []]
    ∃ t₁ t₂,
      (do store u (.natural 1) (.natural 1); store v (.natural 2) (.natural 1) : Edit Unit) t =
        (.ok (), t₁) ∧
      (do store v (.natural 2) (.natural 1); store u (.natural 1) (.natural 1) : Edit Unit) t =
        (.ok (), t₂) ∧
      t₁.size = t₂.size ∧ t₁.arena.capacity = t₂.arena.capacity ∧
      ∀ layout, t₁.render layout (.natural 0) = t₂.render layout (.natural 0) := by
  intro t u v
  have grounded : t.Grounded := by
    intro i n found
    have small : i < 3 := lt_size found
    have blank : n.key = .blank ∧ n.value = .blank := by
      obtain rfl | rfl | rfl : i = 0 ∨ i = 1 ∨ i = 2 := by omega
      · cases found
        exact ⟨rfl, rfl⟩
      · cases found
        exact ⟨rfl, rfl⟩
      · cases found
        exact ⟨rfl, rfl⟩
    exact ⟨.inl blank.1, .inl blank.2⟩
  have plain : u.Plain := by
    apply Source.Plain.table
    intro m hm
    rw [List.mem_singleton.1 hm]
    exact .scalar .null
  have plain' : v.Plain := by
    apply Source.Plain.array
    intro item hi
    rw [List.mem_singleton.1 hi]
    exact .array nofun
  have found : t.nodes[1]? = some { parent := some 0 } := rfl
  have found' : t.nodes[2]? = some { parent := some 0 } := rfl
  obtain ⟨t₁, t₂, ran, ran', size, _, room, alike, _⟩ := stores_commute (by decide)
    create_infinite (t := t) rfl grounded found rfl found' rfl (by decide) plain plain'
    (show (Quantity.natural 1).exceededBy u.height = false from rfl)
    (show (Quantity.natural 1).exceededBy v.height = false from rfl)
  exact ⟨t₁, t₂, ran, ran', size, room, alike 0 (by decide)⟩

/-- Of the two items of a list, one takes nothing in place of a value: this has neither parts nor a
depth, and raises an error. And in a tree that was made for a NaN of bytes there is no room for the
text of a scalar, so that it is never stored. -/
theorem stores_not_commuting :
    ((do
        store .absent (.natural 1) defaultLimit
        store (.ofItems []) (.natural 2) defaultLimit : Edit Unit)
      (new.after [.makeSeq (.natural 0) .blank, .addChild (.natural 0),
        .addChild (.natural 0)])).1 = .error .missingValue ∧
    ∃ start, create .nan = .ok start ∧
      ((do
          store (.scalar .null) (.natural 1) defaultLimit
          store (.ofItems []) (.natural 2) defaultLimit : Edit Unit)
        (start.after [.makeSeq (.natural 0) .blank, .addChild (.natural 0),
          .addChild (.natural 0)])).1 = .error (.arena .stuck) := by
  constructor
  · have failed (t : Tree) : store .absent (.natural 1) defaultLimit t =
        (.error .missingValue, t) := by
      rw [store_def, writeAll_def]
      rfl
    rw [Edit.bind_error (failed _)]
  · refine ⟨ofArena (.empty 0), rfl, ?_⟩
    rw [Edit.bind_error (store_stuck rfl _)]

end Tree

end SpanTree
