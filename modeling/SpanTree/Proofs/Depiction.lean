import Mathlib.Algebra.GroupWithZero.Nat
import Mathlib.Data.List.Forall2
import Mathlib.Data.List.Nodup
import Mathlib.Data.List.Perm.Subperm
import SpanTree.Tree.Render
import SpanTree.Proofs.Forest
import SpanTree.Proofs.Printing

/-!
# What a tree says

A node stands for a document: what it is to be read as, by its kind, its flag and its texts.

* `Json.ofBare`, `Tree.reading`: what a scalar is read as;
* `Tree.Depicts`: a node and what is below it are read as a document;
* `Depicts.unique`: as one document only, whose numbers are numbers (`Depicts.numeric`);
* `Arena.Holds`, `Tree.Grounded`: all spans of a tree are such as its arena hands out;
* `exists_depicts`: in such a tree every node has a document, if the members of maps have keys;
* `Depicts.count_le`: the document has no more values than the tree has nodes.
-/

namespace SpanTree

/-- What a text without quotes is read as: a literal, a number, or else a string. -/
def Json.ofBare (t : Text) : Json :=
  if t = lit "true" then boolean true
  else if t = lit "false" then boolean false
  else if t = lit "null" then null
  else if Numeral t then number t
  else string t

namespace Json

mutual

/-- How many values a document consists of, itself included. -/
def count : Json → Nat
  | array items => 1 + itemsCount items
  | object members => 1 + membersCount members
  | _ => 1

/-- How many values the items of an array consist of. -/
def itemsCount : List Json → Nat
  | [] => 0
  | item :: rest => item.count + itemsCount rest

/-- How many values the members of an object consist of. -/
def membersCount : List (Text × Json) → Nat
  | [] => 0
  | (_, value) :: rest => value.count + membersCount rest

end

theorem itemsCount_eq (items : List Json) : itemsCount items = (items.map count).sum := by
  induction items with
  | nil => rfl
  | cons item rest ih => rw [itemsCount, ih, List.map_cons, List.sum_cons]

theorem membersCount_eq (members : List (Text × Json)) :
    membersCount members = (members.map (·.2.count)).sum := by
  induction members with
  | nil => rfl
  | cons m rest ih => rw [membersCount, ih, List.map_cons, List.sum_cons]

end Json

namespace Tree

/-- What a scalar is read as; without a value it is null. -/
def reading (t : Tree) (n : Node) : Except Failure Json :=
  match n.value with
  | .blank => .ok .null
  | .missing => .error .missingValue
  | .known span =>
    (t.text span).map fun text => if n.isQuoted then .string text else .ofBare text

/-- A node is read as a document: an unset one as null, a scalar by its text, a seq as the array of
its children and a map as the object of their keys and themselves, both in order. -/
inductive Depicts (t : Tree) : Nat → Json → Prop
  | unset {id : Nat} {n : Node} (found : t.nodes[id]? = some n) (kind : n.kind = .unset) :
      Depicts t id .null
  | scalar {id : Nat} {n : Node} {j : Json} (found : t.nodes[id]? = some n)
      (kind : n.kind = .scalar) (reads : t.reading n = .ok j) : Depicts t id j
  | seq {id : Nat} {n : Node} {items : List Json} (found : t.nodes[id]? = some n)
      (kind : n.kind = .seq) (length : n.children.size = items.length)
      (below : ∀ (i c : Nat) (item : Json), n.children[i]? = some c → items[i]? = some item →
        Depicts t c item) : Depicts t id (.array items)
  | map {id : Nat} {n : Node} {members : List (Text × Json)} (found : t.nodes[id]? = some n)
      (kind : n.kind = .map) (length : n.children.size = members.length)
      (keys : ∀ (i c : Nat) (key : Text) (value : Json), n.children[i]? = some c →
        members[i]? = some (key, value) → t.keyText (.natural c) = .ok key)
      (below : ∀ (i c : Nat) (key : Text) (value : Json), n.children[i]? = some c →
        members[i]? = some (key, value) → Depicts t c value) : Depicts t id (.object members)

variable {t : Tree} {id : Nat} {n : Node}

/-- Entries that agree place by place agree as lists. -/
theorem forall₂_of_getElem? {α β : Type} {R : α → β → Prop} {as : List α} {bs : List β}
    (length : as.length = bs.length)
    (h : ∀ (i : Nat) (a : α) (b : β), as[i]? = some a → bs[i]? = some b → R a b) :
    List.Forall₂ R as bs := by
  induction as generalizing bs with
  | nil =>
    cases bs with
    | nil => exact .nil
    | cons b bs => cases length
  | cons a as ih =>
    cases bs with
    | nil => cases length
    | cons b bs =>
      refine .cons (h 0 a b rfl rfl) (ih (Nat.succ.inj length) ?_)
      intro i a' b' ha hb
      exact h (i + 1) a' b' ha hb

/-- Children that agree place by place with what is made of the members agree with it as lists. -/
theorem forall₂_children {α β : Type} {R : Nat → β → Prop} {f : α → β} {members : List α}
    (length : n.children.size = members.length)
    (each : ∀ (i c : Nat) (m : α), n.children[i]? = some c → members[i]? = some m → R c (f m)) :
    List.Forall₂ R n.children.toList (members.map f) := by
  apply forall₂_of_getElem? (by rw [List.length_map]; exact length)
  intro i c b hc hb
  rw [Array.getElem?_toList] at hc
  rw [List.getElem?_map] at hb
  obtain ⟨m, hm, rfl⟩ := Option.map_eq_some_iff.1 hb
  exact each i c m hc hm

theorem exists_getElem? {α β : Type} {l : List α} {m : List β} (length : l.length = m.length)
    {i : Nat} {b : β} (h : m[i]? = some b) : ∃ a, l[i]? = some a := by
  have hlt : i < l.length := by
    rw [length]
    exact (List.getElem?_eq_some_iff.1 h).1
  exact ⟨_, List.getElem?_eq_getElem hlt⟩

/-- What the kind of a node says about the document that it is read as. -/
def Agrees (t : Tree) (n : Node) (j : Json) : Prop :=
  match n.kind with
  | .unset => j = .null
  | .scalar => t.reading n = .ok j
  | .seq => ∃ items : List Json, j = .array items ∧ n.children.size = items.length ∧
      ∀ (i c : Nat) (item : Json), n.children[i]? = some c → items[i]? = some item →
        t.Depicts c item
  | .map => ∃ members : List (Text × Json), j = .object members ∧
      n.children.size = members.length ∧
      ∀ (i c : Nat) (key : Text) (value : Json), n.children[i]? = some c →
        members[i]? = some (key, value) → t.keyText (.natural c) = .ok key ∧ t.Depicts c value

theorem Depicts.agrees {j : Json} (h : t.Depicts id j) (found : t.nodes[id]? = some n) :
    t.Agrees n j := by
  unfold Agrees
  cases h with
  | unset found' kind =>
    rw [found] at found'
    cases found'
    rw [kind]
  | scalar found' kind reads =>
    rw [found] at found'
    cases found'
    rw [kind]
    exact reads
  | seq found' kind length below =>
    rw [found] at found'
    cases found'
    rw [kind]
    exact ⟨_, rfl, length, below⟩
  | map found' kind length keys below =>
    rw [found] at found'
    cases found'
    rw [kind]
    exact ⟨_, rfl, length, fun i c key value hc hm =>
      ⟨keys i c key value hc hm, below i c key value hc hm⟩⟩

/-- A node is read as one document only. -/
theorem Depicts.unique {j j' : Json} (h : t.Depicts id j) (h' : t.Depicts id j') : j = j' := by
  induction h generalizing j' with
  | unset found kind =>
    have agrees := h'.agrees found
    rw [Agrees, kind] at agrees
    exact agrees.symm
  | scalar found kind reads =>
    have agrees := h'.agrees found
    rw [Agrees, kind] at agrees
    exact Except.ok.inj (reads.symm.trans agrees)
  | @seq id n items found kind length _ ih =>
    have agrees := h'.agrees found
    rw [Agrees, kind] at agrees
    obtain ⟨items', rfl, length', below'⟩ := agrees
    have same : List.Forall₂ (· = ·) items items' := by
      apply forall₂_of_getElem? (length.symm.trans length')
      intro i a b ha hb
      obtain ⟨c, hc⟩ := exists_getElem? (l := n.children.toList) length ha
      rw [Array.getElem?_toList] at hc
      exact ih i c a hc ha (below' i c b hc hb)
    rw [List.forall₂_eq_eq_eq] at same
    rw [same]
  | @map id n members found kind length keys _ ih =>
    have agrees := h'.agrees found
    rw [Agrees, kind] at agrees
    obtain ⟨members', rfl, length', below'⟩ := agrees
    have same : List.Forall₂ (· = ·) members members' := by
      apply forall₂_of_getElem? (length.symm.trans length')
      intro i a b ha hb
      obtain ⟨c, hc⟩ := exists_getElem? (l := n.children.toList) length ha
      rw [Array.getElem?_toList] at hc
      obtain ⟨hkey, hvalue⟩ := below' i c b.1 b.2 hc hb
      have hkey' := keys i c a.1 a.2 hc ha
      rw [hkey] at hkey'
      exact Prod.ext (Except.ok.inj hkey').symm (ih i c a.1 a.2 hc ha hvalue)
    rw [List.forall₂_eq_eq_eq] at same
    rw [same]

/-! ## Numbers -/

theorem numericItems_of_forall {items : List Json} (h : ∀ item ∈ items, item.Numeric) :
    Json.NumericItems items := by
  induction items with
  | nil => trivial
  | cons item rest ih =>
    exact ⟨h item List.mem_cons_self, ih fun other ho => h other (List.mem_cons_of_mem _ ho)⟩

theorem numericMembers_of_forall {members : List (Text × Json)}
    (h : ∀ m ∈ members, m.2.Numeric) : Json.NumericMembers members := by
  induction members with
  | nil => trivial
  | cons m rest ih =>
    exact ⟨h m List.mem_cons_self, ih fun other ho => h other (List.mem_cons_of_mem _ ho)⟩

theorem numeric_ofBare (text : Text) : (Json.ofBare text).Numeric := by
  unfold Json.ofBare
  split
  · trivial
  split
  · trivial
  split
  · trivial
  split
  · next number => exact number
  · trivial

theorem count_ofBare (text : Text) : (Json.ofBare text).count = 1 := by
  unfold Json.ofBare
  split
  · rfl
  split
  · rfl
  split
  · rfl
  split <;> rfl

theorem reading_ok {j : Json} (h : t.reading n = .ok j) :
    (n.value = .blank ∧ j = .null) ∨ ∃ span text, n.value = .known span ∧
      t.text span = .ok text ∧ j = if n.isQuoted then .string text else .ofBare text := by
  unfold reading at h
  split at h
  · next blank =>
    cases h
    exact .inl ⟨blank, rfl⟩
  · cases h
  · next span known =>
    cases ht : t.text span with
    | error f =>
      rw [ht] at h
      cases h
    | ok text =>
      rw [ht] at h
      cases h
      exact .inr ⟨span, text, known, ht, rfl⟩

theorem reading_numeric {j : Json} (h : t.reading n = .ok j) : j.Numeric := by
  rcases reading_ok h with ⟨_, rfl⟩ | ⟨_, text, _, _, rfl⟩
  · trivial
  · split
    · trivial
    · exact numeric_ofBare text

theorem reading_count {j : Json} (h : t.reading n = .ok j) : j.count = 1 := by
  rcases reading_ok h with ⟨_, rfl⟩ | ⟨_, text, _, _, rfl⟩
  · rfl
  · split
    · rfl
    · exact count_ofBare text

/-- The numbers of a document that a node is read as are spelled as numbers. -/
theorem Depicts.numeric {j : Json} (h : t.Depicts id j) : j.Numeric := by
  induction h with
  | unset => trivial
  | scalar _ _ reads => exact reading_numeric reads
  | @seq id n items _ _ length _ ih =>
    apply numericItems_of_forall
    intro item hi
    obtain ⟨i, hi⟩ := List.getElem?_of_mem hi
    obtain ⟨c, hc⟩ := exists_getElem? (l := n.children.toList) length hi
    rw [Array.getElem?_toList] at hc
    exact ih i c item hc hi
  | @map id n members _ _ length _ _ ih =>
    apply numericMembers_of_forall
    intro m hm
    obtain ⟨i, hi⟩ := List.getElem?_of_mem hm
    obtain ⟨c, hc⟩ := exists_getElem? (l := n.children.toList) length hi
    rw [Array.getElem?_toList] at hc
    exact ih i c m.1 m.2 hc hi

end Tree

/-! ## Spans of the arena -/

/-- A span as an arena hands it out: from a byte to another one, both allocated. -/
def Arena.Holds (a : Arena) (span : Span) : Prop :=
  ∃ offset length, span = ⟨.natural offset, .natural length⟩ ∧ offset + length ≤ a.size

theorem Arena.holds_extend {count : Nat} {a a' : Arena} {span : Span}
    (h : a.extend count = (.ok span, a')) : a'.Holds span := by
  obtain ⟨same, size, _⟩ := bytes_extend h
  exact ⟨_, _, same, Nat.le_of_eq size.symm⟩

/-- The span of a copy is held. -/
theorem Arena.holds_copy {text : Text} {a a' : Arena} {span : Span}
    (h : a.copy text = (.ok span, a')) : a'.Holds span := by
  rcases copy_cases text a with ⟨_, stuck⟩ | ⟨_, copied, bytes, _⟩
  · rw [stuck] at h
    cases h
  · rw [copied] at h
    cases h
    refine ⟨_, _, rfl, Nat.le_of_eq ?_⟩
    rw [← bytes_length, ← bytes_length, bytes, List.length_append]

/-- The span of an allocation is held. -/
theorem Arena.holds_allocate {size : Quantity} {a a' : Arena} {span : Span}
    (h : a.allocate size = (.ok span, a')) : a'.Holds span := by
  cases size with
  | irregular x => cases h
  | natural count =>
    unfold allocate at h
    dsimp only at h
    split at h
    · cases h
    · exact holds_extend h

/-- A span that is held stays so, since bytes are only added. -/
theorem Arena.Holds.mono {a a' : Arena} {span : Span} (h : a.Holds span)
    (more : a.size ≤ a'.size) : a'.Holds span := by
  obtain ⟨offset, length, same, fits⟩ := h
  exact ⟨offset, length, same, Nat.le_trans fits more⟩

theorem Arena.Holds.text {a : Arena} {span : Span} (h : a.Holds span) :
    ∃ text, a.text span = .ok text := by
  obtain ⟨offset, length, rfl, fits⟩ := h
  unfold Arena.text
  split
  · exact ⟨_, rfl⟩
  · rw [read_natural, if_pos fits]
    exact ⟨_, rfl⟩

/-- A slot that is blank or has a span that an arena holds. -/
def Arena.Fills (a : Arena) (slot : Slot Span) : Prop :=
  slot = .blank ∨ ∃ span, slot = .known span ∧ a.Holds span

namespace Tree

/-- All keys and values of a tree are spans that its arena handed out. -/
def Grounded (t : Tree) : Prop :=
  ∀ (i : Nat) (n : Node), t.nodes[i]? = some n → t.arena.Fills n.key ∧ t.arena.Fills n.value

/-- Every child of every map at or below a node has a key. -/
def Keyed (t : Tree) (top : Nat) : Prop :=
  ∀ (i : Nat) (n : Node), t.Below top i → t.nodes[i]? = some n → n.kind = .map →
    ∀ c ∈ n.children, ∀ m : Node, t.nodes[c]? = some m → m.key ≠ .blank

theorem Grounded.reads {t : Tree} {i : Nat} {n : Node} (h : t.Grounded)
    (found : t.nodes[i]? = some n) : ∃ j, t.reading n = .ok j := by
  unfold reading
  rcases (h i n found).2 with blank | ⟨span, known, held⟩
  · rw [blank]
    exact ⟨_, rfl⟩
  · obtain ⟨text, ht⟩ := held.text
    rw [known]
    dsimp only
    rw [Tree.text, ht]
    exact ⟨_, rfl⟩

theorem Grounded.keyText {t : Tree} {i : Nat} {n : Node} (h : t.Grounded)
    (found : t.nodes[i]? = some n) (keyed : n.key ≠ .blank) :
    ∃ key, t.keyText (.natural i) = .ok key := by
  rcases (h i n found).1 with blank | ⟨span, known, held⟩
  · exact absurd blank keyed
  · obtain ⟨text, ht⟩ := held.text
    refine ⟨text, ?_⟩
    rw [keyText_known found known, Tree.text, ht]
    rfl

/-! ## Every node has a document -/

theorem exists_forall₂ {α β : Type} {R : α → β → Prop} {l : List α}
    (h : ∀ a ∈ l, ∃ b, R a b) : ∃ bs, List.Forall₂ R l bs := by
  induction l with
  | nil => exact ⟨[], .nil⟩
  | cons a l ih =>
    obtain ⟨b, hb⟩ := h a List.mem_cons_self
    obtain ⟨bs, hbs⟩ := ih fun other ho => h other (List.mem_cons_of_mem _ ho)
    exact ⟨b :: bs, .cons hb hbs⟩

theorem getElem?_of_forall₂ {α β : Type} {R : α → β → Prop} {as : List α} {bs : List β}
    (h : List.Forall₂ R as bs) {i : Nat} {a : α} {b : β} (ha : as[i]? = some a)
    (hb : bs[i]? = some b) : R a b := by
  induction h generalizing i with
  | nil => cases ha
  | cons head _ ih =>
    cases i with
    | zero =>
      cases ha
      cases hb
      exact head
    | succ i => exact ih ha hb

/-- In a tree whose spans its arena handed out, every node is read as a document, if the children
of the maps at or below it have keys. -/
theorem exists_depicts {t : Tree} (wf : t.WellFormed) (grounded : t.Grounded) {id : Nat}
    (existing : id < t.size) (keyed : t.Keyed id) : ∃ j, t.Depicts id j := by
  -- Children have greater ids, so the distance to the end of the table decreases.
  induction hn : t.size - id using Nat.strongRecOn generalizing id with
  | ind distance ih =>
    obtain ⟨n, found⟩ := exists_node existing
    have child {c : Nat} (hc : c ∈ n.children) : ∃ j, t.Depicts c j := by
      obtain ⟨hlt, m, hm, _⟩ := wf.down id n c found hc
      have hsize := lt_size hm
      refine ih (t.size - c) (by omega) hsize ?_ rfl
      intro i k hi
      exact keyed i k ((Below.child .self found hc).trans hi)
    cases kind : n.kind with
    | unset => exact ⟨_, .unset found kind⟩
    | scalar =>
      obtain ⟨j, hj⟩ := grounded.reads found
      exact ⟨j, .scalar found kind hj⟩
    | seq =>
      obtain ⟨items, hitems⟩ := exists_forall₂ (l := n.children.toList)
        fun c hc => child (Array.mem_toList_iff.1 hc)
      refine ⟨_, .seq found kind hitems.length_eq ?_⟩
      intro i c item hc hi
      rw [← Array.getElem?_toList] at hc
      exact getElem?_of_forall₂ hitems hc hi
    | map =>
      have member : ∀ c ∈ n.children.toList,
          ∃ m : Text × Json, t.keyText (.natural c) = .ok m.1 ∧ t.Depicts c m.2 := by
        intro c hc
        have hc := Array.mem_toList_iff.1 hc
        obtain ⟨_, m, hm, _⟩ := wf.down id n c found hc
        obtain ⟨key, hkey⟩ := grounded.keyText hm (keyed id n .self found kind c hc m hm)
        obtain ⟨j, hj⟩ := child hc
        exact ⟨(key, j), hkey, hj⟩
      obtain ⟨members, hmembers⟩ := exists_forall₂ member
      refine ⟨_, .map found kind hmembers.length_eq ?_ ?_⟩
      · intro i c key value hc hm
        rw [← Array.getElem?_toList] at hc
        exact (getElem?_of_forall₂ hmembers hc hm).1
      · intro i c key value hc hm
        rw [← Array.getElem?_toList] at hc
        exact (getElem?_of_forall₂ hmembers hc hm).2

end Tree

/-! ## The number of values -/

namespace Tree

/-- As many different nodes at or below a node as a number says. -/
def Fills (t : Tree) (top count : Nat) : Prop :=
  ∃ ids : List Nat, ids.length = count ∧ ids.Nodup ∧ ∀ d ∈ ids, t.Below top d

/-- A node and the nodes below its children are all different. -/
theorem fills_node {t : Tree} {id : Nat} {n : Node} (wf : t.WellFormed)
    (found : t.nodes[id]? = some n) {counts : List Nat}
    (h : List.Forall₂ t.Fills n.children.toList counts) : t.Fills id (1 + counts.sum) := by
  have below : ∀ cs : List Nat, (∀ c ∈ cs, c ∈ n.children) → cs.Pairwise (· < ·) →
      ∀ counts : List Nat, List.Forall₂ t.Fills cs counts → ∃ ids : List Nat,
        ids.length = counts.sum ∧ ids.Nodup ∧ ∀ d ∈ ids, ∃ c ∈ cs, t.Below c d := by
    intro cs inside ascending counts h
    induction h with
    | nil => exact ⟨[], rfl, List.nodup_nil, nofun⟩
    | @cons c count cs counts head _ ih =>
      obtain ⟨first, hlen, hnodup, hbelow⟩ := head
      obtain ⟨ids, hlens, hnodups, hbelows⟩ :=
        ih (fun other ho => inside other (List.mem_cons_of_mem _ ho)) ascending.of_cons
      refine ⟨first ++ ids, ?_, ?_, ?_⟩
      · rw [List.length_append, hlen, hlens, List.sum_cons]
      · refine List.nodup_append.2 ⟨hnodup, hnodups, ?_⟩
        rintro d hd _ hd' rfl
        obtain ⟨c', hc', hb⟩ := hbelows d hd'
        have same := Below.disjoint wf found (inside c List.mem_cons_self)
          (inside c' (List.mem_cons_of_mem _ hc')) (hbelow d hd) hb
        have := List.rel_of_pairwise_cons ascending hc'
        omega
      · intro d hd
        rcases List.mem_append.1 hd with hd | hd
        · exact ⟨c, List.mem_cons_self, hbelow d hd⟩
        · obtain ⟨c', hc', hb⟩ := hbelows d hd
          exact ⟨c', List.mem_cons_of_mem _ hc', hb⟩
  obtain ⟨ids, hlen, hnodup, hbelow⟩ := below n.children.toList
    (fun c hc => Array.mem_toList_iff.1 hc) (wf.ascending id n found) counts h
  have child {c : Nat} (hc : c ∈ n.children.toList) : c ∈ n.children := Array.mem_toList_iff.1 hc
  refine ⟨id :: ids, ?_, List.nodup_cons.2 ⟨?_, hnodup⟩, ?_⟩
  · rw [List.length_cons, hlen, Nat.add_comm]
  · intro hid
    obtain ⟨c, hc, hb⟩ := hbelow id hid
    have hle := hb.le wf
    have := (wf.down id n c found (child hc)).1
    omega
  · intro d hd
    rcases List.mem_cons.1 hd with rfl | hd
    · exact .self
    · obtain ⟨c, hc, hb⟩ := hbelow d hd
      exact (Below.child .self found (child hc)).trans hb

theorem fills_one (t : Tree) (id : Nat) : t.Fills id 1 := by
  refine ⟨[id], rfl, List.nodup_singleton id, ?_⟩
  intro d hd
  rw [List.mem_singleton.1 hd]
  exact .self

theorem Depicts.fills {t : Tree} {id : Nat} {j : Json} (wf : t.WellFormed)
    (h : t.Depicts id j) : t.Fills id j.count := by
  induction h with
  | unset => exact fills_one t _
  | @scalar id _ _ _ _ reads =>
    rw [reading_count reads]
    exact fills_one t id
  | @seq id n items found _ length _ ih =>
    rw [Json.count, Json.itemsCount_eq]
    exact fills_node wf found (forall₂_children length ih)
  | @map id n members found _ length _ _ ih =>
    rw [Json.count, Json.membersCount_eq]
    exact fills_node wf found (forall₂_children length fun i c m => ih i c m.1 m.2)

/-- A document has no more values than the tree has nodes. -/
theorem Depicts.count_le {t : Tree} {id : Nat} {j : Json} (wf : t.WellFormed)
    (existing : id < t.size) (h : t.Depicts id j) : j.count ≤ t.size := by
  obtain ⟨ids, hlen, hnodup, hbelow⟩ := h.fills wf
  have inside : ids ⊆ List.range t.size := by
    intro d hd
    exact List.mem_range.2 ((hbelow d hd).lt_size wf existing)
  have := (List.subperm_of_subset hnodup inside).length_le
  rwa [hlen, List.length_range] at this

end Tree

end SpanTree
