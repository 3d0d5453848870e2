import SpanTree.Tree.Store
import SpanTree.Proofs.Storage

/-!
# Mirrors of a value

What it means that the subtree of a node mirrors a source value.

* `Source.Plain`, `Source.height`, `Source.count`: values made of tables, arrays and scalars, how
  deep they reach and how many values they consist of;
* `Pending.stack_induction`: induction over stacks of values;
* `Source.Shown`: a node by itself shows what kind of value it is, or the text of a scalar;
* `Tree.Mirrors`: a node and all below it show a value, part by part.
-/

namespace SpanTree

/-! ## Values -/

/-- Values made of tables, arrays and scalars alone, whose listings do not break off. -/
inductive Source.Plain : Source → Prop
  | scalar (value : Scalar) : Plain (.scalar value)
  | table {members : List (Text × Source)} (h : ∀ m ∈ members, Plain m.2) :
      Plain (.ofMembers members)
  | array {items : List Source} (h : ∀ item ∈ items, Plain item) : Plain (.ofItems items)

namespace Source

mutual

/-- How many levels a value has below its topmost one; an empty container has none. -/
def height : Source → Nat
  | table members _ => membersHeight members
  | array items _ => itemsHeight items
  | _ => 0

def membersHeight : List (Text × Source) → Nat
  | [] => 0
  | (_, value) :: rest => max (value.height + 1) (membersHeight rest)

def itemsHeight : List Source → Nat
  | [] => 0
  | value :: rest => max (value.height + 1) (itemsHeight rest)

end

mutual

/-- How many values a value consists of, itself included. -/
def count : Source → Nat
  | table members _ => 1 + membersCount members
  | array items _ => 1 + itemsCount items
  | _ => 1

/-- How many values the members of a table consist of. -/
def membersCount : List (Text × Source) → Nat
  | [] => 0
  | (_, value) :: rest => value.count + membersCount rest

/-- How many values the items of an array consist of. -/
def itemsCount : List Source → Nat
  | [] => 0
  | value :: rest => value.count + itemsCount rest

end

theorem itemsCount_append (a b : List Source) :
    itemsCount (a ++ b) = itemsCount a + itemsCount b := by
  induction a with
  | nil => simp [itemsCount]
  | cons value rest ih => simp [itemsCount, ih, Nat.add_assoc]

theorem membersCount_eq (members : List (Text × Source)) :
    membersCount members = itemsCount (members.map (·.2)) := by
  induction members with
  | nil => rfl
  | cons member rest ih => simp [membersCount, itemsCount, ih]

theorem count_eq (value : Source) : value.count = 1 + itemsCount value.parts := by
  cases value with
  | table members => simp only [count, parts, membersCount_eq]
  | _ => rfl

theorem membersHeight_eq (members : List (Text × Source)) :
    membersHeight members = itemsHeight (members.map (·.2)) := by
  induction members with
  | nil => rfl
  | cons member rest ih => simp [membersHeight, itemsHeight, ih]

theorem height_parts (value : Source) : value.height = itemsHeight value.parts := by
  cases value with
  | table members => simp only [height, parts, membersHeight_eq]
  | _ => rfl

theorem height_part {value part : Source} (h : part ∈ value.parts) :
    part.height + 1 ≤ value.height := by
  rw [height_parts value]
  generalize value.parts = items at h ⊢
  induction items with
  | nil => cases h
  | cons first rest ih =>
    simp only [itemsHeight]
    rcases List.mem_cons.1 h with rfl | h
    · exact Nat.le_max_left _ _
    · exact Nat.le_trans (ih h) (Nat.le_max_right _ _)

/-- The height comes from a part, where there is any. -/
theorem height_eq (value : Source) :
    value.height = 0 ∨ ∃ part ∈ value.parts, value.height = part.height + 1 := by
  rw [height_parts]
  generalize value.parts = items
  induction items with
  | nil => exact .inl rfl
  | cons first rest ih =>
    right
    simp only [itemsHeight]
    rcases Nat.le_total (itemsHeight rest) (first.height + 1) with le | le
    · exact ⟨first, List.mem_cons_self, Nat.max_eq_left le⟩
    · rcases ih with low | ⟨part, hp, high⟩
      · omega
      · exact ⟨part, List.mem_cons_of_mem _ hp, (Nat.max_eq_right le).trans high⟩

theorem Plain.part {value part : Source} (h : value.Plain) (hp : part ∈ value.parts) :
    part.Plain := by
  cases h with
  | scalar => cases hp
  | table h =>
    obtain ⟨member, hm, rfl⟩ := List.mem_map.1 hp
    exact h member hm
  | array h => exact h part hp

/-- What the parts of a value are called: the members of a table by their keys, and nothing else
by a name. -/
def labels : Source → List (Option Text)
  | table members _ => members.map (some ·.1)
  | array items _ => items.map fun _ => none
  | _ => []

theorem labels_length (value : Source) : value.labels.length = value.parts.length := by
  cases value <;> simp [labels, parts]

/-- The key of a node once a value is stored in it: the key that it had. Where nothing was put in
the place of a key, a container leaves a blank. -/
def keptKey : Source → Slot Span → Slot Span
  | table _ _, key => key.orBlank
  | array _ _, key => key.orBlank
  | _, key => key

/-- A key or its absence is kept by every value. -/
theorem keptKey_eq {value : Source} {key : Slot Span} (h : key ≠ .missing) :
    value.keptKey key = key := by
  cases value <;> cases key <;> first | rfl | exact absurd rfl h

end Source

/-- Induction over stacks as they are written: the parts of a value come before the rest. -/
theorem Pending.stack_induction {motive : List Pending → Prop} (nil : motive [])
    (cons : ∀ (item : Pending) (rest : List Pending),
      (∀ first, motive (item.children first ++ rest)) → motive (item :: rest))
    (stack : List Pending) : motive stack := by
  -- A value counts for itself and for its parts, so the values on the stack become fewer.
  induction hn : Source.itemsCount (stack.map (·.value)) using Nat.strongRecOn
    generalizing stack with
  | ind count ih =>
    cases stack with
    | nil => exact nil
    | cons item rest =>
      refine cons item rest fun first => ih _ ?_ _ rfl
      rw [← hn, List.map_append, Pending.children, Tree.map_value_consecutive,
        Source.itemsCount_append, List.map_cons, Source.itemsCount, Source.count_eq item.value]
      omega

/-! ## Mirrors -/

/-- The slot of a key spells a name, or is blank where there is none. -/
def Arena.Names (a : Arena) (slot : Slot Span) : Option Text → Prop
  | some key => a.Spells slot key
  | none => slot = .blank

theorem Arena.Names.mono {a a' : Arena} {slot : Slot Span} {label : Option Text}
    (hn : a.Names slot label) (h : a.bytes <+: a'.bytes) : a'.Names slot label := by
  cases label with
  | none => exact hn
  | some key => exact Spells.mono hn h

theorem Arena.Names.ne_missing {a : Arena} {slot : Slot Span} {label : Option Text}
    (hn : a.Names slot label) : slot ≠ .missing := by
  cases label with
  | none => rw [show slot = .blank from hn]; nofun
  | some key => obtain ⟨_, _, rfl, _⟩ := hn; nofun

/-- A node shows the kind of a value, and the text of a scalar; only the flag of a string is
set. -/
def Source.Shown (a : Arena) : Source → Node → Prop
  | table _ _, n => n.kind = .map ∧ n.value = .blank ∧ n.flags = 0
  | array _ _, n => n.kind = .seq ∧ n.value = .blank ∧ n.flags = 0
  | scalar value, n => n.kind = .scalar ∧ a.Spells n.value value.text ∧
      n.flags = if value.isQuoted then Node.quotedFlag else 0
  | _, _ => False

theorem Source.Shown.mono {a a' : Arena} {value : Source} {n : Node} (hs : value.Shown a n)
    (h : a.bytes <+: a'.bytes) : value.Shown a' n := by
  cases value with
  | scalar value => exact ⟨hs.1, hs.2.1.mono h, hs.2.2⟩
  | table | array => exact hs
  | unsupported | unknown | absent => exact hs.elim

/-- A node shows a value, and its children one by one show the parts: each has the node for its
parent and the name of its part for its key. -/
inductive Tree.Mirrors (t : Tree) : Source → Nat → Prop
  | intro {value : Source} {id : Nat} {n : Node} (found : t.nodes[id]? = some n)
      (shown : value.Shown t.arena n) (length : n.children.size = value.parts.length)
      (labelled : ∀ (i child : Nat) (label : Option Text), n.children[i]? = some child →
        value.labels[i]? = some label → ∃ c, t.nodes[child]? = some c ∧ c.parent = some id ∧
          t.arena.Names c.key label)
      (below : ∀ (i child : Nat) (part : Source), n.children[i]? = some child →
        value.parts[i]? = some part → Mirrors t part child) : Mirrors t value id

theorem Tree.Mirrors.lt_size {t : Tree} {value : Source} {id : Nat} (h : t.Mirrors value id) :
    id < t.size := by
  cases h with
  | intro found => exact (Array.getElem?_eq_some_iff.1 found).1

end SpanTree
