import SpanTree.Proofs.Presenting

/-!
# Values that have a place in a tree

Which values a presenter has a place for, and how the size of a value carries over to what is
presented for it.

* `Value.Placeable`, `present_plain`: values that a presenter has a place for are presented as plain
  values;
* `Value.height`, `Value.count`: how deep a value reaches and how many values it consists of;
* `presents_size`: what is presented for a value reaches as deep and consists of as many.
-/

namespace SpanTree

inductive Value.Placeable (p : Presenter) : Value → Prop
  | null (h : p.takesNull = true) : Placeable p .null
  | boolean (b : Bool) : Placeable p (.boolean b)
  | number (x : Binary64) : Placeable p (.number x)
  | integer (n : Int) : Placeable p (.integer n)
  | string (t : Text) : Placeable p (.string t)
  | date {d : DateValue} {kind : TemporalKind} {t : Text} (h : p.classify d = .ok (kind, t)) :
      Placeable p (.date d)
  | array {items : List Value} (h : ∀ item ∈ items, Placeable p item) : Placeable p (.array items)
  | object {bare : Bool} {members : List (Text × Value)} (h : ∀ m ∈ members, Placeable p m.2) :
      Placeable p (.object bare members)

/-- A listing without an error gives all its parts. -/
theorem allOrError_parts {α β : Type} {P : β → Prop} {listing : List (α × Except Raised β)}
    (h : ∀ e ∈ listing, ∃ b, e.2 = .ok b ∧ P b) :
    ∃ parts, allOrError listing = .ok parts ∧ ∀ part ∈ parts, P part.2 := by
  induction listing with
  | nil => exact ⟨[], rfl, nofun⟩
  | cons first rest ih =>
    obtain ⟨a, part⟩ := first
    obtain ⟨b, rfl, hb⟩ := h _ List.mem_cons_self
    obtain ⟨parts, all, hparts⟩ := ih fun e he => h e (List.mem_cons_of_mem _ he)
    refine ⟨(a, b) :: parts, ?_, List.forall_mem_cons.2 ⟨hb, hparts⟩⟩
    rw [allOrError, all]
    rfl

namespace Presenter

variable {p : Presenter} {v : Value} {src : Source}

/-- A value that the presenter has a place for is presented as a plain one. -/
theorem present_plain (h : v.Placeable p) : ∃ src, p.present v = .ok src ∧ src.Plain := by
  induction h with
  | null takes =>
    refine ⟨.scalar .null, ?_, .scalar _⟩
    rw [present, if_pos takes]
  | boolean | number | integer | string => exact ⟨_, rfl, .scalar _⟩
  | @date d kind t classified =>
    refine ⟨.scalar (.temporal kind t), ?_, .scalar _⟩
    rw [present, classified]
    rfl
  | @array items _ ih =>
    have each : ∀ e ∈ presentItems p items, ∃ src, e.2 = .ok src ∧ src.Plain := by
      rw [presentItems_eq]
      intro e he
      obtain ⟨item, hi, rfl⟩ := List.mem_map.1 he
      exact ih item hi
    obtain ⟨parts, all, plain⟩ := allOrError_parts each
    refine ⟨.ofItems (parts.map (·.2)), by rw [present, all]; rfl, .array ?_⟩
    intro part hp
    obtain ⟨entry, he, rfl⟩ := List.mem_map.1 hp
    exact plain entry he
  | @object bare members _ ih =>
    have each : ∀ e ∈ Members.enumerate (presentMembers p members),
        ∃ src, e.2 = .ok src ∧ src.Plain := by
      rw [presentMembers_eq]
      intro e he
      obtain ⟨m, hm, rfl⟩ := List.mem_map.1 ((Members.enumerate_perm _).mem_iff.1 he)
      exact ih m hm
    obtain ⟨parts, all, plain⟩ := allOrError_parts each
    exact ⟨.ofMembers parts, by rw [present, all]; rfl, .table plain⟩

end Presenter

theorem Value.Simple.placeable {v : Value} (h : v.Simple) : v.Placeable .json := by
  induction h with
  | null => exact .null rfl
  | boolean b => exact .boolean b
  | number x => exact .number x
  | string t => exact .string t
  | array _ ih => exact .array ih
  | object _ _ ih => exact .object ih

/-! ## Sizes of values -/

namespace Value

mutual

/-- How many levels a value has below its topmost one; an empty container has none. -/
def height : Value → Nat
  | array items => itemsHeight items
  | object _ members => membersHeight members
  | _ => 0

def itemsHeight : List Value → Nat
  | [] => 0
  | item :: rest => max (item.height + 1) (itemsHeight rest)

def membersHeight : List (Text × Value) → Nat
  | [] => 0
  | (_, value) :: rest => max (value.height + 1) (membersHeight rest)

end

mutual

/-- How many values a value consists of, itself included. -/
def count : Value → Nat
  | array items => 1 + itemsCount items
  | object _ members => 1 + membersCount members
  | _ => 1

/-- How many values the items of an array consist of. -/
def itemsCount : List Value → Nat
  | [] => 0
  | item :: rest => item.count + itemsCount rest

/-- How many values the members of an object consist of. -/
def membersCount : List (Text × Value) → Nat
  | [] => 0
  | (_, value) :: rest => value.count + membersCount rest

end

theorem membersHeight_eq (members : List (Text × Value)) :
    membersHeight members = itemsHeight (members.map (·.2)) := by
  induction members with
  | nil => rfl
  | cons member rest ih => simp [membersHeight, itemsHeight, ih]

theorem membersCount_eq (members : List (Text × Value)) :
    membersCount members = itemsCount (members.map (·.2)) := by
  induction members with
  | nil => rfl
  | cons member rest ih => simp [membersCount, itemsCount, ih]

theorem itemsHeight_perm {a b : List Value} (h : a.Perm b) : itemsHeight a = itemsHeight b := by
  induction h with
  | nil => rfl
  | cons item _ ih => rw [itemsHeight, itemsHeight, ih]
  | swap item item' rest =>
    simp only [itemsHeight]
    exact Nat.max_left_comm _ _ _
  | trans _ _ ih ih' => exact ih.trans ih'

theorem itemsCount_perm {a b : List Value} (h : a.Perm b) : itemsCount a = itemsCount b := by
  induction h with
  | nil => rfl
  | cons item _ ih => rw [itemsCount, itemsCount, ih]
  | swap item item' rest =>
    simp only [itemsCount]
    exact Nat.add_left_comm _ _ _
  | trans _ _ ih ih' => exact ih.trans ih'

/-- A bound on the levels of all items bounds what they add. -/
theorem itemsHeight_le {items : List Value} {n : Nat}
    (h : ∀ item ∈ items, item.height < n) : itemsHeight items ≤ n := by
  induction items with
  | nil => exact Nat.zero_le n
  | cons item rest ih =>
    rw [itemsHeight]
    exact Nat.max_le.2 ⟨h item List.mem_cons_self, ih fun v hv => h v (List.mem_cons_of_mem _ hv)⟩

end Value

namespace Presenter

variable {p : Presenter} {v : Value} {src : Source}

/-- Items of which each is presented as one of the same size are so together. -/
theorem itemsSize_eq {items : List Value} {parts : List Source}
    (same : items.map p.present = parts.map .ok)
    (each : ∀ item ∈ items, ∀ part ∈ parts, p.present item = .ok part →
      part.height = item.height ∧ part.count = item.count) :
    Source.itemsHeight parts = Value.itemsHeight items ∧
      Source.itemsCount parts = Value.itemsCount items := by
  induction items generalizing parts with
  | nil =>
    cases parts with
    | nil => exact ⟨rfl, rfl⟩
    | cons part parts => cases same
  | cons item items ih =>
    cases parts with
    | nil => cases same
    | cons part parts =>
      obtain ⟨here, rest⟩ := List.cons.inj same
      obtain ⟨height, count⟩ := each item List.mem_cons_self part List.mem_cons_self here
      obtain ⟨heights, counts⟩ := ih rest fun item hi part hp =>
        each item (List.mem_cons_of_mem _ hi) part (List.mem_cons_of_mem _ hp)
      rw [Source.itemsHeight, Value.itemsHeight, Source.itemsCount, Value.itemsCount, height, count,
        heights, counts]
      exact ⟨rfl, rfl⟩

/-- What is presented for a value reaches as deep and consists of as many values. -/
theorem presents_size (h : p.Presents v src) :
    src.height = v.height ∧ src.count = v.count := by
  induction h with
  | null | boolean | number | integer | string | date => exact ⟨rfl, rfl⟩
  | array same _ ih =>
    obtain ⟨height, count⟩ := itemsSize_eq same ih
    exact ⟨height, congrArg (1 + ·) count⟩
  | @object bare members parts same _ ih =>
    -- The members are listed in another order, which changes no size.
    have listed : ((Members.enumerate members).map (·.2)).map p.present =
        (parts.map (·.2)).map .ok := by
      rw [Members.enumerate_map] at same
      have values := congrArg (List.map (·.2)) same
      rw [Members.mapValues, Members.mapValues, List.map_map, List.map_map] at values
      rw [List.map_map, List.map_map]
      exact values
    have perm := (Members.enumerate_perm members).map (·.2)
    obtain ⟨height, count⟩ := itemsSize_eq listed (by
      intro v hv part hp presented
      obtain ⟨m, hm, rfl⟩ := List.mem_map.1 (perm.mem_iff.1 hv)
      obtain ⟨entry, he, rfl⟩ := List.mem_map.1 hp
      exact ih m hm entry he presented)
    rw [Source.ofMembers, Source.height, Source.count, Value.height, Value.count,
      Source.membersHeight_eq, Source.membersCount_eq, Value.membersHeight_eq,
      Value.membersCount_eq, height, count, Value.itemsHeight_perm perm, Value.itemsCount_perm perm]
    exact ⟨rfl, rfl⟩

end Presenter

end SpanTree
