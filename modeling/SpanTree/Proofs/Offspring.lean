import SpanTree.Proofs.Allocation
import SpanTree.Proofs.Footprint
import SpanTree.Proofs.Recursion

/-!
# The nodes of a value

The nodes that a value makes of itself and of its parts, worked out from the value alone: a
recursion lists them in the order of their ids, with the spans of all texts.

* `Source.record`: the node of a value, from its key and from where its children and its text are;
* `Source.offspring`: the nodes below it, the children of a container in one block and then, child
  by child, what is below them;
* `Source.inscription`: the texts of a value in the order in which they are added, and
  `Span.ofTexts` their spans, which lie one behind the other (`tile_ofTexts`);
* `spans_offspring`: the keys and values of the nodes of a value are these spans.
-/

namespace SpanTree

def Span.ofText (place : Nat) (text : Text) : Span :=
  ⟨.natural place, .natural (Utf8.encode text).length⟩

/-- The spans of texts that are added one after another from a place on. -/
def Span.ofTexts : Nat → List Text → List Span
  | _, [] => []
  | place, text :: rest => ofText place text :: ofTexts (place + (Utf8.encode text).length) rest

def Node.spans (n : Node) : List Span := n.key.value?.toList ++ n.value.value?.toList

namespace Source

/-! ## Nodes -/

def kind : Source → Kind
  | table _ _ => .map
  | array _ _ => .seq
  | _ => .scalar

def flags : Source → BitVec 32
  | scalar value => if value.isQuoted then Node.quotedFlag else 0
  | _ => 0

/-- The value of the node of a value whose text is at a place. -/
def slot (place : Nat) : Source → Slot Span
  | scalar value => .known (.ofText place value.text)
  | _ => .blank

/-- The node of a value whose children begin with node `next` and whose text is at a place. -/
def record (value : Source) (parent : Option Nat) (key : Slot Span) (next place : Nat) : Node where
  kind := value.kind
  flags := value.flags
  key := key
  value := value.slot place
  parent := parent
  children := (List.range' next value.parts.length).toArray

/-- The keys of the children of a value whose texts begin at a place. -/
def partKeys (place : Nat) : Source → List (Slot Span)
  | table members _ => (Span.ofTexts place (members.map (·.1))).map .known
  | array items _ => items.map fun _ => .blank
  | _ => []

/-- The nodes of values that are siblings. What is below them begins with node `next` and at a
place, and what is below one of them comes before what is below the next one. -/
def block (parent : Nat) : List (Slot Span) → List Source → Nat → Nat → List Node
  | key :: keys, value :: rest, next, place =>
    value.record (some parent) key next place ::
      block parent keys rest (next + (value.count - 1)) (place + value.footprint.length)
  | _, _, _, _ => []

mutual

/-- The nodes below the node `id` of a value, if they begin with node `next` and its texts at a
place. -/
def offspring : Source → Nat → Nat → Nat → List Node
  | table members ending, id, next, place =>
    let inner := next + members.length
    let inside := place + ((members.map (·.1)).flatMap Utf8.encode).length
    block id ((table members ending).partKeys place) (members.map (·.2)) inner inside ++
      membersOffspring members next inner inside
  | array items ending, id, next, place =>
    let inner := next + items.length
    block id ((array items ending).partKeys place) items inner place ++
      itemsOffspring items next inner place
  | _, _, _, _ => []

/-- The nodes below those of the members of a table, which begin with node `first`. -/
def membersOffspring : List (Text × Source) → Nat → Nat → Nat → List Node
  | [], _, _, _ => []
  | (_, value) :: rest, first, next, place =>
    value.offspring first next place ++ membersOffspring rest (first + 1)
      (next + (value.count - 1)) (place + value.footprint.length)

/-- The nodes below those of the items of an array, which begin with node `first`. -/
def itemsOffspring : List Source → Nat → Nat → Nat → List Node
  | [], _, _, _ => []
  | value :: rest, first, next, place =>
    value.offspring first next place ++ itemsOffspring rest (first + 1)
      (next + (value.count - 1)) (place + value.footprint.length)

end

mutual

/-- The texts of a value in the order in which they are added: its own, and then those of its parts
one after another. -/
def inscription : Source → List Text
  | table members _ => members.map (·.1) ++ membersInscription members
  | array items _ => itemsInscription items
  | scalar value => [value.text]
  | _ => []

/-- The texts of the members of a table, without their keys. -/
def membersInscription : List (Text × Source) → List Text
  | [] => []
  | (_, value) :: rest => value.inscription ++ membersInscription rest

def itemsInscription : List Source → List Text
  | [] => []
  | value :: rest => value.inscription ++ itemsInscription rest

end

variable {value : Source} {id first next place : Nat}

theorem membersOffspring_eq (members : List (Text × Source)) (first next place : Nat) :
    membersOffspring members first next place =
      itemsOffspring (members.map (·.2)) first next place := by
  induction members generalizing first next place with
  | nil => rfl
  | cons m rest ih => rw [membersOffspring, List.map_cons, itemsOffspring, ih]

theorem membersInscription_eq (members : List (Text × Source)) :
    membersInscription members = itemsInscription (members.map (·.2)) := by
  induction members with
  | nil => rfl
  | cons m rest ih => rw [membersInscription, List.map_cons, itemsInscription, ih]

theorem inscription_eq (value : Source) :
    value.inscription = value.texts ++ itemsInscription value.parts := by
  cases value <;>
    simp [inscription, texts, parts, itemsInscription, membersInscription_eq]

/-- Below a value are its parts, and behind them what is below the parts. -/
theorem offspring_eq (value : Source) (id next place : Nat) :
    value.offspring id next place =
      block id (value.partKeys place) value.parts (next + value.parts.length)
        (place + (value.texts.flatMap Utf8.encode).length) ++
      itemsOffspring value.parts next (next + value.parts.length)
        (place + (value.texts.flatMap Utf8.encode).length) := by
  cases value <;>
    simp [offspring, block, parts, partKeys, texts, itemsOffspring, membersOffspring_eq]

theorem length_partKeys (value : Source) (place : Nat) :
    (value.partKeys place).length = value.parts.length := by
  have length (place : Nat) (texts : List Text) :
      (Span.ofTexts place texts).length = texts.length := by
    induction texts generalizing place with
    | nil => rfl
    | cons text rest ih => rw [Span.ofTexts, List.length_cons, ih, List.length_cons]
  cases value <;> simp [partKeys, parts, length]

theorem length_block (parent : Nat) {keys : List (Slot Span)} {values : List Source}
    (length : keys.length = values.length) (next place : Nat) :
    (block parent keys values next place).length = values.length := by
  induction values generalizing keys next place with
  | nil =>
    rw [List.eq_nil_of_length_eq_zero length]
    rfl
  | cons value rest ih =>
    obtain ⟨key, keys, rfl⟩ := List.exists_cons_of_length_eq_add_one length
    rw [block, List.length_cons, ih (Nat.succ.inj length), List.length_cons]

theorem count_pos (value : Source) : 0 < value.count := by
  rw [count_eq]
  omega

theorem length_itemsOffspring {values : List Source}
    (each : ∀ value ∈ values, ∀ id next place,
      (value.offspring id next place).length = value.count - 1) (first next place : Nat) :
    values.length + (itemsOffspring values first next place).length = itemsCount values := by
  induction values generalizing first next place with
  | nil => rfl
  | cons value rest ih =>
    obtain ⟨here, others⟩ := List.forall_mem_cons.1 each
    have := value.count_pos
    have := ih others (first + 1) (next + (value.count - 1)) (place + value.footprint.length)
    rw [itemsOffspring, List.length_append, here, itemsCount, List.length_cons]
    omega

/-- Each value but the topmost one has a node below the topmost one. -/
theorem length_offspring (value : Source) (id next place : Nat) :
    (value.offspring id next place).length = value.count - 1 := by
  induction value using Source.descend generalizing id next place with
  | parts value ih =>
    rw [offspring_eq, List.length_append, length_block _ (length_partKeys value place), count_eq,
      length_itemsOffspring ih, Nat.add_sub_cancel_left]

/-! ## Texts -/

theorem itemsFootprint_inscription {values : List Source}
    (each : ∀ value ∈ values, value.footprint = value.inscription.flatMap Utf8.encode) :
    itemsFootprint values = (itemsInscription values).flatMap Utf8.encode := by
  induction values with
  | nil => rfl
  | cons value rest ih =>
    obtain ⟨here, others⟩ := List.forall_mem_cons.1 each
    rw [itemsFootprint, itemsInscription, List.flatMap_append, here, ih others]

/-- The bytes of a value are those of its texts. -/
theorem footprint_inscription (value : Source) :
    value.footprint = value.inscription.flatMap Utf8.encode := by
  induction value using Source.descend with
  | parts value ih =>
    rw [footprint_eq, inscription_eq, List.flatMap_append, itemsFootprint_inscription ih]

end Source

/-- Spans of texts that are added one after another lie one behind the other. -/
theorem Span.tile_ofTexts (place : Nat) (texts : List Text) :
    Tile place (ofTexts place texts) (place + (texts.flatMap Utf8.encode).length) := by
  induction texts generalizing place with
  | nil => rfl
  | cons text rest ih =>
    refine ⟨(Utf8.encode text).length, rfl, ?_⟩
    rw [List.flatMap_cons, List.length_append, ← Nat.add_assoc]
    exact ih _

theorem Span.ofTexts_append (place : Nat) (texts more : List Text) :
    ofTexts place (texts ++ more) =
      ofTexts place texts ++ ofTexts (place + (texts.flatMap Utf8.encode).length) more := by
  induction texts generalizing place with
  | nil => rfl
  | cons text rest ih =>
    rw [List.cons_append, ofTexts, ofTexts, ih, List.flatMap_cons, List.length_append,
      ← Nat.add_assoc, List.cons_append]

namespace Source

/-- The texts of a value by itself are the keys of its parts or its own value. -/
theorem spans_texts (value : Source) (place : Nat) :
    (value.slot place).value?.toList ++ (value.partKeys place).flatMap (·.value?.toList) =
      Span.ofTexts place value.texts := by
  have known (spans : List Span) :
      (spans.map Slot.known).flatMap (·.value?.toList) = spans := by
    induction spans with
    | nil => rfl
    | cons span rest ih => rw [List.map_cons, List.flatMap_cons, ih]; rfl
  cases value with
  | table members ending => exact known _
  | array items ending => simp [slot, partKeys, texts, Slot.value?, Span.ofTexts]
  | scalar value => rfl
  | unsupported | unknown | absent => rfl

/-- The spans of siblings and of all nodes below them are those of the keys and of the texts of the
siblings. They are not in this order: the nodes of the siblings come before those below them. -/
theorem spans_siblings {values : List Source}
    (each : ∀ value ∈ values, ∀ id next place,
      ((value.slot place).value?.toList ++
        (value.offspring id next place).flatMap Node.spans).Perm
      (Span.ofTexts place value.inscription))
    {keys : List (Slot Span)} (length : keys.length = values.length)
    (parent first next place : Nat) :
    ((block parent keys values next place).flatMap Node.spans ++
      (itemsOffspring values first next place).flatMap Node.spans).Perm
    (keys.flatMap (·.value?.toList) ++ Span.ofTexts place (itemsInscription values)) := by
  induction values generalizing keys first next place with
  | nil =>
    rw [List.eq_nil_of_length_eq_zero length]
    exact .refl _
  | cons value rest ih =>
    obtain ⟨key, keys, rfl⟩ := List.exists_cons_of_length_eq_add_one length
    obtain ⟨here, others⟩ := List.forall_mem_cons.1 each
    have head := here first next place
    have tail := ih others (Nat.succ.inj length) (first + 1) (next + (value.count - 1))
      (place + value.footprint.length)
    rw [List.perm_iff_count] at head tail ⊢
    intro span
    have head := head span
    have tail := tail span
    rw [block, itemsOffspring, itemsInscription, Span.ofTexts_append, ← footprint_inscription]
    simp only [List.flatMap_cons, List.flatMap_append, List.count_append, Node.spans,
      record] at head tail ⊢
    omega

/-- The spans of a value and of all nodes below it are those of its texts. -/
theorem spans_offspring (value : Source) (id next place : Nat) :
    ((value.slot place).value?.toList ++ (value.offspring id next place).flatMap Node.spans).Perm
      (Span.ofTexts place value.inscription) := by
  induction value using Source.descend generalizing id next place with
  | parts value ih =>
    rw [offspring_eq, inscription_eq, Span.ofTexts_append, ← spans_texts, List.flatMap_append,
      List.append_assoc]
    exact (spans_siblings ih (length_partKeys value place) id next _ _).append_left _

end Source

end SpanTree
