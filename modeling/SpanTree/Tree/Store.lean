import SpanTree.Tree.Edit
import SpanTree.Source

/-!
# Storing a source value

`Tree.storeM` writes a source value into a node and below it: a table makes a map of keyed
children, an array a seq of keyless children, a scalar a scalar. The node keeps the key it has.

* `Pending`: a value still to be written, with its node and its depth below the target;
* `Tree.putM`: writes one value and adds an empty child for each of its members, in order;
* `Pending.children`: the members that are then left to be written;
* `Tree.writeAllM`: writes pending values in document order, the depth limit coming before all else.

What was written before a failure stays.
-/

namespace SpanTree

structure Pending where
  value : Source
  node : Quantity
  depth : Nat

/-- The items of an array or the members of a table, without their keys. -/
def Source.parts : Source → List Source
  | .table members _ => members.map (·.2)
  | .array items _ => items
  | _ => []

def Pending.consecutive (depth : Nat) : List Source → Nat → List Pending
  | [], _ => []
  | value :: rest, first => ⟨value, .natural first, depth⟩ :: consecutive depth rest (first + 1)

/-- What is left to be written of a value whose first member went to node `first`. -/
def Pending.children (item : Pending) (first : Nat) : List Pending :=
  Pending.consecutive (item.depth + 1) item.value.parts first

namespace Tree

section
variable {m : Type → Type} [Monad m] [Editing m]

open Failing (fail abort)
open Editing (called)

@[specialize] def addMembersM (node : Quantity) : List Text → m Unit
  | [] => pure ()
  | key :: rest => do
    let child ← addChildM node
    let span ← copyM key
    makeScalarM (.natural child) (.known span) .blank
    addMembersM node rest

@[specialize] def addItemsM (node : Quantity) : Nat → m Unit
  | 0 => pure ()
  | count + 1 => do
    let _ ← addChildM node
    addItemsM node count

/-- Passes on the error of a listing that broke off. -/
@[specialize] def finishM : Ending → m Unit
  | .complete => pure ()
  | .broken error => abort (.interrupted error)

/-- Stores a scalar; its text is copied before the node is looked at. -/
@[specialize] def putScalarM (node : Quantity) (value : Scalar) : m Unit := do
  let span ← copyM value.text
  let key ← askM (·.keyM node)
  makeScalarM node key (.known span)
  if value.isQuoted then
    called (.flag node (.ofNat 1)) (flagM node Node.quotedFlag)

/-- Writes one value, and answers the id of the first child that this adds. -/
@[specialize] def putM (node : Quantity) : Source → m Nat
  | .table members ending => do
    let key ← askM (·.keyM node)
    makeMapM node key
    let first ← askM (pure ·.size)
    addMembersM node (members.map (·.1))
    finishM ending
    return first
  | .array items ending => do
    let key ← askM (·.keyM node)
    makeSeqM node key
    let first ← askM (pure ·.size)
    addItemsM node items.length
    finishM ending
    return first
  | .scalar value => do
    putScalarM node value
    return 0
  | .unsupported description => fail (.unsupported description node)
  | .unknown kind => fail (.unknownKind kind node)
  | .absent => abort .missingValue

end

noncomputable def totalSize : List Source → Nat
  | [] => 0
  | value :: rest => sizeOf value + totalSize rest

theorem totalSize_append (a b : List Source) : totalSize (a ++ b) = totalSize a + totalSize b := by
  induction a with
  | nil => simp [totalSize]
  | cons value rest ih => simp [totalSize, ih, Nat.add_assoc]

theorem totalSize_le (values : List Source) : totalSize values ≤ sizeOf values := by
  induction values with
  | nil => simp [totalSize]
  | cons value rest ih => simp [totalSize]; omega

theorem totalSize_members_le (members : List (Text × Source)) :
    totalSize (members.map (·.2)) ≤ sizeOf members := by
  induction members with
  | nil => simp [totalSize]
  | cons member rest ih =>
    obtain ⟨key, value⟩ := member
    simp [totalSize]
    omega

/-- The parts of a value are together smaller than the value. -/
theorem totalSize_parts_lt (value : Source) : totalSize value.parts < sizeOf value := by
  cases value with
  | table members ending =>
    have := totalSize_members_le members
    simp only [Source.parts, Source.table.sizeOf_spec]
    omega
  | array items ending =>
    have := totalSize_le items
    simp only [Source.parts, Source.array.sizeOf_spec]
    omega
  | scalar | unsupported | unknown =>
    simp only [Source.parts, totalSize, Source.scalar.sizeOf_spec, Source.unsupported.sizeOf_spec,
      Source.unknown.sizeOf_spec]
    omega
  | absent => simp [Source.parts, totalSize]

/-- The nodes that values go to leave the values as they are. -/
theorem map_value_consecutive (depth : Nat) (values : List Source) (first : Nat) :
    (Pending.consecutive depth values first).map (·.value) = values := by
  induction values generalizing first with
  | nil => rfl
  | cons value rest ih => simp [Pending.consecutive, ih]

section
variable {m : Type → Type} [Monad m] [Editing m]

/-- Writes the pending values from first to last, the children of a value directly after it. -/
@[specialize] def writeAllM (limit : Quantity) : List Pending → m Unit
  | [] => pure ()
  | item :: rest => do
    if limit.exceededBy item.depth then
      Failing.fail (.tooDeep limit item.node)
    let first ← putM item.node item.value
    writeAllM limit (item.children first ++ rest)
termination_by stack => totalSize (stack.map (·.value))
decreasing_by
  have := totalSize_parts_lt item.value
  simp only [Pending.children, List.map_append, map_value_consecutive, totalSize_append,
    List.map_cons, totalSize]
  omega

/-- Writes a value into a node, refusing whatever lies more than `limit` levels below it. -/
@[specialize] def storeM (value : Source) (node : Quantity) (limit : Quantity) : m Unit :=
  writeAllM limit [⟨value, node, 0⟩]

end

/-! ## Without a handler -/

def addMembers (node : Quantity) (keys : List Text) : Edit Unit := addMembersM node keys

def addItems (node : Quantity) (count : Nat) : Edit Unit := addItemsM node count

def finish (ending : Ending) : Edit Unit := finishM ending

def putScalar (node : Quantity) (value : Scalar) : Edit Unit := putScalarM node value

def put (node : Quantity) (value : Source) : Edit Nat := putM node value

def writeAll (limit : Quantity) (stack : List Pending) : Edit Unit := writeAllM limit stack

def store (value : Source) (node : Quantity) (limit : Quantity) : Edit Unit :=
  storeM value node limit

theorem addMembers_cons (node : Quantity) (key : Text) (rest : List Text) :
    addMembers node (key :: rest) = (do
      let child ← addChild node
      let span ← copy key
      makeScalar (.natural child) (.known span) .blank
      addMembers node rest : Edit Unit) := rfl

theorem addItems_succ (node : Quantity) (count : Nat) :
    addItems node (count + 1) = (do
      let _ ← addChild node
      addItems node count : Edit Unit) := rfl

theorem putScalar_def (node : Quantity) (value : Scalar) :
    putScalar node value = (do
      let span ← copy value.text
      let key ← Edit.ask (·.key node)
      makeScalar node key (.known span)
      if value.isQuoted then flag node Node.quotedFlag : Edit Unit) := by
  rw [← askM_keyM]
  rfl

theorem put_table (node : Quantity) (members : List (Text × Source)) (ending : Ending) :
    put node (.table members ending) = (do
      let key ← Edit.ask (·.key node)
      makeMap node key
      let first ← Edit.ask fun t => .ok t.size
      addMembers node (members.map (·.1))
      finish ending
      return first : Edit Nat) := by
  rw [← askM_keyM]
  rfl

theorem put_array (node : Quantity) (items : List Source) (ending : Ending) :
    put node (.array items ending) = (do
      let key ← Edit.ask (·.key node)
      makeSeq node key
      let first ← Edit.ask fun t => .ok t.size
      addItems node items.length
      finish ending
      return first : Edit Nat) := by
  rw [← askM_keyM]
  rfl

theorem put_scalar (node : Quantity) (value : Scalar) :
    put node (.scalar value) = (do putScalar node value; return 0 : Edit Nat) := rfl

theorem store_def (value : Source) (node limit : Quantity) :
    store value node limit = writeAll limit [⟨value, node, 0⟩] := rfl

theorem writeAll_nil (limit : Quantity) : writeAll limit [] = pure () := by
  rw [writeAll, writeAllM]

theorem writeAll_def (limit : Quantity) (item : Pending) (rest : List Pending) (t : Tree) :
    writeAll limit (item :: rest) t =
      if limit.exceededBy item.depth then (.error (.tooDeep limit item.node), t)
      else match put item.node item.value t with
        | (.error f, t) => (.error f, t)
        | (.ok first, t) => writeAll limit (item.children first ++ rest) t := by
  rw [writeAll, writeAllM]
  by_cases deep : limit.exceededBy item.depth
  · simp only [if_pos deep]
    exact Edit.bind_error (Edit.fail_at _ t)
  · simp only [if_neg deep]
    cases wrote : put item.node item.value t with | mk r t' =>
    cases r with
    | error f => exact Edit.bind_error wrote
    | ok first => exact Edit.bind_ok wrote

end Tree

end SpanTree
