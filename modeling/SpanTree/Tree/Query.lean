import SpanTree.Failing

/-!
# The document tree

A tree is an arena of bytes and a table of nodes over it. A node is named by its place in the table,
the root being node 0. Callers name a node by any number, and a query fails where there is none.

* `Tree.new`, `Tree.create`: trees of one unset node;
* `Tree.nodeM`: the node of an id, and `Tree.kindM`, `Tree.keyTextM`, `Tree.valueTextM`,
  `Tree.childrenM` and their like: what it holds;
* `Tree.childAtM`, `Tree.childWithKeyM`: the child at a position and the first with a key;
* `Tree.stepM`, `Tree.followM`: from node to node down a path;
* `Tree.node` and its like: the same where a failure is the result.
-/

namespace SpanTree

/-- An arena and the nodes over it. -/
structure Tree where
  arena : Arena
  nodes : Array Node

namespace Tree

/-- A tree of one unset node over an arena. -/
def ofArena (arena : Arena) : Tree := ⟨arena, #[{}]⟩

def new : Tree := ofArena .new

/-- A tree of one unset node, with room for a number of bytes. -/
def create (capacity : Binary64) : Except ArenaFault Tree := (Arena.create capacity).map ofArena

def size (t : Tree) : Nat := t.nodes.size

def node? (t : Tree) : Quantity → Option Node
  | .natural n => t.nodes[n]?
  | .irregular _ => none

/-- The text of a span. What an arena refuses is no matter of reports. -/
def text (t : Tree) (span : Span) : Except Failure Text := (t.arena.text span).mapError .arena

section
variable {m : Type → Type} [Monad m] [Failing m]

open Failing (fail abort raising)

@[specialize] def nodeM (t : Tree) (id : Quantity) : m Node :=
  match t.node? id with
  | some n => pure n
  | none => fail (.unknownNode id t.size)

@[specialize] def kindM (t : Tree) (id : Quantity) : m Kind := do return (← t.nodeM id).kind

/-- The span of a node's key, blank where it has none. -/
@[specialize] def keyM (t : Tree) (id : Quantity) : m (Slot Span) := do return (← t.nodeM id).key

/-- The span of a node's value, blank where it has none. -/
@[specialize] def valueM (t : Tree) (id : Quantity) : m (Slot Span) := do
  return (← t.nodeM id).value

/-- The text of the span in a slot; a blank one fails as it is told to. -/
@[specialize] def slotTextM (t : Tree) (blank : Failure) : Slot Span → m Text
  | .known span => raising (t.text span)
  | .blank => fail blank
  | .missing => abort .missingValue

@[specialize] def keyTextM (t : Tree) (id : Quantity) : m Text := do
  t.slotTextM (.noKey id) (← t.keyM id)

@[specialize] def valueTextM (t : Tree) (id : Quantity) : m Text := do
  t.slotTextM (.noValue id) (← t.valueM id)

/-- Whether a node has all flags of a mask. The mask is read as a 32-bit word, and a number that is
not its own word is never matched. -/
@[specialize] def isFlaggedM (t : Tree) (id : Quantity) (mask : Binary64) : m Bool := do
  return mask.toInt? = some ((← t.nodeM id).flags &&& mask.toInt32).toInt

@[specialize] def parentM (t : Tree) (id : Quantity) : m (Option Nat) := do
  return (← t.nodeM id).parent

@[specialize] def childrenM (t : Tree) (id : Quantity) : m (Array Nat) := do
  return (← t.nodeM id).children

@[specialize] def childAtM (t : Tree) (id position : Quantity) : m (Option Nat) := do
  let n ← t.nodeM id
  return position.toNat?.bind (n.children[·]?)

@[specialize] def firstWithKeyM (t : Tree) (key : Text) : List Nat → m (Option Nat)
  | [] => pure none
  | c :: rest => do
    match ← t.keyM (.natural c) with
    | .blank => firstWithKeyM t key rest
    | .missing => abort .missingValue
    | .known span =>
      if (← raising (t.text span)) = key then return some c else firstWithKeyM t key rest

@[specialize] def childWithKeyM (t : Tree) (id : Quantity) (key : Text) : m (Option Nat) := do
  t.firstWithKeyM key (← t.childrenM id).toList

@[specialize] def childM (t : Tree) (id : Quantity) : Step → m (Option Nat)
  | .key key => t.childWithKeyM id key
  | .position position => t.childAtM id position

@[specialize] def stepM (t : Tree) (id : Quantity) (s : Step) : m Quantity := do
  match ← t.childM id s with
  | some c => return .natural c
  | none => fail (.noChild id s)

@[specialize] def followM (t : Tree) (id : Quantity) : List Step → m Quantity
  | [] => pure id
  | s :: rest => do t.followM (← t.stepM id s) rest

end

/-! ## Answers or failures -/

def node (t : Tree) (id : Quantity) : Except Failure Node := t.nodeM id

def kind (t : Tree) (id : Quantity) : Except Failure Kind := t.kindM id

def key (t : Tree) (id : Quantity) : Except Failure (Slot Span) := t.keyM id

def value (t : Tree) (id : Quantity) : Except Failure (Slot Span) := t.valueM id

def slotText (t : Tree) (blank : Failure) (slot : Slot Span) : Except Failure Text :=
  t.slotTextM blank slot

def keyText (t : Tree) (id : Quantity) : Except Failure Text := t.keyTextM id

def valueText (t : Tree) (id : Quantity) : Except Failure Text := t.valueTextM id

def isFlagged (t : Tree) (id : Quantity) (mask : Binary64) : Except Failure Bool :=
  t.isFlaggedM id mask

def isQuoted (t : Tree) (id : Quantity) : Except Failure Bool := (t.node id).map Node.isQuoted

def parent (t : Tree) (id : Quantity) : Except Failure (Option Nat) := t.parentM id

def children (t : Tree) (id : Quantity) : Except Failure (Array Nat) := t.childrenM id

def childAt (t : Tree) (id position : Quantity) : Except Failure (Option Nat) :=
  t.childAtM id position

def firstWithKey (t : Tree) (key : Text) (children : List Nat) : Except Failure (Option Nat) :=
  t.firstWithKeyM key children

def childWithKey (t : Tree) (id : Quantity) (key : Text) : Except Failure (Option Nat) :=
  t.childWithKeyM id key

def child? (t : Tree) (id : Quantity) (s : Step) : Except Failure (Option Nat) := t.childM id s

def step (t : Tree) (id : Quantity) (s : Step) : Except Failure Quantity := t.stepM id s

def follow (t : Tree) (id : Quantity) (path : List Step) : Except Failure Quantity :=
  t.followM id path

theorem node_def (t : Tree) (id : Quantity) :
    t.node id = match t.node? id with
      | some n => .ok n
      | none => .error (.unknownNode id t.size) := by
  unfold node nodeM
  cases t.node? id <;> rfl

theorem kind_def (t : Tree) (id : Quantity) : t.kind id = (t.node id).map (·.kind) := rfl

theorem key_def (t : Tree) (id : Quantity) : t.key id = (t.node id).map (·.key) := rfl

theorem value_def (t : Tree) (id : Quantity) : t.value id = (t.node id).map (·.value) := rfl

theorem children_def (t : Tree) (id : Quantity) :
    t.children id = (t.node id).map (·.children) := rfl

theorem isFlagged_def (t : Tree) (id : Quantity) (mask : Binary64) :
    t.isFlagged id mask =
      (t.node id).map fun n => decide (mask.toInt? = some (n.flags &&& mask.toInt32).toInt) := rfl

theorem childAt_def (t : Tree) (id position : Quantity) :
    t.childAt id position = (t.node id).map fun n => position.toNat?.bind (n.children[·]?) := rfl

@[simp] theorem slotText_known (t : Tree) (blank : Failure) (span : Span) :
    t.slotText blank (.known span) = t.text span := raising_except _

theorem keyText_def (t : Tree) (id : Quantity) :
    t.keyText id = (do t.slotText (.noKey id) (← t.key id)) := rfl

theorem valueText_def (t : Tree) (id : Quantity) :
    t.valueText id = (do t.slotText (.noValue id) (← t.value id)) := rfl

theorem firstWithKey_cons (t : Tree) (key : Text) (c : Nat) (rest : List Nat) :
    t.firstWithKey key (c :: rest) = (do
      match ← t.key (.natural c) with
      | .blank => t.firstWithKey key rest
      | .missing => throw .missingValue
      | .known span =>
        if (← t.text span) = key then return some c else t.firstWithKey key rest) := by
  simp only [firstWithKey, firstWithKeyM, raising_except]
  rfl

theorem childWithKey_def (t : Tree) (id : Quantity) (key : Text) :
    t.childWithKey id key = (do t.firstWithKey key (← t.children id).toList) := rfl

theorem child?_position (t : Tree) (id position : Quantity) :
    t.child? id (.position position) = t.childAt id position := rfl

theorem step_def (t : Tree) (id : Quantity) (s : Step) :
    t.step id s = (do
      match ← t.child? id s with
      | some c => return .natural c
      | none => throw (.noChild id s)) := rfl

theorem follow_step (t : Tree) (id : Quantity) (s : Step) (rest : List Step) :
    t.follow id (s :: rest) = (do t.follow (← t.step id s) rest) := rfl

end Tree

end SpanTree
