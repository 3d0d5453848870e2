import SpanTree.Tree.Editing

/-!
# Changes of a tree

* `Tree.addChildM`: an unset node below a map or seq. Nodes are only ever added;
* `Tree.makeMapM`, `Tree.makeSeqM`, `Tree.makeScalarM`: another kind for a node, with the given key
  and value and without flags. A node with children keeps its kind;
* `Tree.flagM`: more flags for a node;
* `Tree.allocateM`, `Tree.copyM`, `Tree.writeM`: the same on the arena of the tree.

Each of these alone either fails and changes nothing, or does all that it says.
-/

namespace SpanTree.Tree

def updated (id : Quantity) (change : Node → Node) (t : Tree) : Tree :=
  match id with
  | .natural n => { t with nodes := t.nodes.modify n change }
  | .irregular _ => t

/-- The tree with an unset child at the end of a node's children, and the id of the child. -/
def adopted (parent : Quantity) (t : Tree) : Nat × Tree :=
  let id := t.nodes.size
  let ⟨arena, nodes⟩ := t.updated parent fun n => { n with children := n.children.push id }
  (id, ⟨arena, nodes.push { parent := parent.toNat? }⟩)

section
variable {m : Type → Type} [Monad m] [Editing m] {α : Type}

open Failing (fail abort)
open Editing (called)

@[specialize] def askM (query : Tree → m α) : m α := do query (← get)

@[specialize] def addChildM (parent : Quantity) : m Nat := called (.addChild parent) do
  let kind ← askM (·.kindM parent)
  unless kind.isContainer do
    fail (.notContainer parent kind)
  modifyGet (adopted parent)

/-- Makes a node a container with the given key, if it has no children or is one already. A missing
key is none. -/
@[specialize] def makeContainerM (wanted : Kind) (id : Quantity) (key : Slot Span) : m Unit := do
  let n ← askM (·.nodeM id)
  if n.children.size > 0 ∧ n.kind ≠ wanted then
    fail (.populated id wanted n.children.size n.kind)
  modify (updated id (·.reassigned wanted key.orBlank .blank))

@[specialize] def makeMapM (id : Quantity) (key : Slot Span) : m Unit :=
  called (.makeMap id key) (makeContainerM .map id key)

@[specialize] def makeSeqM (id : Quantity) (key : Slot Span) : m Unit :=
  called (.makeSeq id key) (makeContainerM .seq id key)

/-- Makes a node without children a scalar with the given key and value. -/
@[specialize] def makeScalarM (id : Quantity) (key value : Slot Span) : m Unit :=
  called (.makeScalar id key value) do
    let n ← askM (·.nodeM id)
    if n.children.size > 0 then
      fail (.populatedScalar id n.children.size)
    modify (updated id (·.reassigned .scalar key value))

@[specialize] def flagM (id : Quantity) (flags : BitVec 32) : m Unit := do
  let _ ← askM (·.nodeM id)
  modify (updated id fun n => { n with flags := n.flags ||| flags })

@[specialize] def onArenaM (work : Arena → Except ArenaFault α × Arena) : m α := do
  let result ← modifyGet fun ⟨arena, nodes⟩ =>
    let (result, arena) := work arena
    (result, ⟨arena, nodes⟩)
  match result with
  | .ok a => return a
  | .error fault => abort (.arena fault)

@[specialize] def allocateM (size : Quantity) : m Span :=
  called (.allocate size) (onArenaM (Arena.allocate size))

@[specialize] def copyM (text : Text) : m Span := called (.copy text) (onArenaM (Arena.copy text))

@[specialize] def writeM (span : Span) (bytes : List UInt8) : m Unit :=
  called (.write span bytes) (onArenaM (Arena.write span bytes))

end

/-! ## Changes without a handler -/

def addChild (parent : Quantity) : Edit Nat := addChildM parent

def makeContainer (wanted : Kind) (id : Quantity) (key : Slot Span) : Edit Unit :=
  makeContainerM wanted id key

def makeMap (id : Quantity) (key : Slot Span) : Edit Unit := makeMapM id key

def makeSeq (id : Quantity) (key : Slot Span) : Edit Unit := makeSeqM id key

def makeScalar (id : Quantity) (key value : Slot Span) : Edit Unit := makeScalarM id key value

def flag (id : Quantity) (flags : BitVec 32) : Edit Unit := flagM id flags

def allocate (size : Quantity) : Edit Span := allocateM size

def copy (text : Text) : Edit Span := copyM text

def write (span : Span) (bytes : List UInt8) : Edit Unit := writeM span bytes

theorem makeMap_def (id : Quantity) (key : Slot Span) :
    makeMap id key = makeContainer .map id key := rfl

theorem makeSeq_def (id : Quantity) (key : Slot Span) :
    makeSeq id key = makeContainer .seq id key := rfl

/-- A question is asked of the tree as it is. -/
theorem askM_eq {α : Type} {query : Tree → Edit α} {answer : Tree → Except Failure α}
    (h : ∀ t s, query t s = (answer t, s)) : askM query = Edit.ask answer := by
  funext t
  exact h t t

theorem nodeM_edit (t s : Tree) (id : Quantity) : (t.nodeM id : Edit Node) s = (t.node id, s) := by
  unfold node nodeM
  cases t.node? id <;> rfl

/-- A question about one field of a node. -/
theorem fieldM_edit {α : Type} (t s : Tree) (id : Quantity) (read : Node → α) :
    (do return read (← t.nodeM id) : Edit α) s = ((t.node id).map read, s) := by
  cases found : t.node id with
  | ok n => exact Edit.bind_ok (by rw [nodeM_edit, found])
  | error f => exact Edit.bind_error (by rw [nodeM_edit, found])

theorem askM_nodeM (id : Quantity) : (askM (·.nodeM id) : Edit Node) = Edit.ask (·.node id) :=
  askM_eq fun t s => nodeM_edit t s id

theorem askM_keyM (id : Quantity) : (askM (·.keyM id) : Edit (Slot Span)) = Edit.ask (·.key id) :=
  askM_eq fun t s => fieldM_edit t s id (·.key)

theorem askM_kindM (id : Quantity) : (askM (·.kindM id) : Edit Kind) = Edit.ask (·.kind id) :=
  askM_eq fun t s => fieldM_edit t s id (·.kind)

theorem addChild_eq_bind (parent : Quantity) :
    addChild parent = (do
      let kind ← Edit.ask (·.kind parent)
      unless kind.isContainer do Edit.fail (.notContainer parent kind)
      modifyGet (adopted parent) : Edit Nat) := by
  rw [← askM_kindM]
  rfl

end SpanTree.Tree
