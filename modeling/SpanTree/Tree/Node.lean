import SpanTree.Arena
import SpanTree.Slot

/-!
# Nodes

A node has a kind, a word of flags, a key and a value as spans of an arena, the node above it and
the nodes below it. Other nodes are named by their ids, which are places in a table.
-/

namespace SpanTree

inductive Kind where
  | unset
  | map
  | seq
  | scalar
deriving DecidableEq, Repr

def Kind.text : Kind → Text
  | unset => lit "unset"
  | map => lit "map"
  | seq => lit "seq"
  | scalar => lit "scalar"

def Kind.isContainer : Kind → Bool
  | map | seq => true
  | unset | scalar => false

structure Node where
  kind : Kind := .unset
  flags : BitVec 32 := 0
  key : Slot Span := .blank
  value : Slot Span := .blank
  parent : Option Nat := none
  children : Array Nat := #[]
deriving DecidableEq

namespace Node

/-- The flag of a value that was a string in its source. -/
def quotedFlag : BitVec 32 := 1

def isQuoted (n : Node) : Bool := n.flags &&& quotedFlag = quotedFlag

/-- The node with another kind, key and value, and without flags. -/
def reassigned (n : Node) (kind : Kind) (key value : Slot Span) : Node :=
  { n with kind, key, value, flags := 0 }

end Node

end SpanTree
