import SpanTree.Handler
import SpanTree.Text.Quoted
import SpanTree.Tree.Node

/-!
# Failures

Why an operation on a tree fails. Most causes are reported to the handler of the tree; an arena
fault, an error met while the members of a value are listed and a padding that cannot be written
are raised as they are.

* `Failure.report?`: the report of a cause, for those that have one;
* `Failure.raised`: what the caller sees under a handler. A tree may lack a usable handler, and then
  every report ends in an error of type.
-/

namespace SpanTree

/-- One step of a path: a key, or a position among the children. -/
inductive Step where
  | key (key : Text)
  | position (position : Quantity)
deriving DecidableEq

/-- A step as a JSON text; a number that JSON lacks is written as null. -/
def Step.text : Step → Text
  | key k => Quoted.quote k
  | position (.natural n) => .ofNat n
  | position (.irregular (.finite s r)) => (Binary64.finite s r).text
  | position (.irregular _) => lit "null"

inductive Failure where
  /-- No node has the id. -/
  | unknownNode (id : Quantity) (size : Nat)
  | noKey (id : Quantity)
  | noValue (id : Quantity)
  /-- Only maps and seqs take children. -/
  | notContainer (id : Quantity) (kind : Kind)
  /-- A node with children stays the container that it is. -/
  | populated (id : Quantity) (wanted : Kind) (count : Nat) (kind : Kind)
  /-- A node with children does not become a scalar. -/
  | populatedScalar (id : Quantity) (count : Nat)
  | noChild (id : Quantity) (step : Step)
  | unsupported (description : Text) (node : Quantity)
  | unknownKind (kind : Text) (node : Quantity)
  | tooDeep (limit : Quantity) (node : Quantity)
  | malformed (format : Text) (description : Text) (location : Location)
  | unreadable (format : Text) (message : Text) (source : Text)
  /-- Any other cause, in the words of the caller. -/
  | stated (report : Report)
  | arena (fault : ArenaFault)
  /-- The members of a value could not be listed to the end. -/
  | interrupted (error : Raised)
  /-- Nothing stands where a value is due. -/
  | missingValue
  /-- A padding of a negative or an infinite length. -/
  | invalidPadding (length : Binary64)
  /-- A text longer than any can be. -/
  | overlong
  /-- Work that never comes to an end. -/
  | endless
deriving DecidableEq

namespace Failure

/-- The report of a failure, without a location where only the tree is concerned. -/
def report? : Failure → Option Report
  | unknownNode id size => some
      ⟨lit "Unknown node id " ++ id.text ++ lit " (tree has " ++ .ofNat size ++ lit " nodes).",
        none⟩
  | noKey id => some ⟨lit "Node " ++ id.text ++ lit " has no key.", none⟩
  | noValue id => some ⟨lit "Node " ++ id.text ++ lit " has no value.", none⟩
  | notContainer id kind => some
      ⟨lit "Cannot append a child to node " ++ id.text ++ lit ": expected a map or seq, found " ++
        kind.text ++ lit ".", none⟩
  | populated id wanted count kind => some
      ⟨lit "Cannot reassign node " ++ id.text ++ lit " to " ++ wanted.text ++
        lit ": it already holds " ++ .ofNat count ++ lit " children as " ++ kind.text ++ lit ".",
        none⟩
  | populatedScalar id count => some
      ⟨lit "Cannot reassign node " ++ id.text ++ lit " to scalar: it holds " ++ .ofNat count ++
        lit " children.", none⟩
  | noChild id step => some
      ⟨lit "Node " ++ id.text ++ lit " has no child " ++ step.text ++ lit ".", none⟩
  | unsupported description node => some
      ⟨lit "Cannot materialize unsupported source value (" ++ description ++ lit ") into node " ++
        node.text ++ lit ".", none⟩
  | unknownKind kind node => some
      ⟨lit "Cannot materialize source value of unknown kind \"" ++ kind ++ lit "\" into node " ++
        node.text ++ lit ".", none⟩
  | tooDeep limit node => some
      ⟨lit "Document nesting exceeds the maximum depth of " ++ limit.text ++ lit " at node " ++
        node.text ++ lit ".", none⟩
  | malformed format description location => some
      ⟨lit "Invalid " ++ format ++ lit " document: " ++ description, some location⟩
  | unreadable format message source => some
      ⟨lit "Cannot read " ++ format ++ lit " file: " ++ message,
        some { source := .known source }⟩
  | stated report => some report
  | arena _ | interrupted _ | missingValue | invalidPadding _ | overlong | endless => none

/-- Whether work that fails comes to an end at all. -/
def ends : Failure → Bool
  | arena .stuck | endless => false
  | _ => true

theorem ends_of_report {f : Failure} {report : Report} (h : f.report? = some report) :
    f.ends = true := by
  unfold ends
  split
  · cases h
  · cases h
  · rfl

/-- What a failure raises that has no report, if its work ends. -/
def bare : Failure → Raised
  | arena fault => fault.raised
  | interrupted error => error
  | invalidPadding length => .range (lit "Invalid count value: " ++ length.text)
  | overlong => .range (lit "Invalid string length")
  | _ => .type

/-- What the caller of a failed operation sees. -/
def raised (handler : Option Handler) (f : Failure) : Raised :=
  match f.report?, handler with
  | some r, some h => r.deliver h
  | some _, none => .type
  | none, _ => f.bare

/-- The reports that a failure sends to a handler: one or none. -/
def reports (handler : Option Handler) (f : Failure) : List Report :=
  match handler with
  | some _ => f.report?.toList
  | none => []

end Failure

end SpanTree
