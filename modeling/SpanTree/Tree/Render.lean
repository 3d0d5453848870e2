import SpanTree.Tree.Query
import SpanTree.Json.Number

/-!
# Writing a tree as JSON

`Tree.renderM` writes a node and what is below it as a JSON text, on one line or indented.

* `Tree.scalarTextM`: how a scalar is written. A value that was a string is a JSON string, and so is
  every text that is neither a number nor one of the three literals; all else is written as it is.
* `Layout`: the white space between brackets, members and labels, and the greatest length of a text
  if there is one;
* `Spaced`: a text with spaces that are counted first and written out at the end;
* `Piece`, `Tree.expandM`: the walk keeps a stack of texts to write and nodes to open, and a
  container is replaced by its punctuation and its children.
-/

namespace SpanTree

def Json.isLiteral (t : Text) : Bool := t = lit "true" || t = lit "false" || t = lit "null"

/-- A text with a run of spaces in it, which is counted and not written out. -/
structure Spaced where
  before : Text := []
  count : Nat := 0
  after : Text := []

namespace Spaced

def length (s : Spaced) : Nat := s.before.length + s.count + s.after.length

def text (s : Spaced) : Text := s.before ++ .spaces s.count ++ s.after

def totalLength (parts : List Spaced) : Nat := parts.foldl (fun n s => n + s.length) 0

end Spaced

/-- How many spaces each level is indented by; no line breaks unless that is above zero. Texts may
have a greatest length. -/
structure Layout where
  indent : Quantity
  longest : Option Nat := none

namespace Layout

def breaksLines (l : Layout) : Bool :=
  match l.indent with
  | .natural n => 0 < n
  | .irregular x => Binary64.zero.lt x

def separator (l : Layout) : Text := if l.breaksLines then lit ": " else lit ":"

def lineBreak (l : Layout) : Text := if l.breaksLines then [unit '\n'] else []

/-- How many spaces stand before a member at a depth. A number of spaces that is not whole is cut,
and one that is negative or infinite is refused. -/
def padding (l : Layout) (depth : Nat) : Except Failure Nat :=
  match l.indent with
  | .natural n => .ok (n * depth)
  | .irregular x =>
    match x.mul (.ofNat depth) with
    | .nan => .ok 0
    | .infinite s => .error (.invalidPadding (.infinite s))
    | .finite s r =>
      let length := (Binary64.finite s r).truncate.getD 0
      if length < 0 then .error (.invalidPadding (.finite s r)) else .ok length.toNat

def admits (l : Layout) (length : Nat) : Bool := l.longest.all fun most => length ≤ most

/-- A line break and the padding of a depth between two texts. -/
def padded (l : Layout) (before after : Text) (depth : Nat) : Except Failure Spaced := do
  let s : Spaced := ⟨before ++ l.lineBreak, ← l.padding depth, after⟩
  if l.admits s.length then return s else throw .overlong

end Layout

/-- What is left to be written: a text, or a node at its depth. -/
inductive Piece where
  | text (text : Spaced)
  | node (id : Quantity) (depth : Nat)

namespace Tree

def opening (kind : Kind) : Text := if kind = .map then [unit '\x7b'] else [unit '[']

def closing (kind : Kind) : Text := if kind = .map then [unit '\x7d'] else [unit ']']

section
variable {m : Type → Type} [Monad m] [Failing m]

open Failing (fail abort raising)

/-- A scalar in JSON; one without a value is null. -/
@[specialize] def scalarTextM (t : Tree) (n : Node) : m Text :=
  match n.value with
  | .blank => return lit "null"
  | .missing => abort .missingValue
  | .known span => do
    let text ← raising (t.text span)
    if n.isQuoted then return Quoted.quote text
    else if Json.isLiteral text || Json.isNumber text then return text
    else return Quoted.quote text

/-- What stands before the value of a child: its key in a map, nothing in a seq. -/
@[specialize] def labelM (t : Tree) (layout : Layout) (kind : Kind) (child : Nat) : m Text := do
  if kind = .map then return Quoted.quote (← t.keyTextM (.natural child)) ++ layout.separator
  else return []

/-- The pieces of the children of a container, the first without a comma. -/
@[specialize] def childPiecesM (t : Tree) (layout : Layout) (kind : Kind) (depth : Nat)
    (comma : Text) : List Nat → m (List Piece)
  | [] => return []
  | child :: rest => do
    let before ← raising (layout.padded comma (← t.labelM layout kind child) depth)
    let pieces ← childPiecesM t layout kind depth [unit ','] rest
    return .text before :: .node (.natural child) depth :: pieces

@[specialize] def expandM (t : Tree) (layout : Layout) (id : Quantity) (depth : Nat) :
    m (List Piece) := do
  let n ← t.nodeM id
  match n.kind with
  | .unset => return [.text { before := lit "null" }]
  | .scalar => return [.text { before := ← t.scalarTextM n }]
  | kind =>
    if n.children.isEmpty then return [.text { before := opening kind ++ closing kind }]
    else
      let pieces ← t.childPiecesM layout kind (depth + 1) [] n.children.toList
      let last ← raising (layout.padded [] (closing kind) depth)
      return .text { before := opening kind } :: (pieces ++ [.text last])

/-- Lists the texts of the pieces in order, with those listed so far in reverse. Each step takes a
unit of fuel. -/
@[specialize] def writePiecesM (t : Tree) (layout : Layout) :
    Nat → List Piece → List Spaced → m (List Spaced)
  | _, [], out => return out.reverse
  | 0, _ :: _, _ => abort .endless
  | fuel + 1, .text s :: rest, out => writePiecesM t layout fuel rest (s :: out)
  | fuel + 1, .node id depth :: rest, out => do
    let pieces ← t.expandM layout id depth
    writePiecesM t layout fuel (pieces ++ rest) out

/-- Enough steps for a tree in which every node is opened at most once: a node is opened, takes two
texts for its brackets or one for its value, and one text before it. -/
def renderFuel (t : Tree) : Nat := 4 * t.size + 1

@[specialize] def renderM (t : Tree) (layout : Layout) (id : Quantity) : m Text := do
  let parts ← t.writePiecesM layout t.renderFuel [.node id 0] []
  if layout.admits (Spaced.totalLength parts) then return parts.flatMap Spaced.text
  else abort .overlong

end

/-! ## Texts or failures -/

def scalarText (t : Tree) (n : Node) : Except Failure Text := t.scalarTextM n

def label (t : Tree) (layout : Layout) (kind : Kind) (child : Nat) : Except Failure Text :=
  t.labelM layout kind child

def childPieces (t : Tree) (layout : Layout) (kind : Kind) (depth : Nat) (comma : Text)
    (children : List Nat) : Except Failure (List Piece) :=
  t.childPiecesM layout kind depth comma children

def expand (t : Tree) (layout : Layout) (id : Quantity) (depth : Nat) :
    Except Failure (List Piece) := t.expandM layout id depth

def writePieces (t : Tree) (layout : Layout) (fuel : Nat) (stack : List Piece)
    (out : List Spaced) : Except Failure (List Spaced) := t.writePiecesM layout fuel stack out

def render (t : Tree) (layout : Layout) (id : Quantity) : Except Failure Text :=
  t.renderM layout id

theorem scalarText_def (t : Tree) (n : Node) :
    t.scalarText n = match n.value with
      | .blank => .ok (lit "null")
      | .missing => .error .missingValue
      | .known span => do
        let text ← t.text span
        if n.isQuoted then return Quoted.quote text
        else if Json.isLiteral text || Json.isNumber text then return text
        else return Quoted.quote text := by
  unfold scalarText scalarTextM
  simp only [raising_except]
  rfl

theorem label_def (t : Tree) (layout : Layout) (kind : Kind) (child : Nat) :
    t.label layout kind child = (do
      if kind = .map then return Quoted.quote (← t.keyText (.natural child)) ++ layout.separator
      else return []) := rfl

theorem childPieces_cons (t : Tree) (layout : Layout) (kind : Kind) (depth : Nat) (comma : Text)
    (child : Nat) (rest : List Nat) :
    t.childPieces layout kind depth comma (child :: rest) = do
      let before ← layout.padded comma (← t.label layout kind child) depth
      let pieces ← t.childPieces layout kind depth [unit ','] rest
      return .text before :: .node (.natural child) depth :: pieces := by
  simp only [childPieces, childPiecesM, raising_except]
  rfl

theorem expand_def (t : Tree) (layout : Layout) (id : Quantity) (depth : Nat) :
    t.expand layout id depth = do
      let n ← t.node id
      match n.kind with
      | .unset => return [.text { before := lit "null" }]
      | .scalar => return [.text { before := ← t.scalarText n }]
      | kind =>
        if n.children.isEmpty then return [.text { before := opening kind ++ closing kind }]
        else
          let pieces ← t.childPieces layout kind (depth + 1) [] n.children.toList
          let last ← layout.padded [] (closing kind) depth
          return .text { before := opening kind } :: (pieces ++ [.text last]) := by
  simp only [expand, expandM, raising_except]
  rfl

theorem writePieces_nil (t : Tree) (layout : Layout) (fuel : Nat) (out : List Spaced) :
    t.writePieces layout fuel [] out = .ok out.reverse := by
  cases fuel <;> rfl

theorem writePieces_zero (t : Tree) (layout : Layout) (piece : Piece) (rest : List Piece)
    (out : List Spaced) : t.writePieces layout 0 (piece :: rest) out = .error .endless := rfl

theorem writePieces_text (t : Tree) (layout : Layout) (fuel : Nat) (s : Spaced)
    (rest : List Piece) (out : List Spaced) :
    t.writePieces layout (fuel + 1) (.text s :: rest) out =
      t.writePieces layout fuel rest (s :: out) := rfl

theorem writePieces_node (t : Tree) (layout : Layout) (fuel : Nat) (id : Quantity) (depth : Nat)
    (rest : List Piece) (out : List Spaced) :
    t.writePieces layout (fuel + 1) (.node id depth :: rest) out = (do
      let pieces ← t.expand layout id depth
      t.writePieces layout fuel (pieces ++ rest) out) := rfl

/-- An induction along the steps of the walk. -/
theorem walk_induction {motive : Nat → List Piece → List Spaced → Prop}
    (done : ∀ fuel out, motive fuel [] out)
    (spent : ∀ piece rest out, motive 0 (piece :: rest) out)
    (text : ∀ fuel s rest out, motive fuel rest (s :: out) →
      motive (fuel + 1) (.text s :: rest) out)
    (node : ∀ fuel id depth rest out, (∀ pieces, motive fuel (pieces ++ rest) out) →
      motive (fuel + 1) (.node id depth :: rest) out)
    (fuel : Nat) (stack : List Piece) (out : List Spaced) : motive fuel stack out := by
  induction fuel generalizing stack out with
  | zero =>
    cases stack with
    | nil => exact done 0 out
    | cons piece rest => exact spent piece rest out
  | succ fuel ih =>
    cases stack with
    | nil => exact done _ out
    | cons piece rest =>
      cases piece with
      | text s => exact text fuel s rest out (ih _ _)
      | node id depth => exact node fuel id depth rest out fun pieces => ih _ _

theorem render_def (t : Tree) (layout : Layout) (id : Quantity) :
    t.render layout id = (do
      let parts ← t.writePieces layout t.renderFuel [.node id 0] []
      if layout.admits (Spaced.totalLength parts) then return parts.flatMap Spaced.text
      else throw .overlong) := rfl

end Tree

end SpanTree
