import SpanTree.Value
import SpanTree.Source

/-!
# Presenting parsed values

A presenter turns a parsed value into a source value, one level at a time: the members of a
container are classified when they are listed, so a date that has no text breaks off the listing of
its container before the first member.

* `Presenter.present`: text, numbers, dates and containers become what they are, and everything else
  is unsupported. A number that stands alone for an integer is one, and any other a float;
* `Classifier.uniform`, `Classifier.byShape`: the two classifiers of dates;
* `Presenter.json`, `Presenter.toml`: the presenters of the two formats.
-/

namespace SpanTree

/-- Gives a date its kind and its text. -/
abbrev Classifier := DateValue → Except Raised (TemporalKind × Text)

/-- The text of a date, or the error that it has none. -/
def DateValue.textOrError (d : DateValue) : Except Raised Text :=
  match d.text? with
  | some t => .ok t
  | none => .error (.range (lit "Invalid time value"))

def Classifier.uniform : Classifier := fun d => d.textOrError.map (.datetime, ·)

/-- Local dates and local times are kinds of their own. -/
def Classifier.byShape : Classifier := fun d =>
  let kind : TemporalKind :=
    if d.isDate then .date else if d.isTime then .time else .datetime
  d.textOrError.map (kind, ·)

/-- How values are presented: whether null is a value, and how dates are classified. -/
structure Presenter where
  takesNull : Bool := false
  classify : Classifier := Classifier.uniform

/-- JSON has null, and no dates. -/
def Presenter.json : Presenter := { takesNull := true }

/-- TOML has local dates and times, and no null. -/
def Presenter.toml : Presenter := { classify := Classifier.byShape }

def allOrError {α β : Type} : List (α × Except Raised β) → Except Raised (List (α × β))
  | [] => .ok []
  | (a, part) :: rest => do
    let b ← part
    return (a, b) :: (← allOrError rest)

namespace Presenter

mutual

def present (a : Presenter) : Value → Except Raised Source
  | .null => .ok (if a.takesNull then .scalar .null else .unsupported (lit "null"))
  | .boolean b => .ok (.scalar (.boolean b))
  | .number x => .ok (.scalar (match Value.exactInteger? x with
    | some n => .integer n
    | none => .float x))
  | .integer n => .ok (.scalar (.integer n))
  | .string t => .ok (.scalar (.string t))
  | .date d => (a.classify d).map fun (kind, text) => .scalar (.temporal kind text)
  | .array items => .ok (match allOrError (presentItems a items) with
    | .ok items => .array (items.map (·.2)) .complete
    | .error e => .array [] (.broken e))
  | .object _ members => .ok (match allOrError (Members.enumerate (presentMembers a members)) with
    | .ok members => .table members .complete
    | .error e => .table [] (.broken e))
  | .foreign f => .ok (.unsupported (Value.foreign f).typeName)

def presentItems (a : Presenter) : List Value → List (Unit × Except Raised Source)
  | [] => []
  | item :: rest => ((), a.present item) :: presentItems a rest

def presentMembers (a : Presenter) : List (Text × Value) → List (Text × Except Raised Source)
  | [] => []
  | (key, value) :: rest => (key, a.present value) :: presentMembers a rest

end

end Presenter

end SpanTree
