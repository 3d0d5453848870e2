import SpanTree.Arena
import SpanTree.Slot

/-!
# Reports and handlers

A failure is described by a report, a message with the place it concerns as far as that is known,
and handed to a handler.

* `Location.text?`, `Report.text`: `source:line:column`, unknown parts dropped, before the message;
* `Handler`: answers a report with what it raises, or with nothing;
* `Report.deliver`: what the caller of the failed operation sees. A handler that raises nothing does
  not make the operation go on: a second report that embeds the first is raised in its place.
-/

namespace SpanTree

structure Location where
  source : Slot Text := .missing
  line : Slot Quantity := .missing
  column : Slot Quantity := .missing
deriving DecidableEq

structure Report where
  message : Text
  location : Option Location := none
deriving DecidableEq

/-- What a failed operation raises: a report in its own right, or an error with a message of its
own, of which some concern a value out of range, or a value of the wrong type. -/
inductive Raised where
  | report (report : Report)
  | plain (message : Text)
  | range (message : Text)
  | type
deriving DecidableEq

/-- A handler takes a report and raises something, or returns without. -/
abbrev Handler := Report → Option Raised

/-- The known parts, the column only after a line; an empty source counts as unknown. -/
def Location.parts (l : Location) : List Text :=
  let source := match l.source.value? with
    | some s => if s.isEmpty then [] else [s]
    | none => []
  let place := match l.line.value?, l.column.value? with
    | some line, some column => [line.text, column.text]
    | some line, none => [line.text]
    | none, _ => []
  source ++ place

/-- The known parts between colons, or nothing. -/
def Location.text? (l : Option Location) : Option Text :=
  match l.map Location.parts with
  | none | some [] => none
  | some parts => some (Text.join (lit ":") parts)

namespace Report

def tag : Text := lit "[docarena]"

/-- A report as one line: the tag, the location where known, and the message. -/
def text (r : Report) : Text :=
  match Location.text? r.location with
  | some place => tag ++ lit " " ++ place ++ lit ": " ++ r.message
  | none => tag ++ lit " " ++ r.message

/-- The handler that raises the report itself. -/
def raise : Handler := fun r => some (.report r)

def afterReturn (r : Report) : Report :=
  { r with message := lit "error handler returned normally after: " ++ r.message }

/-- What the caller sees of a report handed to a handler. -/
def deliver (handler : Handler) (r : Report) : Raised :=
  (handler r).getD (.report r.afterReturn)

end Report

/-- The message of an error; an error of type has none of its own. -/
def Raised.message : Raised → Text
  | report r => r.text
  | plain m => m
  | range m => m
  | type => []

namespace ArenaFault

/-- What an arena raises, outside any handler. What never ends raises nothing that could be told. -/
def raised : ArenaFault → Raised
  | oversized c => .range (lit "Invalid typed array length: " ++ c.text)
  | invalidSize n => .plain (Report.tag ++ lit " Invalid arena allocation size: " ++ n.text ++
      lit ". Expected a non-negative integer.")
  | outside span size => .plain (Report.tag ++ lit " Span [" ++ span.offset.text ++ lit ", +" ++
      span.length.text ++ lit ") lies outside the arena (size " ++ .ofNat size ++ lit ").")
  | overlong => .range (lit "offset is out of bounds")
  | stuck => .type

end ArenaFault

end SpanTree
