import SpanTree.Text.Numeral

/-!
# Faults of TOML texts

Where a text stops being TOML, and why. As for JSON, a fault keeps the number of units from the
offending place to the end of the text.

* `Toml.position`: the line and column of an offset, lines ending in a line feed with or without a
  return before it;
* `Toml.excerpt`: the lines around a position, numbered, with a mark below the column;
* `Toml.describe`: a message with its excerpt.
-/

namespace SpanTree.Toml

inductive Cause where
  | controlInComment
  | unclosedTableArray
  | redefinedTable
  | missingLineEnd
  | emptyKey
  | emptySegment
  | multilineKey
  | keyCharacter
  | incompleteKey
  | redefinedValue
  | missingComma
  | unfinishedTable
  | unfinishedArray
  | controlInString
  | escapeDigit
  | escapeValue
  | unknownEscape
  | spaceEscape
  | unfinishedString
  | tooDeep
  | invalidValue
  | leadingZero
  | underscore
  | numberCharacter
  | unfinishedNumber
  | malformedDate
  | malformedTime
  | invalidDate
deriving DecidableEq, Repr

/-- A cause, and the number of units from the offending place to the end of the text. -/
structure Fault where
  cause : Cause
  remaining : Nat
deriving DecidableEq, Repr

def fault {α : Type} (cause : Cause) (rest : Text) : Except Fault α := .error ⟨cause, rest.length⟩

def Cause.words : Cause → Text
  | controlInComment => lit "control characters are not allowed in comments"
  | unclosedTableArray => lit "expected end of table array declaration"
  | redefinedTable => lit "trying to redefine an already defined table or value"
  | missingLineEnd => lit "each key-value declaration must be followed by an end-of-line"
  | emptyKey => lit "unexpected end of key"
  | emptySegment => lit "illegal empty bare key"
  | multilineKey => lit "illegal quoted key: multiline strings are not allowed"
  | keyCharacter => lit "illegal character in key"
  | incompleteKey => lit "incomplete key-value: cannot find end of key"
  | redefinedValue => lit "trying to redefine an already defined value"
  | missingComma => lit "expected comma or end of structure"
  | unfinishedTable => lit "unfinished table"
  | unfinishedArray => lit "unfinished array"
  | controlInString => lit "control characters are not allowed in strings"
  | escapeDigit => lit "invalid non-hex character in unicode escape"
  | escapeValue => lit "invalid unicode escape"
  | unknownEscape => lit "unrecognised escape sequence"
  | spaceEscape => lit "invalid escape: only line-ending whitespace may be escaped"
  | unfinishedString => lit "unfinished string"
  | tooDeep => lit "document contains excessively nested structures. aborting."
  | invalidValue => lit "invalid value"
  | leadingZero => lit "illegal leading zero"
  | underscore => lit "illegal underscore"
  | numberCharacter => lit "illegal character in numeric literal"
  | unfinishedNumber => lit "unfinished numeric value"
  | malformedDate => lit "invalid date-time: date part is malformed"
  | malformedTime => lit "invalid date-time: time part is malformed"
  | invalidDate => lit "invalid date"

def position (text : Text) (offset : Nat) : Position :=
  let lines := Text.splitReturns (text.take offset)
  ⟨lines.length, (lines.getLast?.getD []).length + 1⟩

/-- A numbered line in an excerpt, with the mark where it is the line of the position. An empty
line, or one outside the text, is left out. -/
def excerptLine (lines : List Text) (p : Position) (width number : Nat) : Text :=
  match number, (lines[number - 1]?).getD [] with
  | 0, _ | _, [] => []
  | number, line =>
    let label := Text.ofNat number
    label ++ .spaces (width - label.length) ++ lit ":  " ++ line ++ lit "\n" ++
      if number = p.line then .spaces (width + p.column + 2) ++ lit "^\n" else []

/-- The line of a position between its two neighbours. -/
def excerpt (text : Text) (p : Position) : Text :=
  let lines := text.splitReturns
  let width := (Text.ofNat (p.line + 1)).length
  [p.line - 1, p.line, p.line + 1].flatMap (excerptLine lines p width)

def heading : Text := lit "Invalid TOML document: "

/-- A message under its heading, with the lines around a position. -/
def describe (message text : Text) (p : Position) : Text :=
  heading ++ message ++ lit "\n\n" ++ excerpt text p

def Fault.position (f : Fault) (text : Text) : Position :=
  Toml.position text (text.length - f.remaining)

end SpanTree.Toml
