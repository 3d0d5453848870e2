import SpanTree.Text.Numeral

/-!
# Faults of JSON texts

Where a text stops being JSON, and why. A fault keeps how many units are left at the offending
place, so its offset follows from the whole text:

* `Json.Fault.message`: the description of a fault in a given text. Most descriptions name an offset
  with its line and column; one that meets an unexpected unit quotes the text around it instead.
-/

namespace SpanTree.Json

inductive Cause where
  | unexpected
  | unterminatedString
  | controlCharacter
  | badUnicodeEscape
  | badEscape
  | minusAlone
  | missingFraction
  | missingExponent
  | missingName
  | missingLaterName
  | missingColon
  | unclosedObject
  | unclosedArray
  | trailing
deriving DecidableEq, Repr

/-- A cause, and the number of units from the offending place to the end of the text. -/
structure Fault where
  cause : Cause
  remaining : Nat
deriving DecidableEq, Repr

def fault {α : Type} (cause : Cause) (rest : Text) : Except Fault α := .error ⟨cause, rest.length⟩

/-- Line and column after reading units: a return, a line feed, and the two together each end a
line. -/
def advance : Text → Position → Position
  | [], p => p
  | [u], p => if u = unit '\n' || u = unit '\r' then ⟨p.line + 1, 1⟩ else ⟨p.line, p.column + 1⟩
  | u :: v :: rest, p =>
    if u = unit '\r' && v = unit '\n' then advance rest ⟨p.line + 1, 1⟩
    else if u = unit '\n' || u = unit '\r' then advance (v :: rest) ⟨p.line + 1, 1⟩
    else advance (v :: rest) ⟨p.line, p.column + 1⟩

def place (text : Text) (offset : Nat) : Text :=
  let p := advance (text.take offset) ⟨1, 1⟩
  lit " at position " ++ .ofNat offset ++ lit " (line " ++ .ofNat p.line ++ lit " column " ++
    .ofNat p.column ++ lit ")"

/-- The stretch of text shown around an offset: all of a short text, and otherwise ten units to
either side. -/
def excerpt (text : Text) (offset : Nat) : Text :=
  let quoted (t : Text) : Text := unit '"' :: t ++ [unit '"']
  let dots := lit "..."
  if text.length < 21 then quoted text
  else if offset < 10 then quoted (text.take (offset + 10)) ++ dots
  else if offset + 10 < text.length then
    dots ++ quoted ((text.drop (offset - 10)).take 20) ++ dots
  else dots ++ quoted (text.drop (offset - 10))

/-- Texts that are named whole when they are met in place of a value. -/
def namedWhole : List Text := [lit "NaN", lit "Infinity", lit "undefined", lit "[object Object]"]

/-- The description of something unexpected at an offset. -/
def unexpectedMessage (text : Text) (offset : Nat) : Text :=
  match text.drop offset with
  | [] => lit "Unexpected end of JSON input"
  | u :: _ =>
    if u.isDigit || u = unit '-' then lit "Unexpected number in JSON" ++ place text offset
    else if u = unit '"' then lit "Unexpected string in JSON" ++ place text offset
    else if text ∈ namedWhole then lit "\"" ++ text ++ lit "\" is not valid JSON"
    else lit "Unexpected token '" ++ [u] ++ lit "', " ++ excerpt text offset ++
      lit " is not valid JSON"

/-- The words for a cause, where the place follows. -/
def Cause.words : Cause → Text
  | unexpected => lit "Unexpected token in JSON"
  | unterminatedString => lit "Unterminated string in JSON"
  | controlCharacter => lit "Bad control character in string literal in JSON"
  | badUnicodeEscape => lit "Bad Unicode escape in JSON"
  | badEscape => lit "Bad escaped character in JSON"
  | minusAlone => lit "No number after minus sign in JSON"
  | missingFraction => lit "Unterminated fractional number in JSON"
  | missingExponent => lit "Exponent part is missing a number in JSON"
  | missingName => lit "Expected property name or '\x7d' in JSON"
  | missingLaterName => lit "Expected double-quoted property name in JSON"
  | missingColon => lit "Expected ':' after property name in JSON"
  | unclosedObject => lit "Expected ',' or '\x7d' after property value in JSON"
  | unclosedArray => lit "Expected ',' or ']' after array element in JSON"
  | trailing => lit "Unexpected non-whitespace character after JSON"

def Fault.message (f : Fault) (text : Text) : Text :=
  let offset := text.length - f.remaining
  if f.cause = .unexpected then unexpectedMessage text offset
  else f.cause.words ++ place text offset

end SpanTree.Json
