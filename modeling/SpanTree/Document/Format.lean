import SpanTree.Toml.Reader
import SpanTree.Value.Presenter
import SpanTree.Text.Offset

/-!
# The source formats

Each format reads a text into a value, presents that value for storage, and says of a failed reading
what went wrong and where.

* `Format.parse`: reads a text;
* `Format.explain`: the message of a complaint, without the heading that every TOML message has;
* `Format.place?`: the line and column of a complaint, as far as it tells.
-/

namespace SpanTree

/-- The source formats; TOML with the reader for it. -/
inductive Format where
  | toml (reader : Toml.Reader := .standard)
  | json

/-- What follows the first given words in a text, if it begins with them. -/
def afterWords? (words t : Text) : Option Text :=
  if t.take words.length = words then some (t.drop words.length) else none

def offsetWord : Text := lit "position "

/-- The first offset that a message names: a number after the word, which does not continue a longer
word. `inWord` tells whether the unit before the text belongs to a word. -/
def namedOffset? (inWord : Bool) : Text → Option Nat
  | [] => none
  | u :: rest =>
    match afterWords? offsetWord (u :: rest) with
    | some after =>
      if !inWord && after.head?.any CodeUnit.isDigit then
        some (Text.digitsValue (after.takeWhile CodeUnit.isDigit))
      else namedOffset? u.isWord rest
    | none => namedOffset? u.isWord rest

def tomlHeading : Text := lit "Invalid TOML document:"

namespace Format

def text : Format → Text
  | toml _ => lit "TOML"
  | json => lit "JSON"

def parse (f : Format) (text : Text) : Except Complaint Value :=
  match f with
  | toml reader => reader.read text
  | json => match Json.read text with
    | .ok j => .ok j.toValue
    | .error fault => .error (.worded (fault.message text))

def presenter : Format → Presenter
  | toml _ => .toml
  | json => .json

def explain (f : Format) (c : Complaint) : Text :=
  match f with
  | toml _ => match afterWords? tomlHeading c.message with
    | some rest => rest.dropWhile CodeUnit.isSpace
    | none => c.message
  | json => c.message

def place? (f : Format) (c : Complaint) (text : Text) : Option Location :=
  match f, c with
  | toml _, .positioned _ (some line) column =>
    some { line := .known line, column := column.elim .missing .known }
  | json, .worded message =>
    (namedOffset? false message).map fun offset =>
      let place := text.locate (.natural offset)
      { line := .known (.natural place.line), column := .known place.column }
  | _, _ => none

end Format

end SpanTree
