import SpanTree.Calendar

/-!
# Dates in tokens

A date is read from its numbers, words and marks.

* `Word.ofText`: what a word says about a date, in letters of either case;
* `Token.ofDigits`: a number by its digits. Leading zeros aside, nine digits of it count, but its
  length is that of all digits;
* `Token.thousandths`: the number behind a decimal point, in thousandths;
* `Token.scan`: the tokens of a text. What stands in parentheses does not count, and a NUL ends the
  text.
-/

namespace SpanTree.Calendar

inductive Word where
  /-- The name of a month, counted from one. -/
  | month (number : Nat)
  /-- The half of the day, by the hour that it begins at. -/
  | half (hours : Nat)
  /-- The name of a zone, by its hours ahead of Greenwich. -/
  | zone (hours : Int)
  /-- The letter of the zone of Greenwich. -/
  | zulu
  /-- The letter between a date and a time of day. -/
  | separator
  | other

/-- A letter in lower case; other units may change, but none of them into a letter. -/
def lowered (u : CodeUnit) : CodeUnit := u ||| 0x20

/-- The names of zones, with their hours ahead of Greenwich. -/
def zoneNames : List (String × Int) :=
  [("ut", 0), ("utc", 0), ("gmt", 0), ("cdt", -5), ("cst", -6), ("edt", -4), ("est", -5),
    ("mdt", -6), ("mst", -7), ("pdt", -7), ("pst", -8)]

/-- What a word in lower case says. Of the name of a month the first three letters count. -/
def Word.ofLowered (t : Text) : Word :=
  match monthNames.findIdx? fun name => (lit name).map lowered = t.take 3 with
  | some place => .month (place + 1)
  | none =>
    if t = lit "am" then .half 0
    else if t = lit "pm" then .half 12
    else if t = lit "z" then .zulu
    else if t = lit "t" then .separator
    else match zoneNames.find? fun entry => lit entry.1 = t with
      | some entry => .zone entry.2
      | none => .other

def Word.ofText (t : Text) : Word := .ofLowered (t.map lowered)

inductive Token where
  /-- A number, and with how many digits it is written. -/
  | number (value length : Nat)
  | word (word : Word)
  | sign (negative : Bool)
  | colon
  | point
  /-- A closing parenthesis without an opening one. -/
  | closing
  | blank
  | other

namespace Token

/-- No more digits than this count, leading zeros aside. -/
def maxDigits : Nat := 9

def ofDigits (digits : Text) : Token :=
  .number (Text.digitsValue ((digits.dropWhile (· = unit '0')).take maxDigits)) digits.length

/-- A number of the given length behind a decimal point, in thousandths. -/
def thousandths (value length : Nat) : Nat :=
  if length < 3 then value * Nat.pow 10 (3 - length)
  else value / Nat.pow 10 (min length maxDigits - 3)

/-- Words are of units from the first capital letter on. -/
def isLetter (u : CodeUnit) : Bool := unit 'A' ≤ u && !u.isSpace

def afterNote : Nat → Text → Text
  | _, [] => []
  | 0, t => t
  | depth + 1, u :: rest =>
    if u = 0 then []
    else if u = unit ')' then afterNote depth rest
    else if u = unit '(' then afterNote (depth + 2) rest
    else afterNote (depth + 1) rest

/-- The tokens of a text, of which there are no more than the fuel. -/
def scanWith : Nat → Text → List Token
  | 0, _ => []
  | _, [] => []
  | fuel + 1, u :: rest =>
    if u = 0 then []
    else if u.isDigit then
      ofDigits (u :: rest.takeWhile CodeUnit.isDigit) ::
        scanWith fuel (rest.dropWhile CodeUnit.isDigit)
    else if u = unit ':' then .colon :: scanWith fuel rest
    else if u = unit '-' then .sign true :: scanWith fuel rest
    else if u = unit '+' then .sign false :: scanWith fuel rest
    else if u = unit '.' then .point :: scanWith fuel rest
    else if u = unit ')' then .closing :: scanWith fuel rest
    else if isLetter u then
      .word (Word.ofText (u :: rest.takeWhile isLetter)) :: scanWith fuel (rest.dropWhile isLetter)
    else if u.isSpace then .blank :: scanWith fuel rest
    else if u = unit '(' then .other :: scanWith fuel (afterNote 1 rest)
    else .other :: scanWith fuel rest

def scan (t : Text) : List Token := scanWith t.length t

end Token

end SpanTree.Calendar
