/-!
# Text as UTF-16 code units

Keys, values, source texts and messages are sequences of UTF-16 code units, because lengths,
columns and offsets count those units and because a text may hold half of a surrogate pair:

* `Text.ofString`, `Text.toChars`: from and to characters, where a lone surrogate reads as U+FFFD;
* `Text.wellFormed`: the same text with every lone surrogate replaced;
* `unit`, `lit`: the units of a character of the basic plane and of a literal;
* `Text.splitLines`, `Text.position`: lines, and the line and column of an offset.
-/

namespace SpanTree

/-- One UTF-16 code unit. -/
abbrev CodeUnit := UInt16

/-- A text is its UTF-16 code units in order; nothing forbids a lone surrogate. -/
abbrev Text := List CodeUnit

abbrev unit (c : Char) : CodeUnit := c.toNat.toUInt16

def CodeUnit.isHigh (u : CodeUnit) : Bool := 0xD800 ≤ u && u ≤ 0xDBFF

def CodeUnit.isLow (u : CodeUnit) : Bool := 0xDC00 ≤ u && u ≤ 0xDFFF

def CodeUnit.isDigit (u : CodeUnit) : Bool := unit '0' ≤ u && u ≤ unit '9'

def CodeUnit.hexValue? (u : CodeUnit) : Option Nat :=
  if unit '0' ≤ u && u ≤ unit '9' then some (u.toNat - 48)
  else if unit 'A' ≤ u && u ≤ unit 'F' then some (u.toNat - 55)
  else if unit 'a' ≤ u && u ≤ unit 'f' then some (u.toNat - 87)
  else none

/-- Letters, digits and the underscore, ASCII only. -/
def CodeUnit.isWord (u : CodeUnit) : Bool :=
  u.isDigit || (unit 'A' ≤ u && u ≤ unit 'Z') || (unit 'a' ≤ u && u ≤ unit 'z') || u == unit '_'

/-- White space in the wide sense: the ASCII controls from tab to return, the space, the no-break
spaces, the typographic spaces, the two separators and the byte order mark. -/
def CodeUnit.isSpace (u : CodeUnit) : Bool :=
  (9 ≤ u && u ≤ 13) || u == 0x20 || u == 0xA0 || u == 0x1680 || (0x2000 ≤ u && u ≤ 0x200A) ||
    u == 0x2028 || u == 0x2029 || u == 0x202F || u == 0x205F || u == 0x3000 || u == 0xFEFF

namespace Text

/-- A character of the basic plane is one unit, any other a surrogate pair. -/
def ofChar (c : Char) : Text :=
  if c.toNat < 0x10000 then [c.toNat.toUInt16]
  else [(0xD800 + (c.toNat - 0x10000) / 0x400).toUInt16,
    (0xDC00 + (c.toNat - 0x10000) % 0x400).toUInt16]

def ofChars (cs : List Char) : Text := cs.flatMap ofChar

def ofString (s : String) : Text := ofChars s.toList

def pairChar (high low : CodeUnit) : Char :=
  Char.ofNat (0x10000 + (high.toNat - 0xD800) * 0x400 + (low.toNat - 0xDC00))

/-- The character that stands where a text or a byte sequence cannot be read. -/
def replacement : Char := Char.ofNat 0xFFFD

/-- The character of a unit outside a pair; a surrogate alone has none of its own. -/
def unitChar (u : CodeUnit) : Char :=
  if u.isHigh || u.isLow then replacement else Char.ofNat u.toNat

/-- Reads the units from left to right, a high surrogate together with the low one after it. -/
def toChars : Text → List Char
  | [] => []
  | [u] => [unitChar u]
  | u :: v :: rest =>
    if u.isHigh && v.isLow then pairChar u v :: toChars rest else unitChar u :: toChars (v :: rest)

/-- Every lone surrogate replaced by U+FFFD. -/
def wellFormed (t : Text) : Text := ofChars t.toChars

/-- The text as a string, lone surrogates replaced. -/
def toString (t : Text) : String := String.ofList t.toChars

def ofByte (b : UInt8) : Text :=
  [unit (Nat.digitChar (b.toNat / 16)), unit (Nat.digitChar (b.toNat % 16))]

def spaces (n : Nat) : Text := List.replicate n (unit ' ')

/-- The parts of a text between line feeds; a text without one is a single line. -/
def splitLines : Text → List Text
  | [] => [[]]
  | u :: rest =>
    if u = unit '\n' then [] :: splitLines rest
    else match splitLines rest with
      | [] => [[u]]
      | line :: lines => (u :: line) :: lines

/-- The parts of a text between line ends, a return directly before a line feed being part of the
line end. -/
def splitReturns (t : Text) : List Text :=
  let lines := t.splitLines
  lines.dropLast.map (fun l => if l.getLast? = some (unit '\r') then l.dropLast else l) ++
    lines.drop (lines.length - 1)

def join (separator : Text) : List Text → Text
  | [] => []
  | [t] => t
  | t :: rest => t ++ separator ++ join separator rest

end Text

abbrev lit (s : String) : Text := Text.ofString s

/-- Where something stands in a text: both numbers start at one. -/
structure Position where
  line : Nat
  column : Nat
deriving Repr, DecidableEq

end SpanTree
