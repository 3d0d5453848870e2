import SpanTree.Calendar.Reading
import SpanTree.Number.Decimal
import SpanTree.Value

/-!
# Dates and times as documents write them

A moment is an instant with the shape in which it was written: with a zone offset, as a local date
and time, as a date or as a time of day. Its text restores that shape.

* `Moment.text?`: the text, absent where the instant is not valid;
* `Moment.ofDate`, `Moment.ofTime`, `Moment.ofLocal`, `Moment.ofZoned`: moments from their parts;
* `Moment.ofText`: a moment from a text of any shape;
* `Value.moment`: a moment as a value, which tells what a program may ask of it.
-/

namespace SpanTree

inductive Shape where
  /-- An instant that no document wrote. -/
  | instant
  /-- A date and a time with this offset. -/
  | zoned (offset : Text)
  | localDateTime
  | localDate
  | localTime
deriving DecidableEq

/-- An instant, absent where it is not valid, and its shape. -/
structure Moment where
  time : Option Int
  shape : Shape
deriving DecidableEq

namespace Moment

open Calendar

/-- The minutes of an offset: its second and third unit are the hours, its fifth and sixth the
minutes, and each of these is a number in a wide sense. -/
def offsetMinutes (offset : Text) : Binary64 :=
  ((Binary64.ofField ((offset.drop 1).take 2)).mul (.ofNat 60)).add
    (Binary64.ofField ((offset.drop 4).take 2))

/-- The instant that reads, as if at Greenwich, like another instant in its own zone. -/
def shifted? (time : Int) (offset : Text) : Option Int := do
  let shift := (offsetMinutes offset).mul (.ofNat 60000)
  let shift := if offset.head? = some (unit '-') then shift.neg else shift
  inReach (← ((Binary64.ofInt time).add shift).truncate)

def text? (m : Moment) : Option Text := do
  let time ← m.time
  let iso := isoText time
  match m.shape with
  | .instant => return iso
  | .localDate => return iso.take 10
  | .localTime => return (iso.drop 11).take 12
  | .localDateTime => return iso.dropLast
  | .zoned offset =>
    if offset = lit "Z" ∨ offset = lit "z" then return iso
    else return (isoText (← shifted? time offset)).dropLast ++ offset

def ofDate (t : Text) : Moment := ⟨instant? t, .localDate⟩

/-- The instant that a text names, unless the hour that it states is beyond the last of a day. -/
def withinDay? (hour whole : Text) : Option Int :=
  if (Binary64.ofNat 23).lt (.ofField hour) then none else instant? whole

/-- A time of day by its text, on the first day of year 0. -/
def ofTime (t : Text) : Moment :=
  ⟨withinDay? (t.take 2) (lit "0000-01-01T" ++ t ++ lit "Z"), .localTime⟩

def withSeparator (t : Text) : Text := t.take 10 ++ lit "T" ++ t.drop 11

def hourField (t : Text) : Text := (t.drop 11).take 2

def ofLocal (t : Text) : Moment :=
  ⟨withinDay? (hourField t) (withSeparator t ++ lit "Z"), .localDateTime⟩

def ofZoned (t : Text) : Moment :=
  let last := t.getLast?
  let offset :=
    if last = some (unit 'Z') ∨ last = some (unit 'z') then lit "Z" else t.drop (t.length - 6)
  ⟨withinDay? (hourField t) (withSeparator t), .zoned offset⟩

/-- What follows so many digits in front of a text. -/
def afterDigits? (count : Nat) (t : Text) : Option Text :=
  if (t.take count).length = count ∧ (t.take count).all CodeUnit.isDigit then some (t.drop count)
  else none

def after? (u : CodeUnit) (t : Text) : Option Text :=
  if t.head? = some u then some t.tail else none

/-- Splits off a date written in digits, whether it exists or not. -/
def splitDate (t : Text) : Option Text × Text :=
  let rest? := do
    let t ← afterDigits? 4 t
    let t ← afterDigits? 2 (← after? (unit '-') t)
    afterDigits? 2 (← after? (unit '-') t)
  match rest? with
  | some rest => (some (t.take 10), rest)
  | none => (none, t)

/-- Splits off the hour of a time of day written in digits, and drops the rest of it. -/
def splitTime (t : Text) : Option Text × Text :=
  let clock := do afterDigits? 2 (← after? (unit ':') (← afterDigits? 2 t))
  match clock with
  | none => (none, t)
  | some rest =>
    let hour := some (t.take 2)
    match (after? (unit ':') rest).bind (afterDigits? 2) with
    | none => (hour, rest)
    | some rest =>
      match after? (unit '.') rest with
      | none => (hour, rest)
      | some digits =>
        if digits.head?.any CodeUnit.isDigit then (hour, digits.dropWhile CodeUnit.isDigit)
        else (hour, rest)

/-- Whether a text is a zone written in letters or digits. -/
def isZone (t : Text) : Bool :=
  t = lit "Z" || t = lit "z" ||
    (t.length = 6 && (t.head? = some (unit '+') || t.head? = some (unit '-')) &&
      ((t.drop 1).take 2).all CodeUnit.isDigit && t[3]? = some (unit ':') &&
      (t.drop 4).all CodeUnit.isDigit)

/-- A moment by a text of any shape: a date, a separator, a time and a zone, each of them
optional. -/
def ofText (t : Text) : Moment :=
  let (date, rest) := splitDate t
  let separated := match rest with
    | u :: after => if u = unit 'T' ∨ u = unit 't' ∨ u = unit ' ' then after else rest
    | [] => []
  let (hour, zone) := splitTime separated
  let hasTime := hour.isSome
  if !(zone.isEmpty || isZone zone) then ⟨none, .localDateTime⟩
  else
    let whole := if date.isNone then lit "0000-01-01T" ++ t else t
    let whole := if hasTime && whole[10]? = some (unit ' ') then withSeparator whole else whole
    let whole := if zone.isEmpty && hasTime then whole ++ lit "Z" else whole
    let shape :=
      if date.isSome && !hasTime then Shape.localDate
      else if date.isNone then .localTime
      else if zone.isEmpty then .localDateTime
      else .zoned zone
    ⟨withinDay? (hour.getD []) whole, shape⟩

/-- What a moment tells of itself. One that no document wrote is a plain date. -/
def value (m : Moment) : DateValue where
  text? := m.text?
  isDate := m.shape = .localDate
  isTime := m.shape = .localTime
  className := if m.shape = .instant then lit "Date" else lit "TomlDate"
  shown := m.time.elim (lit "Invalid Date") Calendar.longText

end Moment

def Value.moment (m : Moment) : Value := .date m.value

end SpanTree
