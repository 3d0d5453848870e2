import SpanTree.Text.Numeral

/-!
# Calendar dates

Instants are milliseconds from the beginning of 1970, in the Gregorian calendar extended without
bound in both directions.

* `daysOfDate`, `dateOfDays`: between a date and its day number;
* `isoText`: an instant as `YYYY-MM-DDTHH:mm:ss.sssZ`, a year outside four digits with its sign in
  six;
* `longText`: an instant in words, with the names of the day and of the month.
-/

namespace SpanTree.Calendar

def dayLength : Int := 86400000

/-- The greatest distance of an instant from the origin. -/
def reach : Int := 8640000000000000

def inReach (time : Int) : Option Int := if time.natAbs ≤ reach.natAbs then some time else none

/-- The number of a day, the first of January 1970 being day 0. Years are counted from March, and
400 years have 146097 days. -/
def daysOfDate (year : Int) (month day : Nat) : Int :=
  let year := if month ≤ 2 then year - 1 else year
  let era := year.fdiv 400
  let yearOfEra := year - era * 400
  let monthOfYear : Int := if month ≤ 2 then month + 9 else month - 3
  let dayOfYear := (153 * monthOfYear + 2) / 5 + day - 1
  era * 146097 + yearOfEra * 365 + yearOfEra / 4 - yearOfEra / 100 + dayOfYear - 719468

def dateOfDays (days : Int) : Int × Nat × Nat :=
  let days := days + 719468
  let era := days.fdiv 146097
  let dayOfEra := days - era * 146097
  let yearOfEra := (dayOfEra - dayOfEra / 1460 + dayOfEra / 36524 - dayOfEra / 146096) / 365
  let dayOfYear := dayOfEra - (365 * yearOfEra + yearOfEra / 4 - yearOfEra / 100)
  let monthOfYear := (5 * dayOfYear + 2) / 153
  let day := dayOfYear - (153 * monthOfYear + 2) / 5 + 1
  let month := if monthOfYear < 10 then monthOfYear + 3 else monthOfYear - 9
  (yearOfEra + era * 400 + (if month ≤ 2 then 1 else 0), month.toNat, day.toNat)

def padded (width n : Nat) : Text :=
  let digits := Text.ofNat n
  List.replicate (width - digits.length) (unit '0') ++ digits

/-- A year in four digits, or with its sign in six. -/
def yearText (year : Int) : Text :=
  if 0 ≤ year ∧ year ≤ 9999 then padded 4 year.natAbs
  else (if year < 0 then unit '-' else unit '+') :: padded 6 year.natAbs

def isoText (time : Int) : Text :=
  let days := time.fdiv dayLength
  let rest := (time - days * dayLength).toNat
  let (year, month, day) := dateOfDays days
  yearText year ++ lit "-" ++ padded 2 month ++ lit "-" ++ padded 2 day ++ lit "T" ++
    padded 2 (rest / 3600000) ++ lit ":" ++ padded 2 (rest / 60000 % 60) ++ lit ":" ++
    padded 2 (rest / 1000 % 60) ++ lit "." ++ padded 3 (rest % 1000) ++ lit "Z"

/-- The names of the days of the week, from the first of January 1970 on. -/
def dayNames : List String := ["Thu", "Fri", "Sat", "Sun", "Mon", "Tue", "Wed"]

def monthNames : List String :=
  ["Jan", "Feb", "Mar", "Apr", "May", "Jun", "Jul", "Aug", "Sep", "Oct", "Nov", "Dec"]

/-- An instant in words, at Greenwich. A year has at least four digits, after a sign where it is
negative. -/
def longText (time : Int) : Text :=
  let days := time.fdiv dayLength
  let rest := (time - days * dayLength).toNat
  let (year, month, day) := dateOfDays days
  let named (names : List String) (n : Nat) : Text := lit (names[n]?.getD "")
  let sign := if year < 0 then [unit '-'] else []
  named dayNames (days.fmod 7).toNat ++ lit " " ++ named monthNames (month - 1) ++ lit " " ++
    padded 2 day ++ lit " " ++ sign ++ padded 4 year.natAbs ++ lit " " ++
    padded 2 (rest / 3600000) ++ lit ":" ++ padded 2 (rest / 60000 % 60) ++ lit ":" ++
    padded 2 (rest / 1000 % 60) ++ lit " GMT+0000 (Coordinated Universal Time)"

end SpanTree.Calendar
