import SpanTree.Calendar.Token

/-!
# Reading dates

A date begins with a year in four digits. It is read in its standard form as far as it keeps to it,
`YYYY-MM-DD` with the month and the day in their bounds, then perhaps `T`, `HH:mm`, `:ss`, a
fraction and a zone. Where the form is left before the `T`, the rest is read loosely: each number
counts for what is missing, words name months, zones and halves of the day, and a date of numbers
alone is a month, a day and a year if its first number could be a day.

* `standardDate`, `standardClock`: the two halves of the standard form;
* `Draft.step`, `Draft.read`: what a token adds to a date that is read loosely;
* `Draft.instant?`: the instant that the parts of a date make;
* `instant?`: the instant that a text names. A day past the end of its month belongs to the next
  month, and a time without a zone is at Greenwich.
-/

namespace SpanTree.Calendar

def isMonth (n : Nat) : Bool := 1 ≤ n && n ≤ 12

def isDay (n : Nat) : Bool := 1 ≤ n && n ≤ 31

/-- The instant of a day and a time of day, by a clock that is ahead of Greenwich by an offset in
seconds. -/
def instantOf (days : Int) (time : Nat) (offset : Int) : Option Int :=
  inReach (days * dayLength + time - offset * 1000)

/-- The milliseconds of a time of day. The end of a day has an hour of its own, the 24th. -/
def timeOf (hour minute second thousandth : Nat) : Option Nat :=
  if hour ≤ 23 && minute ≤ 59 && second ≤ 59 && thousandth ≤ 999 ||
      hour = 24 && minute = 0 && second = 0 && thousandth = 0 then
    some (((hour * 60 + minute) * 60 + second) * 1000 + thousandth)
  else none

/-- The number of a day, if there are such a month and such a day in some month. -/
def dayOf (year month day : Nat) : Option Int :=
  if isMonth month && isDay day then some (daysOfDate year month 1 + (day - 1 : Nat)) else none

/-! ## The standard form -/

/-- The month and the day after a year, as far as they keep to the form, then what follows, and
whether the form was kept. -/
def standardDate : List Token → List Nat × List Token × Bool
  | .sign true :: .number month 2 :: rest =>
    if isMonth month then
      match rest with
      | .sign true :: .number day 2 :: after =>
        if isDay day then ([month, day], after, true)
        else ([month], .number day 2 :: after, false)
      | .sign true :: after => ([month], after, false)
      | _ => ([month], rest, true)
    else ([], .number month 2 :: rest, false)
  | .sign true :: rest => ([], rest, false)
  | rest => ([], rest, true)

/-- Seconds and thousandths after a minute, both zero where they are missing, and what follows. -/
def standardSeconds : List Token → Option ((Nat × Nat) × List Token)
  | .colon :: .number second 2 :: .point :: .number value length :: rest =>
    some ((second, Token.thousandths value length), rest)
  | .colon :: .number _ 2 :: .point :: _ => none
  | .colon :: .number second 2 :: rest => some ((second, 0), rest)
  | .colon :: _ => none
  | rest => some ((0, 0), rest)

/-- The seconds ahead of Greenwich of a zone by its sign, hours and minutes. -/
def offsetOf (negative : Bool) (hours minutes : Nat) : Int :=
  let seconds : Int := (hours * 60 + minutes) * 60
  if negative then -seconds else seconds

/-- The zone that ends a date, in seconds ahead of Greenwich. -/
def standardZone : List Token → Option Int
  | [] => some 0
  | [.word .zulu] => some 0
  | [.sign negative, .number n 4] =>
    if n / 100 ≤ 23 && n % 100 ≤ 59 then some (offsetOf negative (n / 100) (n % 100)) else none
  | [.sign negative, .number hours 2, .colon, .number minutes 2] =>
    if hours ≤ 23 && minutes ≤ 59 then some (offsetOf negative hours minutes) else none
  | _ => none

def standardClock : List Token → Option (Nat × Int)
  | .number hour 2 :: .colon :: .number minute 2 :: rest => do
    let ((second, thousandth), rest) ← standardSeconds rest
    return (← timeOf hour minute second thousandth, ← standardZone rest)
  | _ => none

/-! ## Loose dates -/

structure Draft where
  /-- Up to three numbers for the year, the month and the day. -/
  numbers : List Nat
  /-- A month that was named. -/
  month : Option Nat := none
  /-- Up to four numbers of a time of day. -/
  clock : List Nat := []
  /-- The half of the day, by the hour that it begins at. -/
  half : Option Nat := none
  /-- The sign of a zone, if there was one. -/
  negative : Option Bool := none
  hours : Option Nat := none
  minutes : Option Nat := none

namespace Draft

/-- Whether a number is due as the next part of the time of day. -/
def expects (d : Draft) (n : Nat) : Bool :=
  match d.clock.length with
  | 1 | 2 => n ≤ 59
  | 3 => n ≤ 999
  | _ => false

/-- Whether a number is due as the minutes of the zone. -/
def expectsMinutes (d : Draft) (n : Nat) : Bool :=
  d.hours.isSome && d.minutes.isNone && n ≤ 59

def addClock? (d : Draft) (n : Nat) : Option Draft :=
  if d.clock.length < 4 then some { d with clock := d.clock ++ [n] } else none

/-- Adds the last parts of the time of day; those that are missing are zero. -/
def closeClock (d : Draft) (parts : List Nat) : Draft :=
  { d with clock := (d.clock ++ parts ++ [0, 0, 0]).take 4 }

/-- Sets the zone, by its hours ahead of Greenwich. -/
def withZone (d : Draft) (hours : Int) : Draft :=
  { d with negative := some (hours < 0), hours := some hours.natAbs, minutes := some 0 }

def isUtc (d : Draft) : Bool := d.hours = some 0 && d.minutes = some 0

/-- Whether a token may stand directly after a time of day. -/
def mayFollowTime : Option Token → Bool
  | none | some .blank | some (.word .zulu) | some (.sign _) => true
  | _ => false

/-- One for the dash that may follow a part of a date, and zero where there is none. -/
def dashes : List Token → Nat
  | .sign true :: _ => 1
  | _ => 0

/-- Adds a number that no mark explains, before the tokens that follow: the minutes of the zone, the
end of the time of day, or a part of the date, of which there are three. -/
def addNumber? (d : Draft) (n : Nat) (rest : List Token) : Option (Draft × Nat) :=
  if d.expectsMinutes n then some ({ d with minutes := some n }, 0)
  else if d.expects n then
    if mayFollowTime rest.head? then some (d.closeClock [n], 0) else none
  else if d.numbers.length < 3 then some ({ d with numbers := d.numbers ++ [n] }, dashes rest)
  else none

/-- Adds a zone by its sign, before the tokens that follow. Hours and minutes may stand in one
number or in two with a colon between them. -/
def addZone? (d : Draft) (negative : Bool) (rest : List Token) : Option (Draft × Nat) :=
  let zone (hours : Nat) (minutes : Option Nat) : Draft :=
    { d with negative := some negative, hours := some hours, minutes := minutes }
  match rest with
  | .number n _ :: .colon :: _ => some (zone n none, 1)
  | .number n length :: _ =>
    if length ≤ 2 then some (zone n (some 0), 1)
    else if length ≤ 4 then some (zone (n / 100) (some (n % 100)), 1)
    else none
  | .colon :: _ => some (zone 0 none, 0)
  | _ => none

/-- What a token adds to a date before the tokens that follow, and how many of these it takes with
it. A number before a colon is a part of the time of day, one before a point its seconds. -/
def step (d : Draft) (token : Token) (rest : List Token) : Option (Draft × Nat) :=
  match token with
  | .number n _ =>
    match rest with
    | .colon :: .colon :: _ =>
      if d.clock.isEmpty then some ({ d with clock := [n, 0] }, 2) else none
    | .colon :: .point :: _ => (d.addClock? n).map (·, 2)
    | .colon :: _ => (d.addClock? n).map (·, 1)
    | .point :: after =>
      if d.expects n then
        match after with
        | .number value length :: _ =>
          some (d.closeClock [n, Token.thousandths value length], 2)
        | _ => none
      else (d.addNumber? n after).map fun (d, taken) => (d, taken + 1)
    | _ => d.addNumber? n rest
  | .word (.month number) => some ({ d with month := some number }, dashes rest)
  | .word (.half hours) =>
    if d.clock.isEmpty then none else some ({ d with half := some hours }, 0)
  | .word (.zone hours) => some (d.withZone hours, 0)
  | .word .zulu => some (d.withZone 0, 0)
  | .word _ => none
  | .sign negative => if d.isUtc || !d.clock.isEmpty then d.addZone? negative rest else none
  | .closing => none
  | .colon | .point | .blank | .other => some (d, 0)

def read (d : Draft) : List Token → Option Draft
  | [] => some d
  | token :: rest =>
    match d.step token rest with
    | none => none
    | some (d, taken) => read d (rest.drop taken)
termination_by tokens => tokens.length
decreasing_by
  rw [List.length_drop, List.length_cons]
  omega

/-- A year of one or two digits lies between 1950 and 2049. -/
def fullYear (year : Nat) : Nat :=
  if year ≤ 49 then year + 2000 else if year ≤ 99 then year + 1900 else year

/-- The day of a date; missing numbers are one. -/
def day? (d : Draft) : Option Int :=
  let part (place : Nat) : Nat := d.numbers[place]?.getD 1
  match d.month with
  | none =>
    if isDay (part 0) then dayOf (fullYear (part 2)) (part 0) (part 1)
    else dayOf (fullYear (part 0)) (part 1) (part 2)
  | some month =>
    if isDay (part 0) then dayOf (fullYear (part 1)) month (part 0)
    else dayOf (fullYear (part 0)) month (part 1)

/-- The time of day; missing parts are zero. In a half of the day hours go from zero to twelve. -/
def time? (d : Draft) : Option Nat :=
  let part (place : Nat) : Nat := d.clock[place]?.getD 0
  match d.half with
  | none => timeOf (part 0) (part 1) (part 2) (part 3)
  | some hours =>
    if part 0 ≤ 12 then timeOf (part 0 % 12 + hours) (part 1) (part 2) (part 3) else none

def offset (d : Draft) : Int :=
  offsetOf (d.negative.getD false) (d.hours.getD 0) (d.minutes.getD 0)

def instant? (d : Draft) : Option Int := do instantOf (← d.day?) (← d.time?) d.offset

end Draft

def instant? (t : Text) : Option Int :=
  match Token.scan t with
  | .number year 4 :: tokens =>
    let (numbers, rest, kept) := standardDate tokens
    let loose := (Draft.read { numbers := year :: numbers } rest).bind Draft.instant?
    if kept then
      let date := dayOf year (numbers[0]?.getD 1) (numbers[1]?.getD 1)
      match rest with
      | [] => do instantOf (← date) 0 0
      | .word .separator :: rest => do
        let (time, offset) ← standardClock rest
        instantOf (← date) time offset
      | _ => loose
    else loose
  | _ => none

end SpanTree.Calendar
