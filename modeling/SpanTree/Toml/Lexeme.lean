import SpanTree.Calendar.Moment
import SpanTree.Toml.Fault
import SpanTree.Value

/-!
# The words of TOML

White space and comments, keys, strings, numbers and dates. A reader takes the rest of a text and
answers with what it read and what follows, or with a fault.

* `skipBlanks`, `skipFiller`: white space, and white space with comments;
* `readString`: a basic or literal string of one or many lines;
* `readKey`: a dotted key up to the unit that ends it;
* `readNumber`, `readDateTime`, `readTime`: numbers, dates and times.
-/

namespace SpanTree.Toml

/-! ## White space -/

def isBlank (u : CodeUnit) : Bool := u = unit ' ' || u = unit '\t'

/-- Controls other than the tab. -/
def isControl (u : CodeUnit) : Bool := (u < 0x20 && u ≠ unit '\t') || u = 0x7F

/-- A return that belongs to a line end. -/
def isReturn (u : CodeUnit) (rest : Text) : Bool :=
  u = unit '\r' && rest.head? = some (unit '\n')

def skipBlanks (t : Text) : Text := t.dropWhile isBlank

/-- Drops spaces, tabs and comments, and line ends too where `lines` says so. -/
def skipFiller (lines : Bool) (inComment : Bool) : Text → Except Fault Text
  | [] => .ok []
  | u :: rest =>
    if u = unit '\n' then if lines then skipFiller lines false rest else .ok (u :: rest)
    else if isReturn u rest then
      if lines || inComment then skipFiller lines false rest else .ok (u :: rest)
    else if inComment then
      if isControl u then fault .controlInComment (u :: rest) else skipFiller lines true rest
    else if isBlank u then skipFiller lines false rest
    else if u = unit '#' then skipFiller lines true rest
    else .ok (u :: rest)

/-- Drops white space, line ends and comments. -/
def skipLines (t : Text) : Except Fault Text := skipFiller true false t

/-- Drops white space and a comment up to the end of the line. -/
def skipToLineEnd (t : Text) : Except Fault Text := skipFiller false false t

/-! ## Strings -/

/-- Where the reading of a string stands; an escape keeps the text from its backslash on. -/
inductive StringState where
  | plain
  | escape (start : Text)
  | hex (left value : Nat) (start : Text)
  /-- After a backslash and spaces: the line must end. -/
  | gap (start : Text)
  /-- After the line end that a backslash took away: white space is dropped. -/
  | fold

def consUnits (units : Text) : Except Fault (Text × Text) → Except Fault (Text × Text)
  | .ok (t, rest) => .ok (units ++ t, rest)
  | .error f => .error f

def shortEscape? (u : CodeUnit) : Option CodeUnit :=
  if u = unit 'b' then some 8
  else if u = unit 't' then some 9
  else if u = unit 'n' then some 10
  else if u = unit 'f' then some 12
  else if u = unit 'r' then some 13
  else if u = unit 'e' then some 27
  else if u = unit '"' || u = unit '\\' then some u
  else none

def hexLength? (u : CodeUnit) : Option Nat :=
  if u = unit 'x' then some 2 else if u = unit 'u' then some 4 else if u = unit 'U' then some 8
  else none

/-- The units of an escaped number, if it is a character. -/
def escapedUnits? (value : Nat) : Option Text :=
  if value.isValidChar then some (.ofChar (Char.ofNat value)) else none

/-- Whether a closing quote stands here: three in a row for a string of many lines. -/
def closes (quote : CodeUnit) (multiline : Bool) (u : CodeUnit) (rest : Text) : Bool :=
  u = quote && (!multiline || (rest.head? = some quote && rest[1]? = some quote))

/-- How many quotes in front of the closing ones belong to the string: at most two. -/
def extraQuotes (quote : CodeUnit) (rest : Text) : Nat :=
  if rest[2]? = some quote then if rest[3]? = some quote then 2 else 1 else 0

/-- Closes a string; quotes before the closing ones count only in plain text. -/
def closeString (quote : CodeUnit) (multiline plain : Bool) (rest : Text) :
    Except Fault (Text × Text) :=
  if multiline then
    let extra := extraQuotes quote rest
    .ok (if plain then List.replicate extra quote else [], rest.drop (2 + extra))
  else .ok ([], rest)

def readBody (quote : CodeUnit) (multiline : Bool) (start : Text) :
    StringState → Text → Except Fault (Text × Text)
  | .hex _ _ _, [] => fault .escapeDigit []
  | _, [] => fault .unfinishedString start
  | .hex left value origin, u :: rest =>
    match u.hexValue? with
    | none => fault .escapeDigit (u :: rest)
    | some digit =>
      let value := value * 16 + digit
      match left with
      | left + 2 => readBody quote multiline start (.hex (left + 1) value origin) rest
      | _ =>
        match escapedUnits? value with
        | some units => consUnits units (readBody quote multiline start .plain rest)
        | none => fault .escapeValue origin
  | .plain, u :: rest =>
    if multiline && (u = unit '\n' || isReturn u rest) then
      consUnits [u] (readBody quote multiline start .plain rest)
    else if isControl u then fault .controlInString (u :: rest)
    else if closes quote multiline u rest then closeString quote multiline true rest
    else if quote = unit '"' && u = unit '\\' then
      readBody quote multiline start (.escape (u :: rest)) rest
    else consUnits [u] (readBody quote multiline start .plain rest)
  | .fold, u :: rest =>
    if u = unit '\n' || isReturn u rest then readBody quote multiline start .fold rest
    else if isControl u then fault .controlInString (u :: rest)
    else if closes quote multiline u rest then closeString quote multiline false rest
    else if isBlank u then readBody quote multiline start .fold rest
    else if u = unit '\\' then readBody quote multiline start (.escape (u :: rest)) rest
    else consUnits [u] (readBody quote multiline start .plain rest)
  | .escape origin, u :: rest =>
    if multiline && (u = unit '\n' || isReturn u rest) then
      readBody quote multiline start .fold rest
    else if isControl u then fault .controlInString (u :: rest)
    else
      match hexLength? u, shortEscape? u with
      | some length, _ => readBody quote multiline start (.hex length 0 origin) rest
      | none, some v => consUnits [v] (readBody quote multiline start .plain rest)
      | none, none =>
        if multiline && isBlank u then readBody quote multiline start (.gap origin) rest
        else fault .unknownEscape (u :: rest)
  | .gap origin, u :: rest =>
    if u = unit '\n' || isReturn u rest then readBody quote multiline start .fold rest
    else if isControl u then fault .controlInString (u :: rest)
    else if isBlank u then readBody quote multiline start (.gap origin) rest
    else fault .spaceEscape origin

/-- Drops a line end that directly follows the opening quotes. -/
def dropLineEnd : Text → Text
  | [] => []
  | u :: rest =>
    if u = unit '\n' then rest else if isReturn u rest then rest.tail else u :: rest

def readString (t : Text) : Except Fault (Text × Text) :=
  match t with
  | quote :: b :: c :: rest =>
    if b = quote && c = quote then readBody quote true t .plain (dropLineEnd rest)
    else readBody quote false t .plain (b :: c :: rest)
  | quote :: rest => readBody quote false t .plain rest
  | [] => fault .unfinishedString []

/-! ## Keys -/

def isBare (u : CodeUnit) : Bool := u.isWord || u = unit '-'

/-- Reads a dotted key up to the unit that ends it, from one of its parts on. `start` is the whole
key, and there are fewer parts than units in the first text. A NUL unit ends the text of a key. -/
def readParts (stop : CodeUnit) (start : Text) : Text → Text → Except Fault (List Text × Text)
  | [], _ => fault .incompleteKey start
  | _ :: fuel, t =>
    let part := skipBlanks t
    let rest : Except Fault (Text × Text) :=
      match part with
      | [] => fault .incompleteKey start
      | u :: after =>
        if u = 0 && part.length < start.length then fault .incompleteKey start
        else if u = stop then fault .emptyKey part
        else if u = unit '.' then fault .emptySegment part
        else if u = unit '"' || u = unit '\'' then
          if after.head? = some u && after[1]? = some u then fault .multilineKey part
          else readString part
        else if isBare u then .ok (part.takeWhile isBare, part.dropWhile isBare)
        else fault .keyCharacter part
    match rest with
    | .error f => .error f
    | .ok (key, rest) =>
      match skipBlanks rest with
      | [] => fault .incompleteKey start
      | u :: after =>
        if u = 0 then fault .incompleteKey start
        else if u = stop then .ok ([key], after)
        else if u = unit '.' then
          (readParts stop start fuel after).map fun (keys, rest) => (key :: keys, rest)
        else fault .keyCharacter (u :: after)

def readKey (stop : CodeUnit) (t : Text) : Except Fault (List Text × Text) :=
  readParts stop t t t

/-! ## Numbers -/

/-- Whether a value ends before a unit; in a bracketed list also at its close and at a comma. -/
def isEnd (close : Option CodeUnit) (u : CodeUnit) : Bool :=
  isBlank u || u = unit '\n' || u = unit '\r' || u = unit '#' ||
    close.any fun c => u = c || u = unit ','

inductive Phase where
  | whole
  | wholeGap
  | point
  | fraction
  | fractionGap
  | mark
  | sign
  | power
  | powerGap
deriving DecidableEq

/-- The phase after an underscore, which may stand after a digit only. -/
def Phase.gap? : Phase → Option Phase
  | whole => some wholeGap
  | fraction => some fractionGap
  | power => some powerGap
  | _ => none

def Phase.digit : Phase → Phase
  | whole | wholeGap => whole
  | point | fraction | fractionGap => fraction
  | mark | sign | power | powerGap => power

/-- A decimal number up to its end, with the phase in which it ends. The units read so far stand in
reverse and without underscores in `seen`. -/
def scanNumber (close : Option CodeUnit) :
    Phase → Text → Text → Except Fault (Phase × Text × Text)
  | phase, seen, [] => .ok (phase, seen.reverse, [])
  | phase, seen, u :: rest =>
    if isEnd close u then .ok (phase, seen.reverse, u :: rest)
    else if u = unit '_' then
      match phase.gap? with
      | some gap => scanNumber close gap seen rest
      | none => fault .underscore (u :: rest)
    else if phase = .whole && u = unit '.' then scanNumber close .point (u :: seen) rest
    else if (phase = .whole || phase = .fraction) && (u = unit 'e' || u = unit 'E') then
      scanNumber close .mark (u :: seen) rest
    else if phase = .mark && (u = unit '+' || u = unit '-') then
      scanNumber close .sign (u :: seen) rest
    else if u.isDigit then scanNumber close phase.digit (u :: seen) rest
    else fault .numberCharacter (u :: rest)

/-- The value of a number from its phase, its digits with all that stands between them, and what
follows. `start` is the text from its beginning on. -/
def finishNumber (start : Text) : Phase × Text × Text → Except Fault (Value × Text)
  | (phase, digits, rest) =>
    match phase with
    | .whole =>
      let magnitude : Int := Text.digitsValue (digits.dropWhile fun u => !u.isDigit)
      .ok (.integer (if digits.head? = some (unit '-') then -magnitude else magnitude), rest)
    | .fraction | .power => .ok (.number (.ofNumeral digits), rest)
    | _ => fault .unfinishedNumber start

/-- The value of a digit in a base of at most sixteen. -/
def digitIn? (base : Nat) (u : CodeUnit) : Option Nat :=
  u.hexValue?.bind fun v => if v < base then some v else none

/-- A whole number in a base up to its end, where a digit may be due. The digits read so far stand
in reverse in `seen`. -/
def scanBased (base : Nat) (close : Option CodeUnit) :
    Bool → List Nat → Text → Except Fault (List Nat × Text)
  | due, seen, [] => if due then fault .unfinishedNumber [] else .ok (seen.reverse, [])
  | due, seen, u :: rest =>
    if isEnd close u then
      if due then fault .unfinishedNumber (u :: rest) else .ok (seen.reverse, u :: rest)
    else if u = unit '_' then
      if due then fault .underscore (u :: rest) else scanBased base close true seen rest
    else
      match digitIn? base u with
      | some digit => scanBased base close false (digit :: seen) rest
      | none => fault .numberCharacter (u :: rest)

/-- A whole number in a base, after its two-unit mark. -/
def readBased (base : Nat) (close : Option CodeUnit) (t : Text) : Except Fault (Value × Text) :=
  (scanBased base close true [] t).map fun (digits, rest) =>
    (.integer (Text.valueIn base digits), rest)

/-- A number after its sign, if it has one. `start` is the number with its sign. -/
def readNumber (close : Option CodeUnit) (start : Text) (sign : Option CodeUnit) (t : Text) :
    Except Fault (Value × Text) :=
  match t with
  | [] => fault .invalidValue start
  | u :: rest =>
    let seen := u :: sign.toList
    if u = unit 'i' then
      if rest.take 2 = lit "nf" then
        .ok (.number (.infinite (sign = some (unit '-'))), rest.drop 2)
      else fault .invalidValue start
    else if u = unit 'n' then
      if rest.take 2 = lit "an" then .ok (.number .nan, rest.drop 2) else fault .invalidValue start
    else if u = unit '0' then
      match rest with
      | [] => .ok (.integer 0, [])
      | v :: after =>
        if isEnd close v then .ok (.integer 0, rest)
        else if sign.isNone && v = unit 'x' then readBased 16 close after
        else if sign.isNone && v = unit 'b' then readBased 2 close after
        else if sign.isNone && v = unit 'o' then readBased 8 close after
        else if v = unit '.' then
          (scanNumber close .point (v :: seen) after).bind (finishNumber start)
        else if v = unit 'e' || v = unit 'E' then
          (scanNumber close .mark (v :: seen) after).bind (finishNumber start)
        else fault .leadingZero start
    else if u.isDigit then (scanNumber close .whole seen rest).bind (finishNumber start)
    else fault .invalidValue start

/-! ## Dates and times -/

def finishMoment (start : Text) (m : Moment) (rest : Text) : Except Fault (Value × Text) :=
  if m.time.isSome then .ok (.moment m, rest) else fault .invalidDate start

/-- The fraction of a second in front of a text, and what follows. -/
def splitFraction (t : Text) : Text × Text :=
  match t with
  | [] => ([], [])
  | u :: rest =>
    if u = unit '.' then
      (u :: rest.takeWhile CodeUnit.isDigit, rest.dropWhile CodeUnit.isDigit)
    else ([], t)

/-- Splits off a time without its zone: what stands up to its minutes has `count` units, and seconds
and their fraction may follow. -/
def splitClock (count : Nat) (t : Text) : Text × Text :=
  let count := if t[count]? = some (unit ':') then count + 3 else count
  let (fraction, rest) := splitFraction (t.drop count)
  (t.take count ++ fraction, rest)

/-- A date with a time, where the time begins after ten units. -/
def readTimed (t : Text) : Except Fault (Value × Text) :=
  if t[13]? ≠ some (unit ':') then fault .malformedTime t
  else
    let (clock, rest) := splitClock 16 t
    match rest with
    | [] => finishMoment t (.ofLocal clock) []
    | u :: after =>
      if u = unit 'Z' || u = unit 'z' then finishMoment t (.ofZoned (clock ++ [u])) after
      else if u = unit '+' || u = unit '-' then
        finishMoment t (.ofZoned (clock ++ rest.take 6)) (rest.drop 6)
      else finishMoment t (.ofLocal clock) rest

/-- Whether a time follows a date of ten units: after a letter, or after a space and a digit. -/
def isTimed (t : Text) : Bool :=
  match t[10]? with
  | none => false
  | some u =>
    u = unit 'T' || u = unit 't' || (u = unit ' ' && t[11]?.any CodeUnit.isDigit)

/-- A date, with a time if one follows; a number where the text does not begin with four digits. -/
def readDateTime (close : Option CodeUnit) (t : Text) : Except Fault (Value × Text) :=
  if !((t.take 4).all CodeUnit.isDigit) then readNumber close t none t
  else if !(t[9]?.any CodeUnit.isDigit) then fault .malformedDate t
  else if isTimed t then readTimed t
  else finishMoment t (.ofDate (t.take 10)) (t.drop 10)

/-- A time of day; a number where the text does not begin with two digits. Where it does not begin
with a digit at all, the fault lies one unit before it. -/
def readTime (close : Option CodeUnit) (t : Text) : Except Fault (Value × Text) :=
  if !(t.head?.any CodeUnit.isDigit) then .error ⟨.invalidValue, t.length + 1⟩
  else if !(t[1]?.any CodeUnit.isDigit) then readNumber close t none t
  else
    let (clock, rest) := splitClock 5 t
    finishMoment t (.ofTime clock) rest

end SpanTree.Toml
