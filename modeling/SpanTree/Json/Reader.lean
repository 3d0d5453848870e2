import SpanTree.Json.Number

/-!
# Reading JSON

A JSON document as it is written: numbers keep their digits, and the members of an object keep their
order and their repetitions.

* `Json.readString`: the units that a string stands for, after its opening quote;
* `Json.readList`: a bracketed list of anything, after its opening bracket;
* `Json.readValue`: one value from the front of a text;
* `Json.read`: a whole text, or the fault that ends the reading.
-/

namespace SpanTree

inductive Json where
  | null
  | boolean (value : Bool)
  | number (digits : Text)
  | string (text : Text)
  | array (items : List Json)
  | object (members : List (Text × Json))

namespace Json

def isBlank (u : CodeUnit) : Bool := u = unit ' ' || u = 9 || u = 10 || u = 13

def skipBlanks (t : Text) : Text := t.dropWhile isBlank

def shortEscape? (u : CodeUnit) : Option CodeUnit :=
  if u = unit '"' || u = unit '\\' || u = unit '/' then some u
  else if u = unit 'b' then some 8
  else if u = unit 'f' then some 12
  else if u = unit 'n' then some 10
  else if u = unit 'r' then some 13
  else if u = unit 't' then some 9
  else none

/-- The fault of a `\u` escape: the first of four places without a hexadecimal digit. -/
def escapeFault {α : Type} (t : Text) : Except Fault α :=
  fault .badUnicodeEscape ((t.take 4).dropWhile (·.hexValue?.isSome) ++ t.drop 4)

def hexUnit? (a b c d : CodeUnit) : Option CodeUnit := do
  let a ← a.hexValue?
  let b ← b.hexValue?
  let c ← c.hexValue?
  let d ← d.hexValue?
  return (((a * 16 + b) * 16 + c) * 16 + d).toUInt16

def consUnit (u : CodeUnit) : Except Fault (Text × Text) → Except Fault (Text × Text)
  | .ok (t, rest) => .ok (u :: t, rest)
  | .error f => .error f

/-- The units of a string up to its closing quote, and what follows that. -/
def readString : Text → Except Fault (Text × Text)
  | [] => fault .unterminatedString []
  | u :: rest =>
    if u = unit '"' then .ok ([], rest)
    else if u < 0x20 then fault .controlCharacter (u :: rest)
    else if u = unit '\\' then
      match rest with
      | [] => fault .unexpected []
      | e :: rest =>
        if 0xFF < e then fault .unexpected (e :: rest)
        else if e = unit 'u' then
          match rest with
          | a :: b :: c :: d :: after =>
            match hexUnit? a b c d with
            | some v => consUnit v (readString after)
            | none => escapeFault (a :: b :: c :: d :: after)
          | short => escapeFault short
        else
          match shortEscape? e with
          | some v => consUnit v (readString rest)
          | none => fault .badEscape (e :: rest)
    else consUnit u (readString rest)

/-- The rest after a word, or the fault at the first unit that differs. -/
def readWord : Text → Text → Except Fault Text
  | [], t => .ok t
  | _ :: _, [] => fault .unexpected []
  | w :: word, u :: rest => if u = w then readWord word rest else fault .unexpected (u :: rest)

/-- A list of entries with commas between them up to a closing unit, from its second entry on. There
are fewer entries than units in the first text. -/
def readMore {α : Type} (entry : Text → Except Fault (α × Text)) (close : CodeUnit)
    (unclosed : Cause) : Text → Text → Except Fault (List α × Text)
  | [], t => fault unclosed t
  | _ :: fuel, t =>
    match skipBlanks t with
    | [] => fault unclosed []
    | u :: rest =>
      if u = unit ',' then do
        let (first, rest) ← entry rest
        let (more, rest) ← readMore entry close unclosed fuel rest
        return (first :: more, rest)
      else if u = close then return ([], rest)
      else fault unclosed (u :: rest)

/-- A list after its opening bracket: empty, or entries with commas between them. -/
def readList {α : Type} (first later : Text → Except Fault (α × Text)) (close : CodeUnit)
    (unclosed : Cause) (t : Text) : Except Fault (List α × Text) :=
  let t := skipBlanks t
  if t.head? = some close then .ok ([], t.tail)
  else do
    let (entry, rest) ← first t
    let (more, rest) ← readMore later close unclosed rest rest
    return (entry :: more, rest)

/-- A member of an object: a string, a colon and a value. -/
def readMember {α : Type} (value : Text → Except Fault (α × Text)) (missing : Cause) (t : Text) :
    Except Fault ((Text × α) × Text) :=
  let t := skipBlanks t
  if t.head? = some (unit '"') then do
    let (name, rest) ← readString t.tail
    let rest := skipBlanks rest
    if rest.head? = some (unit ':') then
      let (v, rest) ← value rest.tail
      return ((name, v), rest)
    else fault .missingColon rest
  else fault missing t

/-- One value from the front of a text. The fuel bounds the nesting. -/
def readValue : Nat → Text → Except Fault (Json × Text)
  | 0, t => fault .unexpected t
  | fuel + 1, t =>
    match skipBlanks t with
    | [] => fault .unexpected []
    | u :: rest =>
      if u = unit '"' then do
        let (s, rest) ← readString rest
        return (string s, rest)
      else if u = unit '-' || u.isDigit then do
        let (digits, rest) ← scanNumber (u :: rest)
        return (number digits, rest)
      else if u = unit 't' then do return (boolean true, ← readWord (lit "true") (u :: rest))
      else if u = unit 'f' then do return (boolean false, ← readWord (lit "false") (u :: rest))
      else if u = unit 'n' then do return (null, ← readWord (lit "null") (u :: rest))
      else if u = unit '\x7b' then do
        let member := readMember (readValue fuel)
        let (members, rest) ← readList (member .missingName) (member .missingLaterName)
          (unit '\x7d') .unclosedObject rest
        return (object members, rest)
      else if u = unit '[' then do
        let (items, rest) ←
          readList (readValue fuel) (readValue fuel) (unit ']') .unclosedArray rest
        return (array items, rest)
      else fault .unexpected (u :: rest)

/-- Reads a text that is one value with white space around it. -/
def read (t : Text) : Except Fault Json := do
  let (value, rest) ← readValue (t.length + 1) t
  match skipBlanks rest with
  | [] => return value
  | rest => fault .trailing rest

end Json

end SpanTree
