import SpanTree.Document.Complaint
import SpanTree.Toml.Lexeme
import SpanTree.Toml.Table

/-!
# Reading TOML

* `Toml.readItems`, `Toml.readMembers`: the inside of an array and of an inline table, for any
  reader of values;
* `Toml.readValue`: one value from the front of a text, where arrays and inline tables may stand
  inside each other only so deep;
* `Toml.readLines`: headers and keys with their values, line by line;
* `Toml.read`: a whole text, or the fault that ends the reading;
* `Toml.Reader.standard`: the same as a reader for programs.
-/

namespace SpanTree.Toml

/-- How deep arrays and inline tables may stand inside each other. -/
def maxNesting : Nat := 1000

/-- The items of an array up to its closing bracket. `start` is the array from its opening bracket
on, and there are fewer items than units in the first text. -/
def readItems (item : Text → Except Fault (Value × Text)) (start : Text) :
    Text → Text → Except Fault (List Value × Text)
  | [], _ => fault .unfinishedArray start
  | _ :: fuel, t =>
    if t.isEmpty then fault .unfinishedArray start
    else do
      let t ← skipLines t
      if t.head? = some (unit ']') then return ([], t.tail)
      let (value, t) ← item t
      let t ← skipLines t
      match t with
      | [] => fault .missingComma []
      | u :: rest =>
        if u = unit ']' then return ([value], rest)
        else if u = unit ',' then
          let (more, rest) ← readItems item start fuel rest
          return (value :: more, rest)
        else fault .missingComma t

/-- The members of an inline table up to its closing brace, added to those read so far. There are
fewer members than units in the first text. -/
def readMembers (value : Text → Except Fault (Value × Text)) (start : Text) :
    Text → Table → Text → Except Fault (Table × Text)
  | [], _, _ => fault .unfinishedTable start
  | _ :: fuel, done, t =>
    if t.isEmpty then fault .unfinishedTable start
    else do
      let t ← skipLines t
      if t.head? = some (unit '\x7d') then return (done, t.tail)
      let (key, rest) ← readKey (unit '=') t
      if (done.declare (.value .null) key).isNone then fault .redefinedValue t
      else
        let (v, t) ← value (skipBlanks rest)
        let done := (done.declare (.value v) key).getD done
        let t ← skipLines t
        match t with
        | [] => fault .missingComma []
        | u :: rest =>
          if u = unit '\x7d' then return (done, rest)
          else if u = unit ',' then readMembers value start fuel done rest
          else fault .missingComma t

def readWord (word : Text) (value : Value) (t : Text) : Except Fault (Value × Text) :=
  if t.take word.length = word then .ok (value, t.drop word.length) else fault .invalidValue t

/-- A value that is neither an array nor a table. -/
def readScalar (close : Option CodeUnit) (t : Text) : Except Fault (Value × Text) :=
  match t with
  | [] => readNumber close t none t
  | u :: rest =>
    if u = unit '"' || u = unit '\'' then (readString t).map fun (s, rest) => (.string s, rest)
    else if u = unit 't' then readWord (lit "true") (.boolean true) t
    else if u = unit 'f' then readWord (lit "false") (.boolean false) t
    else if u = unit '+' || u = unit '-' then readNumber close t (some u) rest
    else if t[4]? = some (unit '-') && t[7]? = some (unit '-') then readDateTime close t
    else if t[2]? = some (unit ':') then readTime close t
    else readNumber close t none t

/-- One value from the front of a text, inside a list that ends at `close` if there is one. Arrays
and tables may open `depth` levels further. -/
def readValue : Nat → Option CodeUnit → Text → Except Fault (Value × Text)
  | 0, close, t =>
    if t.head? = some (unit '[') || t.head? = some (unit '\x7b') then fault .tooDeep t
    else readScalar close t
  | depth + 1, close, t =>
    if t.head? = some (unit '[') then
      (readItems (readValue depth (some (unit ']'))) t t t.tail).map fun (items, rest) =>
        (.array items, rest)
    else if t.head? = some (unit '\x7b') then
      (readMembers (readValue depth (some (unit '\x7d'))) t t [] t.tail).map
        fun (table, rest) => (table.toValue, rest)
    else readScalar close t

/-- The document so far, and the header that the next keys belong to. -/
structure Progress where
  root : Table
  header : List Text

def readHeader (s : Progress) (t : Text) : Except Fault (Progress × Text) := do
  let isArray := t.head? = some (unit '[')
  let start := if isArray then t.tail else t
  let (key, rest) ← readKey (unit ']') start
  if isArray && rest.head? ≠ some (unit ']') then fault .unclosedTableArray rest
  else
    match s.root.declare (if isArray then .tableArray else .table) key with
    | none => fault .redefinedTable start
    | some root => return (⟨root, key⟩, if isArray then rest.tail else rest)

def readPair (s : Progress) (t : Text) : Except Fault (Progress × Text) := do
  let (key, rest) ← readKey (unit '=') t
  let declare (v : Value) := Table.within (Table.declare (.value v) key) s.header s.root
  if (declare .null).isNone then fault .redefinedTable t
  else
    let (v, rest) ← readValue maxNesting none (skipBlanks rest)
    return (⟨(declare v).getD s.root, s.header⟩, rest)

/-- A header, or a key and its value, up to the end of its line. -/
def readLine (s : Progress) (t : Text) : Except Fault (Progress × Text) := do
  let (s, rest) ← if t.head? = some (unit '[') then readHeader s t.tail else readPair s t
  let rest ← skipToLineEnd rest
  match rest with
  | [] => return (s, [])
  | u :: after =>
    if u = unit '\n' || isReturn u after then return (s, ← skipLines rest)
    else fault .missingLineEnd rest

/-- All lines of a document; the fuel bounds their number. -/
def readLines : Nat → Progress → Text → Except Fault Table
  | 0, s, _ => .ok s.root
  | fuel + 1, s, t =>
    if t.isEmpty then .ok s.root
    else do
      let (s, rest) ← readLine s t
      readLines fuel s rest

/-- Reads a document, after a byte order mark if it has one. -/
def read (t : Text) : Except Fault Value := do
  let t := if t.head? = some 0xFEFF then t.tail else t
  let rest ← skipLines t
  return (← readLines (rest.length + 1) ⟨[], []⟩ rest).toValue

def complaint (message text : Text) (p : Position) : Complaint :=
  .positioned (describe message text p) (some (.natural p.line)) (some (.natural p.column))

def Reader.standard : Reader where
  read text := (Toml.read text).mapError fun fault =>
    complaint fault.cause.words text (fault.position text)

end SpanTree.Toml
