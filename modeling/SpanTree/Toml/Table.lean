import SpanTree.Value

/-!
# Tables under construction

A TOML document names its tables piecemeal: by headers, by headers of table arrays and by dotted
keys. What a name may still be given depends on how it came to be.

* `Origin`: how a table came to be;
* `Entry`: a value, a table, or an array of tables of which the last is open;
* `Table.declare`: sets a value, or opens a table or an element of a table array, under a dotted
  name. It fails where the name, or a part of it, is taken;
* `Table.within`: works on the table that a header opened;
* `Table.toValue`: the finished document.
-/

namespace SpanTree.Toml

inductive Origin where
  /-- By a part of a dotted key. -/
  | dotted
  /-- By its own header, or so far only as a part of a longer header. -/
  | header (opened : Bool)
  /-- As a part of the header of a table array, and perhaps by its own header since. -/
  | arrayPath (opened : Bool)
deriving DecidableEq

inductive Entry where
  | value (value : Value)
  | table (origin : Origin) (members : List (Text × Entry))
  /-- The open element, and the earlier ones from last to first. -/
  | tables (last : List (Text × Entry)) (earlier : List (List (Text × Entry)))

/-- The members of a table, in the order in which they were declared. -/
abbrev Table := List (Text × Entry)

inductive Declaration where
  | value (value : Value)
  | table
  | tableArray

/-- The origin of a table that a longer name calls into being. -/
def Declaration.origin : Declaration → Origin
  | value _ => .dotted
  | table => .header false
  | tableArray => .arrayPath false

/-- Whether a declaration may reach into a table: a dotted key stays out of tables with headers. -/
def Declaration.mayEnter (d : Declaration) (origin : Origin) : Bool :=
  match d, origin with
  | .value _, .header _ => false
  | _, _ => true

namespace Table

def find? (t : Table) (key : Text) : Option Entry := (List.find? (fun m => m.1 = key) t).map (·.2)

/-- Sets a key, at its old place where it is there already. -/
def put (t : Table) (key : Text) (e : Entry) : Table := Members.define key e t

def declareLast (d : Declaration) (key : Text) (t : Table) : Option Table :=
  match t.find? key, d with
  | none, .value v => some (t.put key (.value v))
  | none, .table => some (t.put key (.table (.header true) []))
  | none, .tableArray => some (t.put key (.tables [] []))
  | some (.table (.header false) members), .table =>
    some (t.put key (.table (.header true) members))
  | some (.table (.arrayPath false) members), .table =>
    some (t.put key (.table (.arrayPath true) members))
  | some (.tables last earlier), .tableArray => some (t.put key (.tables [] (last :: earlier)))
  | _, _ => none

def declare (d : Declaration) : List Text → Table → Option Table
  | [], _ => none
  | [key], t => declareLast d key t
  | key :: rest, t =>
    match t.find? key with
    | none => (declare d rest []).map fun members => t.put key (.table d.origin members)
    | some (.value _) => none
    | some (.table origin members) =>
      if d.mayEnter origin then
        (declare d rest members).map fun members => t.put key (.table origin members)
      else none
    | some (.tables last earlier) =>
      match d with
      | .value _ => none
      | _ => (declare d rest last).map fun last => t.put key (.tables last earlier)

/-- Works on the table that a header named, in a table array on the open element. -/
def within (work : Table → Option Table) : List Text → Table → Option Table
  | [], t => work t
  | key :: rest, t =>
    match t.find? key with
    | some (.table origin members) =>
      (within work rest members).map fun members => t.put key (.table origin members)
    | some (.tables last earlier) =>
      (within work rest last).map fun last => t.put key (.tables last earlier)
    | _ => none

end Table

mutual

def Entry.toValue : Entry → Value
  | .value v => v
  | .table _ members => .object true (memberValues members)
  | .tables last earlier => .array ((elementValues earlier).reverse ++
      [.object true (memberValues last)])

def memberValues : List (Text × Entry) → List (Text × Value)
  | [] => []
  | (key, e) :: rest => (key, e.toValue) :: memberValues rest

/-- The finished values of the elements of a table array. -/
def elementValues : List (List (Text × Entry)) → List Value
  | [] => []
  | members :: rest => .object true (memberValues members) :: elementValues rest

end

def Table.toValue (t : Table) : Value := .object true (memberValues t)

end SpanTree.Toml
