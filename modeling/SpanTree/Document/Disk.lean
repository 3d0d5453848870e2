import SpanTree.Document.Folder
import SpanTree.Text.Literal

/-!
# A disk

A disk on which documents are read in runs: the files and folders of a tree, as far as reading a
file by its path can tell.

* `Disk.find`: what a path leads to;
* `Disk.read`: the bytes of a file, or the message of the system;
* `Folder.ofEntries`: a folder on a disk with the given entries.
-/

namespace SpanTree

inductive FileEntry where
  | file (bytes : List UInt8)
  | folder

/-- The files and folders by their paths, which are sequences of names. -/
structure Disk where
  entries : List (List Text × FileEntry) := []

namespace Disk

inductive Found where
  | missing
  /-- A part of the path is a file. -/
  | notFolder
  /-- A name, or the whole path, is longer than any can be. -/
  | tooLong
  | folder
  | file (bytes : List UInt8)

def names : Text → List Text
  | [] => [[]]
  | u :: rest =>
    if u = unit '/' then [] :: names rest
    else match names rest with
      | [] => [[u]]
      | name :: more => (u :: name) :: more

/-- A name that stays where it is. -/
def isHere (name : Text) : Bool := name.isEmpty || name = lit "."

def isUp (name : Text) : Bool := name = lit ".."

/-- Takes one step of a path by its words alone. -/
def advance (path : List Text) (name : Text) : List Text :=
  if isHere name then path else if isUp name then path.dropLast else path ++ [name]

/-- The names of a path, read by its words alone. Names are kept in bytes, and so in whole
characters. -/
def resolved (path : Text) : List Text := (names path.wellFormed).foldl advance []

/-- What stands at a path. A folder stands wherever an entry lies below. -/
def at? (d : Disk) (path : List Text) : Option FileEntry :=
  match d.entries.find? fun e => e.1 = path with
  | some e => some e.2
  | none =>
    if path.isEmpty || d.entries.any fun e => e.1.take path.length = path then some .folder
    else none

/-- What lies around the folder: it names a folder as long as a path names nothing new. -/
def outside (path : List Text) : Found :=
  if path.all fun name => isHere name || isUp name then .folder else .missing

/-- The names that stand at the root of every system. -/
def rootNames : List String :=
  ["bin", "boot", "dev", "etc", "home", "lib", "media", "mnt", "opt", "proc", "root", "run", "sbin",
    "srv", "sys", "tmp", "usr", "var"]

/-- What every system holds: folders at the root, and a file without contents. -/
def system : Disk :=
  ⟨([lit "dev", lit "null"], .file []) :: rootNames.map fun name => ([lit name], .folder)⟩

def maxName : Nat := 255

def maxPath : Nat := 4095

def walk (d : Disk) (here : List Text) : List Text → Found
  | [] => match d.at? here with
    | some (.file bytes) => .file bytes
    | some .folder => .folder
    | none => .missing
  | name :: rest =>
    match d.at? here with
    | none => .missing
    | some (.file _) => .notFolder
    | some .folder =>
      if isHere name then walk d here rest
      else if isUp name then if here.isEmpty then outside rest else walk d here.dropLast rest
      else if maxName < (Utf8.encode name).length then .tooLong
      else walk d (here ++ [name]) rest

/-- What a path leads to; an empty path leads nowhere. -/
def find (d : Disk) (path : Text) : Found :=
  if path.isEmpty then .missing
  else if maxPath < (Utf8.encode path).length then .tooLong
  else if path.head? = some (unit '/') then system.walk [] (names path.wellFormed)
  else d.walk [] (names path.wellFormed)

/-- The bytes of a file, or a message that names the path. A NUL is no part of any path. -/
def read (d : Disk) (path : Text) : Except Text (List UInt8) :=
  let named (words : Text) : Text := words ++ lit ", open '" ++ path ++ lit "'"
  if 0 ∈ path then
    .error (lit "The argument 'path' must be a string, Uint8Array, or URL without null bytes." ++
      lit " Received " ++ Literal.shown path)
  else
    match d.find path with
    | .file bytes => .ok bytes
    | .missing => .error (named (lit "ENOENT: no such file or directory"))
    | .notFolder => .error (named (lit "ENOTDIR: not a directory"))
    | .tooLong => .error (named (lit "ENAMETOOLONG: name too long"))
    | .folder => .error (lit "EISDIR: illegal operation on a directory, read")

end Disk

/-- A folder of the given entries, of which a later one replaces an earlier one at its place. -/
def Folder.ofEntries (entries : List (Text × FileEntry)) : Folder :=
  ⟨Disk.read ⟨(entries.map fun e => (Disk.resolved e.1, e.2)).reverse⟩⟩

end SpanTree
