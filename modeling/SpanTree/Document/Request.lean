import SpanTree.Document.Disk
import SpanTree.Document.Format

/-!
# Requests

A request names a document to be loaded: a text in a format, given as it is, given to be kept in the
arena, or in a file.
-/

namespace SpanTree

def Tree.defaultLimit : Quantity := .natural 1024

inductive Origin where
  | text (text : Text)
  /-- A text that is first copied into the arena; the copy is read. -/
  | kept (text : Text)
  | file (folder : Folder) (path : Text)

structure Request where
  format : Format
  origin : Origin
  /-- The name of the document in reports; a file goes by its path. -/
  name : Option Text := none
  limit : Quantity := Tree.defaultLimit

end SpanTree
