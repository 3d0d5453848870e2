import SpanTree.Text.Utf8

/-!
# Files

* `Folder`: where paths begin. What a path leads to is up to the system;
* `Folder.read`: the text of a file, or why it cannot be read. A byte order mark is kept.
-/

namespace SpanTree

structure Folder where
  /-- The bytes of the file at a path, or the message of the system. -/
  bytes : Text → Except Text (List UInt8)

def Folder.read (f : Folder) (path : Text) : Except Text Text := (f.bytes path).map Utf8.decode

end SpanTree
