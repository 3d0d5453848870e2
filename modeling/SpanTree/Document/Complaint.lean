import SpanTree.Value

/-!
# Readers and their complaints

* `Complaint`: the error of a reader. Readers of TOML name a line and a column; readers of JSON may
  name an offset in the message;
* `Toml.Reader`: a reader of TOML. Which one is used is up to the program.
-/

namespace SpanTree

inductive Complaint where
  /-- With a line and a column, unless something else was put in their place. -/
  | positioned (message : Text) (line column : Option Quantity)
  /-- Of a kind whose message may name an offset. -/
  | worded (message : Text)
  /-- Of any other kind. -/
  | other (message : Text)
deriving DecidableEq

def Complaint.message : Complaint → Text
  | positioned m _ _ | worded m | other m => m

structure Toml.Reader where
  read : Text → Except Complaint Value

end SpanTree
