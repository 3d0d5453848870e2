import SpanTree.Number.Quantity

/-!
# Offsets as lines and columns

`Text.locate` turns an offset into a line and a column, both counted from one. Lines end at line
feeds only. An offset outside the text is moved to its nearer end; one that is not whole keeps its
fraction in the column. `Text.stopAt` is the end of the units before an offset that may count from
the end of the text.
-/

namespace SpanTree

/-- A line, and a column that may not be whole. -/
structure Located where
  line : Nat
  column : Quantity
deriving DecidableEq

namespace Text

/-- The offset behind the last line feed of a text, or zero if there is none. -/
def lastLineStart (t : Text) : Nat :=
  match t.reverse.findIdx? (· = unit '\n') with
  | some i => t.length - i
  | none => 0

def locate (t : Text) (offset : Quantity) : Located :=
  let whole (n : Nat) : Located :=
    let before := t.take n
    ⟨(splitLines before).length, .natural (n - lastLineStart before + 1)⟩
  match offset with
  | .natural n => whole (min n t.length)
  | .irregular .nan => ⟨1, .irregular .nan⟩
  | .irregular x =>
    if x.lt .zero then whole 0
    else if (Binary64.ofNat t.length).lt x then whole t.length
    else
      let before := t.take (x.truncate.getD 0).toNat
      let start := Binary64.ofNat (lastLineStart before)
      ⟨(splitLines before).length, .ofBinary64 ((x.add start.neg).add (.ofNat 1))⟩

/-- How many units lie before an offset, a negative one being counted from the end. -/
def stopAt (t : Text) : Binary64 → Nat
  | .nan => 0
  | .infinite negative => if negative then 0 else t.length
  | x =>
    let n := x.truncate.getD 0
    if n < 0 then (t.length + n).toNat else min n.toNat t.length

end Text

end SpanTree
