/-!
# Slots

A place where a caller may put a value, leave a blank on purpose, or put nothing at all. A blank is
an answer, while a slot with nothing in it counts as filled until its value is wanted.
-/

namespace SpanTree

/-- What a caller put in a place for a value. -/
inductive Slot (α : Type) where
  | missing
  | blank
  | known (value : α)
deriving DecidableEq

namespace Slot

variable {α : Type}

def value? : Slot α → Option α
  | known value => some value
  | _ => none

/-- The slot of a value that may not exist, blank where it does not. -/
def ofOption : Option α → Slot α
  | some value => known value
  | none => blank

/-- The same slot, blank where nothing was put in it. -/
def orBlank : Slot α → Slot α
  | missing => blank
  | slot => slot

/-- Whether anything but a blank was put in the slot. -/
def isTaken : Slot α → Bool
  | blank => false
  | _ => true

end Slot

end SpanTree
