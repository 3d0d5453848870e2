import SpanTree.Number.Decimal

/-!
# Quantities as callers give them

Ids, positions, lengths and limits are natural numbers, yet a caller may pass any double. A
`Quantity` is a natural number in the range where doubles are exact, or any other double, which no
id, position or length equals.
-/

namespace SpanTree

inductive Quantity where
  | natural (n : Nat)
  | irregular (x : Binary64)
deriving DecidableEq

namespace Quantity

/-- Naturals below 2⁵³, zero of either sign included, and all other doubles. -/
def ofBinary64 (x : Binary64) : Quantity :=
  match x.toInt? with
  | some (.ofNat n) => if n < Nat.pow 2 53 then natural n else irregular x
  | _ => irregular x

/-- The double that was given, up to the sign of zero. -/
def toBinary64 : Quantity → Binary64
  | natural n => .ofNat n
  | irregular x => x

def text : Quantity → Text
  | natural n => .ofNat n
  | irregular x => x.text

/-- Whether `n` lies above the quantity, as a limit; nothing lies above a NaN. -/
def exceededBy (limit : Quantity) (n : Nat) : Bool :=
  match limit with
  | natural m => m < n
  | irregular x => x.lt (.ofNat n)

def toNat? : Quantity → Option Nat
  | natural n => some n
  | irregular _ => none

end Quantity

end SpanTree
