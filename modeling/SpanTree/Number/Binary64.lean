/-!
# Double-precision numbers, exactly

A finite double is a sign and a *rank*: the place of its magnitude among all finite magnitudes in
ascending order. Every magnitude is a whole multiple of 2⁻¹⁰⁷⁴, so all arithmetic is arithmetic of
natural numbers followed by one rounding:

* `units`: the magnitude of a rank, in multiples of 2⁻¹⁰⁷⁴;
* `nearestRank`: the rank nearest to a fraction of that unit, a tie going to the even rank;
* `Binary64.ofRatio`, `Binary64.ofInt`, `Binary64.ofBits`: doubles from fractions, integers, bits;
* `Binary64.add`, `Binary64.mul`, `Binary64.lt`, `Binary64.isAbove`: sums, products and order;
* `Binary64.toInt?`, `Binary64.truncate`: whole values;
* `Binary64.toInt32`: the signed 32-bit word congruent to the whole part.
-/

namespace SpanTree

/-- The ranks from one power of two to the next: 2⁵² of them. -/
def binade : Nat := Nat.pow 2 52

def rankCount : Nat := 2047 * Nat.pow 2 52

/-- The magnitude of rank `rank`, in multiples of 2⁻¹⁰⁷⁴. -/
def units (rank : Nat) : Nat :=
  if rank < binade then rank else (binade + rank % binade) * Nat.pow 2 (rank / binade - 1)

/-- The natural number nearest to `num / den`, a half going to the even neighbour. -/
def roundEven (num den : Nat) : Nat :=
  let low := num / den
  let rest := num % den
  if 2 * rest < den then low else if den < 2 * rest then low + 1 else low + low % 2

/-- The rank whose magnitude is nearest to `num / den` multiples of 2⁻¹⁰⁷⁴, as if there were no
largest double. -/
def nearestRank (num den : Nat) : Nat :=
  let shift := Nat.log2 (num / den) + 1 - 53
  shift * binade + roundEven num (den * Nat.pow 2 shift)

/-- A double: all NaNs are one, and zero has two signs. -/
inductive Binary64 where
  | nan
  | infinite (negative : Bool)
  | finite (negative : Bool) (rank : Fin rankCount)
deriving DecidableEq

namespace Binary64

def one : Nat := Nat.pow 2 1074

/-- The double of a sign and a rank; a rank past the largest magnitude is infinite. -/
def ofRank (negative : Bool) (rank : Nat) : Binary64 :=
  if h : rank < rankCount then finite negative ⟨rank, h⟩ else infinite negative

/-- The double nearest to `± num / den`. -/
def ofRatio (negative : Bool) (num den : Nat) : Binary64 :=
  ofRank negative (nearestRank (num * one) den)

/-- The double nearest to an integer; zero is positive. -/
def ofInt (n : Int) : Binary64 := ofRatio (decide (n < 0)) n.natAbs 1

def ofNat (n : Nat) : Binary64 := ofRatio false n 1

def zero : Binary64 := ofRank false 0

/-- Reads sign, exponent and fraction from 64 bits. -/
def ofBits (bits : UInt64) : Binary64 :=
  let negative := decide (Nat.pow 2 63 ≤ bits.toNat)
  let rank := bits.toNat % Nat.pow 2 63
  if h : rank < rankCount then finite negative ⟨rank, h⟩
  else if rank = rankCount then infinite negative
  else nan

/-- The exact value of a finite double as a signed number of units. -/
def signedUnits (negative : Bool) (rank : Nat) : Int :=
  if negative then - (units rank : Int) else units rank

/-- The sum of a signed number of units as a double; an exact zero is positive. -/
def ofUnits (n : Int) : Binary64 := ofRank (decide (n < 0)) (nearestRank n.natAbs 1)

def neg : Binary64 → Binary64
  | nan => nan
  | infinite s => infinite !s
  | finite s r => finite (!s) r

def add : Binary64 → Binary64 → Binary64
  | nan, _ => nan
  | _, nan => nan
  | infinite s, infinite s' => if s = s' then infinite s else nan
  | infinite s, finite _ _ => infinite s
  | finite _ _, infinite s => infinite s
  | finite s r, finite s' r' =>
    if s = s' then ofRank s (nearestRank (units r + units r') 1)
    else ofUnits (signedUnits s r + signedUnits s' r')

def mul : Binary64 → Binary64 → Binary64
  | nan, _ => nan
  | _, nan => nan
  | infinite s, infinite s' => infinite (s != s')
  | infinite s, finite s' r => if r.val = 0 then nan else infinite (s != s')
  | finite s r, infinite s' => if r.val = 0 then nan else infinite (s != s')
  | finite s r, finite s' r' => ofRank (s != s') (nearestRank (units r * units r') one)

/-- Strictly less, false where a NaN is involved; the two zeros are equal. -/
def lt : Binary64 → Binary64 → Bool
  | nan, _ => false
  | _, nan => false
  | infinite s, infinite s' => s && !s'
  | infinite s, finite _ _ => s
  | finite _ _, infinite s => !s
  | finite s r, finite s' r' => signedUnits s r < signedUnits s' r'

/-- Whether a double is greater than a natural number; a NaN is not. -/
def isAbove (n : Nat) : Binary64 → Bool
  | nan => false
  | infinite s => !s
  | finite s r => (n * one : Nat) < signedUnits s r

/-- The whole part of a finite double, rounding toward zero. -/
def truncate : Binary64 → Option Int
  | finite s r => some (signedUnits s r |>.tdiv one)
  | _ => none

/-- The greatest integer not above a finite double. -/
def floor : Binary64 → Option Int
  | finite s r => some (signedUnits s r |>.fdiv one)
  | _ => none

def toInt? : Binary64 → Option Int
  | finite s r => if units r % one = 0 then some (signedUnits s r |>.tdiv one) else none
  | _ => none

def isNegativeZero : Binary64 → Bool
  | finite s r => s && r.val = 0
  | _ => false

/-- An integer strictly between -2⁵³ and 2⁵³: no other integer rounds to it. -/
def isExactInteger (x : Binary64) : Bool :=
  match x.toInt? with
  | some n => n.natAbs < Nat.pow 2 53
  | none => false

/-- The 32-bit word congruent to the whole part; zero where there is none. -/
def toInt32 (x : Binary64) : BitVec 32 := BitVec.ofInt 32 (x.truncate.getD 0)

end Binary64

end SpanTree
