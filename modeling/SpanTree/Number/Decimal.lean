import SpanTree.Number.Binary64
import SpanTree.Text.Numeral

/-!
# Decimal spellings of doubles

* `Binary64.ofDecimal`: the double nearest to a coefficient times a power of ten;
* `shortest`: the fewest decimal digits that read back as a given magnitude and, among those, the
  ones nearest to it;
* `Binary64.text`: those digits, positional from 10⁻⁶ up to 10²¹ and with an exponent beyond;
* `Binary64.ofNumeral`: reads a numeral with an optional sign, fraction and exponent;
* `Binary64.ofField`: reads any short text, as a NaN where it is no number.
-/

namespace SpanTree

/-- A coefficient times a power of ten. -/
structure Decimal where
  coefficient : Nat
  exponent : Int
deriving Repr, DecidableEq

namespace Binary64

/-- The double nearest to `± coefficient · 10 ^ exponent`. Exponents that put the value past the
largest double or below half the least one are settled without computing the power. -/
def ofDecimal (negative : Bool) (d : Decimal) : Binary64 :=
  if d.coefficient = 0 then ofRank negative 0
  else if 310 ≤ d.exponent then infinite negative
  else if 0 ≤ d.exponent then ofRatio negative (d.coefficient * Nat.pow 10 d.exponent.toNat) 1
  else if Nat.log2 d.coefficient + 1200 ≤ 3 * d.exponent.natAbs then ofRank negative 0
  else ofRatio negative d.coefficient (Nat.pow 10 d.exponent.natAbs)

end Binary64

/-- The magnitude of a rank in multiples of 10⁻¹⁰⁷⁴, of which it is a whole number. -/
def decimalUnits (rank : Nat) : Nat := units rank * Nat.pow 5 1074

/-- The first power of ten above a number, counted from `count` on. -/
def powerAbove (n : Nat) : Nat → Nat → Nat
  | 0, count => count
  | fuel + 1, count => if n < Nat.pow 10 count then count else powerAbove n fuel (count + 1)

/-- The number of decimal digits. Since 10³ ≤ 2¹⁰, the count may begin at three tenths of the number
of binary digits. -/
def digitCount (n : Nat) : Nat := powerAbove n (Nat.log2 n + 1) (Nat.log2 n * 3 / 10)

/-- Of the two decimals of `count` digits around a magnitude, the one that reads back as it; where
both do, the nearer, and where they are equally near, the one with the even coefficient. -/
def readsBack (rank count : Nat) : Option Decimal :=
  let whole := decimalUnits rank
  let places := digitCount whole - count
  let step := Nat.pow 10 places
  let exponent : Int := places - 1074
  let low : Decimal := ⟨whole / step, exponent⟩
  let high : Decimal := ⟨whole / step + 1, exponent⟩
  let value (d : Decimal) := Binary64.ofDecimal false d
  let target := Binary64.ofRank false rank
  if value low = target then
    if value high = target && roundEven whole step = whole / step + 1 then some high else some low
  else if value high = target then some high
  else none

/-- The fewest digits that read back as the magnitude of a rank; all its digits if 17 were not
enough. -/
def shortest (rank : Nat) : Decimal :=
  ((List.range' 1 17).findSome? (readsBack rank)).getD ⟨decimalUnits rank, -1074⟩

def dropTrailingZeros (digits : List Char) : List Char :=
  (digits.reverse.dropWhile (· = '0')).reverse

/-- Lays out the digits of a number `0.d₁d₂… · 10 ^ point`. -/
def layOut (digits : List Char) (point : Int) : List Char :=
  let count : Int := digits.length
  if count ≤ point ∧ point ≤ 21 then digits ++ List.replicate (point - count).toNat '0'
  else if 0 < point ∧ point ≤ 21 then
    digits.take point.toNat ++ '.' :: digits.drop point.toNat
  else if -6 < point ∧ point ≤ 0 then
    '0' :: '.' :: (List.replicate point.natAbs '0' ++ digits)
  else
    let exponent := point - 1
    let tail := (if exponent < 0 then '-' else '+') :: Nat.toDigits 10 exponent.natAbs
    digits.take 1 ++ (if digits.length = 1 then [] else '.' :: digits.drop 1) ++ 'e' :: tail

/-- The text of a decimal: trailing zeros of the coefficient move into the exponent. -/
def Decimal.chars (d : Decimal) : List Char :=
  let digits := Nat.toDigits 10 d.coefficient
  layOut (dropTrailingZeros digits) (digits.length + d.exponent)

namespace Binary64

/-- The text of a double; zero has no sign here. -/
def text : Binary64 → Text
  | nan => lit "NaN"
  | infinite s => lit (if s then "-Infinity" else "Infinity")
  | finite s r =>
    if r.val = 0 then lit "0"
    else (if s then [unit '-'] else []) ++ Text.ofChars (shortest r).chars

/-- The text of a double that also shows the sign of zero. -/
def signedText (x : Binary64) : Text := if x.isNegativeZero then lit "-0" else x.text

/-- The value of a numeral: an optional sign, digits, an optional point with digits and an optional
exponent. Only texts of that form are given. -/
def ofNumeral (t : Text) : Binary64 :=
  let negative := t.head? = some (unit '-')
  let t := t.dropWhile fun u => u = unit '-' || u = unit '+'
  let whole := t.takeWhile CodeUnit.isDigit
  let rest := t.dropWhile CodeUnit.isDigit
  let fraction :=
    if rest.head? = some (unit '.') then rest.tail.takeWhile CodeUnit.isDigit else []
  let rest := if rest.head? = some (unit '.') then rest.tail.dropWhile CodeUnit.isDigit else rest
  let power := rest.tail
  let below := power.head? = some (unit '-')
  let size := Text.digitsValue (power.dropWhile fun u => u = unit '-' || u = unit '+')
  let exponent : Int := if below then - size else size
  ofDecimal negative ⟨Text.digitsValue (whole ++ fraction), exponent - fraction.length⟩

/-- The value of a short field: white space around it does not count, an empty one is zero, and
otherwise it is an optional sign and digits with at most one point among them. All else is a NaN. -/
def ofField (t : Text) : Binary64 :=
  let t := ((t.dropWhile CodeUnit.isSpace).reverse.dropWhile CodeUnit.isSpace).reverse
  if t.isEmpty then zero
  else
    let body := if t.head? = some (unit '-') || t.head? = some (unit '+') then t.tail else t
    let whole := body.takeWhile CodeUnit.isDigit
    let rest := body.dropWhile CodeUnit.isDigit
    let fraction := if rest.head? = some (unit '.') then rest.tail else rest
    if fraction.all CodeUnit.isDigit && !(whole ++ fraction).isEmpty then ofNumeral t else nan

end Binary64

end SpanTree
