import SpanTree.Text

/-!
# Numerals

Natural numbers and their digits, for numbers of any length: long numerals are written and read in
parts of a bounded length, so that most of the arithmetic is on small numbers.

* `Text.ofNat`, `Text.ofInt`: decimal numerals;
* `Text.valueIn`, `Text.digitsValue`: the number that digits denote;
* `Text.decimalDigits_eq`, `Text.valueIn_eq`: the parts make no difference.
-/

namespace SpanTree.Text

def partLength : Nat := 200

/-- Parts stand for numbers below this. -/
def partLimit : Nat := Nat.pow 10 200

def paddedDigits (width n : Nat) : List Char :=
  List.replicate (width - (Nat.toDigits 10 n).length) '0' ++ Nat.toDigits 10 n

/-- The digits of a number before other digits. Each step of the fuel splits off a part. -/
def digitsBefore : Nat → Nat → List Char → List Char
  | 0, n, rest => Nat.toDigits 10 n ++ rest
  | fuel + 1, n, rest =>
    if n < partLimit then Nat.toDigits 10 n ++ rest
    else digitsBefore fuel (n / partLimit) (paddedDigits partLength (n % partLimit) ++ rest)

/-- The decimal digits of a number, without leading zeros. -/
def decimalDigits (n : Nat) : List Char :=
  if n < partLimit then Nat.toDigits 10 n else digitsBefore (Nat.log2 n) n []

/-- A natural number in decimal, without leading zeros. -/
def ofNat (n : Nat) : Text := ofChars (decimalDigits n)

/-- An integer in decimal, with a minus sign where negative. -/
def ofInt (n : Int) : Text := if n < 0 then unit '-' :: ofNat n.natAbs else ofNat n.natAbs

/-- The digits read so far: those before the last part, the last part, and the power of the base
that stands between them. -/
structure Reading where
  done : Nat := 0
  part : Nat := 0
  scale : Nat := 1

/-- The number that the digits read so far denote. -/
def Reading.value (r : Reading) : Nat := r.done * r.scale + r.part

def Reading.next (base : Nat) (r : Reading) (digit : Nat) : Reading :=
  if r.scale < partLimit then
    { r with part := r.part * base + digit, scale := r.scale * base }
  else ⟨r.value, digit, base⟩

def valueIn (base : Nat) (digits : List Nat) : Nat := (digits.foldl (Reading.next base) {}).value

def digitsValue (t : Text) : Nat := valueIn 10 (t.map fun u => u.toNat - 48)

theorem Reading.value_next (base : Nat) (r : Reading) (digit : Nat) :
    (r.next base digit).value = r.value * base + digit := by
  unfold Reading.next
  split
  · simp only [Reading.value, Nat.add_mul, Nat.mul_assoc, Nat.add_assoc]
  · rfl

theorem Reading.value_foldl (base : Nat) (digits : List Nat) (r : Reading) :
    (digits.foldl (Reading.next base) r).value =
      digits.foldl (fun n digit => n * base + digit) r.value := by
  induction digits generalizing r with
  | nil => rfl
  | cons digit rest ih => simp only [List.foldl_cons, ih, Reading.value_next]

/-- Each digit counts for the base times the digits before it. -/
theorem valueIn_eq (base : Nat) (digits : List Nat) :
    valueIn base digits = digits.foldl (fun n digit => n * base + digit) 0 :=
  Reading.value_foldl base digits {}

theorem toDigits_split (n : Nat) (h : 10 ≤ n) :
    Nat.toDigits 10 n = Nat.toDigits 10 (n / 10) ++ Nat.toDigits 10 (n % 10) := by
  rw [Nat.toDigits_append_toDigits (by decide) (by omega) (by omega), Nat.div_add_mod]

theorem paddedDigits_succ (width n : Nat) :
    paddedDigits (width + 2) n =
      paddedDigits (width + 1) (n / 10) ++ Nat.toDigits 10 (n % 10) := by
  unfold paddedDigits
  by_cases hn : 10 ≤ n
  · have last : (Nat.toDigits 10 (n % 10)).length = 1 := by
      rw [Nat.toDigits_of_lt_base (by omega), List.length_singleton]
    have gap (k : Nat) : width + 2 - (k + 1) = width + 1 - k := by omega
    rw [toDigits_split n hn, List.length_append, last, gap, List.append_assoc]
  · have low : n / 10 = 0 := by omega
    have same : n % 10 = n := by omega
    rw [low, same, Nat.toDigits_of_lt_base (by omega : n < 10),
      Nat.toDigits_of_lt_base (by omega : 0 < 10)]
    simp [List.replicate_succ']

/-- The digits of a number are those of its two parts, the lower of them in its full width. -/
theorem toDigits_parts (width high low : Nat) (hh : 0 < high) (hl : low < Nat.pow 10 (width + 1)) :
    Nat.toDigits 10 (high * Nat.pow 10 (width + 1) + low) =
      Nat.toDigits 10 high ++ paddedDigits (width + 1) low := by
  induction width generalizing low with
  | zero =>
    have small : low < 10 := hl
    have one : paddedDigits 1 low = Nat.toDigits 10 low := by
      unfold paddedDigits
      rw [Nat.toDigits_of_lt_base small]
      rfl
    rw [one, Nat.toDigits_append_toDigits (by decide) hh small, Nat.mul_comm 10 high]
  | succ width ih =>
    have power : Nat.pow 10 (width + 1 + 1) = 10 * Nat.pow 10 (width + 1) := Nat.mul_comm _ _
    have positive : 0 < Nat.pow 10 (width + 1) := Nat.pow_pos (by decide)
    have small : low / 10 < Nat.pow 10 (width + 1) := by omega
    have large : 0 < high * Nat.pow 10 (width + 1) := Nat.mul_pos hh positive
    rw [paddedDigits_succ, ← List.append_assoc, ← ih (low / 10) small,
      Nat.toDigits_append_toDigits (by decide) (by omega) (by omega), power,
      Nat.mul_left_comm]
    congr 1
    omega

theorem digitsBefore_eq (fuel n : Nat) (rest : List Char) :
    digitsBefore fuel n rest = Nat.toDigits 10 n ++ rest := by
  induction fuel generalizing n rest with
  | zero => rfl
  | succ fuel ih =>
    unfold digitsBefore
    split
    · rfl
    · next h =>
      have positive : 0 < partLimit := Nat.pow_pos (by decide)
      have high : 0 < n / partLimit := Nat.div_pos (by omega) positive
      have parts := toDigits_parts 199 (n / partLimit) (n % partLimit) high
        (Nat.mod_lt n positive)
      have whole : n / partLimit * Nat.pow 10 200 + n % partLimit = n :=
        Nat.div_add_mod' n partLimit
      rw [whole] at parts
      rw [ih, ← List.append_assoc, parts]
      rfl

/-- The decimal digits of a number are its digits in base ten. -/
theorem decimalDigits_eq (n : Nat) : decimalDigits n = Nat.toDigits 10 n := by
  unfold decimalDigits
  split
  · rfl
  · rw [digitsBefore_eq, List.append_nil]

end SpanTree.Text
