import Mathlib.Algebra.Order.Field.Basic
import Mathlib.Algebra.Order.Field.Rat
import Mathlib.Tactic.Linarith
import Mathlib.Tactic.Ring
import SpanTree.Proofs.Decimals

/-!
# The nearest double

Rounding finds the nearest of all magnitudes, as if there were no largest double.

* `magnitude`, `Decimal.value`: the values of ranks and of decimals, as fractions;
* `IsNearest`: a rank whose magnitude is nearest to a number, a tie going to the even rank;
* `nearestRank_isNearest`, `IsNearest.unique`: the rank that is computed is so, and no other rank;
* `Binary64.Nearest`, `nearest_iff`: so each decimal has one nearest double, the one that is
  computed for it.
-/

namespace SpanTree

open Binary64 (one)

/-! ## Values -/

def magnitude (rank : Nat) : ℚ := units rank / one

def Decimal.value (d : Decimal) : ℚ := d.coefficient * 10 ^ d.exponent

/-- Of all magnitudes, that of a rank is nearest to a number; where another one is as near, the rank
is even. -/
def IsNearest (number : ℚ) (rank : Nat) : Prop :=
  ∀ other, other ≠ rank → |magnitude rank - number| < |magnitude other - number| ∨
    |magnitude rank - number| = |magnitude other - number| ∧ rank % 2 = 0

/-- A double is nearest to a number behind a sign, infinite where the number is rounded past the
largest double. -/
def Binary64.Nearest (negative : Bool) (number : ℚ) (x : Binary64) : Prop :=
  ∃ rank, IsNearest number rank ∧ x = ofRank negative rank

/-! ## Rounding -/

/-- How far the multiples of a number lie from a lesser one. -/
theorem distance_cases {den rest : Int} (least : 0 ≤ rest) (less : rest < den) (e : Int) :
    (e = 0 ∧ |e * den - rest| = rest) ∨ (e = 1 ∧ |e * den - rest| = den - rest) ∨
      (e ≠ 0 ∧ e ≠ 1 ∧ (den + rest ≤ |e * den - rest| ∨ 2 * den - rest ≤ |e * den - rest|)) := by
  rcases lt_trichotomy e 0 with below | rfl | above
  · have low : e * den ≤ -1 * den := mul_le_mul_of_nonneg_right (by omega) (by omega)
    refine .inr (.inr ⟨by omega, by omega, .inl ?_⟩)
    rw [abs_of_neg (by omega)]
    omega
  · refine .inl ⟨rfl, ?_⟩
    rw [zero_mul, zero_sub, abs_neg, abs_of_nonneg least]
  · by_cases single : e = 1
    · subst single
      refine .inr (.inl ⟨rfl, ?_⟩)
      rw [one_mul, abs_of_nonneg (by omega)]
    · have high : 2 * den ≤ e * den := mul_le_mul_of_nonneg_right (by omega) (by omega)
      refine .inr (.inr ⟨by omega, single, .inr ?_⟩)
      rw [abs_of_pos (by omega)]
      omega

/-- A fraction is rounded down, or up past the half, or from the half to the even neighbour. -/
theorem roundEven_cases (num den : Nat) :
    (2 * (num % den) < den ∧ roundEven num den = num / den) ∨
      (den < 2 * (num % den) ∧ roundEven num den = num / den + 1) ∨
      (den = 2 * (num % den) ∧ roundEven num den = num / den + num / den % 2) := by
  unfold roundEven
  dsimp only
  split
  · next low => exact .inl ⟨low, rfl⟩
  · split
    · next high => exact .inr (.inl ⟨high, rfl⟩)
    · exact .inr (.inr ⟨by omega, rfl⟩)

/-- No other multiple is nearer than the rounded one, and one as near is met only where the rounded
one is even. -/
theorem roundEven_nearest {num den k : Nat} (pos : 0 < den) (other : k ≠ roundEven num den) :
    |(roundEven num den * den - num : Int)| < |(k * den - num : Int)| ∨
      |(roundEven num den * den - num : Int)| = |(k * den - num : Int)| ∧
        roundEven num den % 2 = 0 := by
  have split (e : Nat) : (e * den - num : Int) =
      ((e : Int) - (num / den : Nat)) * den - (num % den : Nat) := by
    have parts : (num : Int) = (den * (num / den) + num % den : Nat) := by rw [Nat.div_add_mod]
    rw [parts]
    push_cast
    ring
  have away := distance_cases (Int.natCast_nonneg (num % den)) (Int.ofNat_lt.2 (Nat.mod_lt num pos))
  have distance := away ((k : Int) - (num / den : Nat))
  have rounded := away ((roundEven num den : Int) - (num / den : Nat))
  have cases := roundEven_cases num den
  rw [split, split]
  generalize |((k : Int) - (num / den : Nat)) * den - (num % den : Nat)| = far at distance ⊢
  generalize |((roundEven num den : Int) - (num / den : Nat)) * den - (num % den : Nat)| = near
    at rounded ⊢
  omega

/-! ## Ranks -/

theorem roundEven_shifted (num den : Nat) :
    roundEven num (den * 2 ^ shiftOf (num / den)) ≤ 2 ^ 53 ∧
      (0 < shiftOf (num / den) →
        2 ^ 52 ≤ num / (den * 2 ^ shiftOf (num / den)) ∧
        2 ^ 52 ≤ roundEven num (den * 2 ^ shiftOf (num / den))) := by
  have upper := roundEven_le num (den * 2 ^ shiftOf (num / den))
  have lower := le_roundEven num (den * 2 ^ shiftOf (num / den))
  have few := div_shiftOf_lt (num / den)
  rw [Nat.div_div_eq_div_mul] at few
  refine ⟨by omega, fun shifted => ?_⟩
  have many := le_div_shiftOf shifted
  rw [Nat.div_div_eq_div_mul] at many
  exact ⟨many, by omega⟩

/-- The magnitude of the rank is the multiple of a power of two that the fraction is rounded to. -/
theorem units_nearestRank (num den : Nat) : units (nearestRank num den) =
    roundEven num (den * 2 ^ shiftOf (num / den)) * 2 ^ shiftOf (num / den) := by
  obtain ⟨most, shifted⟩ := roundEven_shifted num den
  rw [nearestRank_eq]
  generalize roundEven num (den * 2 ^ shiftOf (num / den)) = m at most shifted ⊢
  generalize shiftOf (num / den) = s at shifted ⊢
  have pos : 0 < binade := Nat.two_pow_pos 52
  have power : binade = 2 ^ 52 := binade_eq
  by_cases small : m < binade
  · obtain rfl : s = 0 := by omega
    rw [Nat.zero_mul, Nat.zero_add, units_of_lt small, Nat.pow_zero, Nat.mul_one]
  · have large : binade ≤ s * binade + m := by omega
    rw [units_of_le large, Nat.add_comm (s * binade), Nat.add_mul_mod_self_right,
      Nat.add_mul_div_right _ _ pos]
    by_cases top : m = 2 * binade
    · subst top
      have more : 2 + s - 1 = s + 1 := by omega
      rw [Nat.mul_mod_left, Nat.mul_div_cancel _ pos, more, Nat.pow_succ', Nat.add_zero]
      ring
    · have single : m / binade = 1 := Nat.div_eq_of_lt_le (by omega) (by omega)
      have rest : m % binade = m - binade := by
        rw [Nat.mod_eq_sub_mod (by omega), Nat.mod_eq_of_lt (by omega)]
      rw [single, rest, Nat.add_sub_cancel_left, Nat.add_sub_cancel' (by omega)]

/-- A magnitude is a multiple of a power of two, or it lies below all numbers that have 53 binary
digits in front of this power. -/
theorem units_multiple (s rank : Nat) :
    (∃ k, units rank = k * 2 ^ s) ∨ 0 < s ∧ units rank < 2 ^ 52 * 2 ^ s := by
  have pos : 0 < binade := Nat.two_pow_pos 52
  by_cases high : (s + 1) * binade ≤ rank
  · have more : s + 1 ≤ rank / binade := (Nat.le_div_iff_mul_le pos).2 high
    obtain ⟨i, same⟩ := Nat.exists_eq_add_of_le (show s ≤ rank / binade - 1 by omega)
    have large : binade ≤ rank := Nat.le_trans (Nat.le_mul_of_pos_left _ (Nat.succ_pos s)) high
    refine .inl ⟨(binade + rank % binade) * 2 ^ i, ?_⟩
    rw [units_of_le large, same, Nat.pow_add]
    ring
  · by_cases whole : s = 0
    · subst whole
      exact .inl ⟨units rank, by rw [Nat.pow_zero, Nat.mul_one]⟩
    · refine .inr ⟨Nat.pos_of_ne_zero whole, ?_⟩
      have below : units rank < units ((s + 1) * binade) := units_lt_iff.2 (Nat.lt_of_not_le high)
      have large : binade ≤ (s + 1) * binade := Nat.le_mul_of_pos_left _ (Nat.succ_pos s)
      rwa [units_of_le large, Nat.mul_mod_left, Nat.mul_div_cancel _ pos, Nat.add_sub_cancel,
        Nat.add_zero, binade_eq] at below

/-- No other magnitude is nearer to a fraction than that of its rank. -/
theorem nearestRank_nearest {num den other : Nat} (pos : 0 < den)
    (different : other ≠ nearestRank num den) :
    |(units (nearestRank num den) * den - num : Int)| < |(units other * den - num : Int)| ∨
      |(units (nearestRank num den) * den - num : Int)| = |(units other * den - num : Int)| ∧
        nearestRank num den % 2 = 0 := by
  obtain ⟨_, shifted⟩ := roundEven_shifted num den
  have magnitude := units_nearestRank num den
  have even : nearestRank num den % 2 =
      roundEven num (den * 2 ^ shiftOf (num / den)) % 2 := by
    rw [nearestRank_eq, binade_eq]
    omega
  have apart : units other ≠ units (nearestRank num den) := fun same =>
    different (Nat.le_antisymm (units_le_iff.1 (Nat.le_of_eq same))
      (units_le_iff.1 (Nat.le_of_eq same.symm)))
  rw [magnitude] at apart
  rw [magnitude, even]
  have room : 0 < den * 2 ^ shiftOf (num / den) := Nat.mul_pos pos (Nat.two_pow_pos _)
  have scaled (k : Nat) : ((k * 2 ^ shiftOf (num / den) : Nat) * den - num : Int) =
      (k * (den * 2 ^ shiftOf (num / den) : Nat) - num : Int) := by
    push_cast
    ring
  rw [scaled]
  rcases units_multiple (shiftOf (num / den)) other with ⟨k, multiple⟩ | ⟨divided, below⟩
  · rw [multiple, scaled]
    refine roundEven_nearest room fun same => apart ?_
    rw [multiple, same]
  · -- The least number of 53 digits is above this magnitude, and the fraction is above both.
    obtain ⟨many, _⟩ := shifted divided
    have low := (Nat.le_div_iff_mul_le room).1 many
    have under := Nat.mul_lt_mul_of_pos_right below pos
    rw [Nat.mul_assoc, Nat.mul_comm (2 ^ shiftOf _)] at under
    have closer : |(roundEven num (den * 2 ^ shiftOf (num / den)) *
        (den * 2 ^ shiftOf (num / den) : Nat) - num : Int)| ≤
          |((2 ^ 52 : Nat) * (den * 2 ^ shiftOf (num / den) : Nat) - num : Int)| := by
      by_cases same : 2 ^ 52 = roundEven num (den * 2 ^ shiftOf (num / den))
      · rw [← same]
      · rcases roundEven_nearest room same with near | ⟨near, _⟩
        · exact near.le
        · exact near.le
    refine .inl (Int.lt_of_le_of_lt closer ?_)
    rw [abs_of_nonpos (by omega), abs_of_neg (by omega)]
    omega

/-! ## Fractions -/

theorem magnitude_sub (rank num : Nat) {den : Nat} (pos : 0 < den) :
    |magnitude rank - num / den| =
      (|(units rank * den - (num * one : Nat) : Int)| : Int) / (one * den : Nat) := by
  have unit : (one : ℚ) ≠ 0 := Nat.cast_ne_zero.2 (Nat.pos_iff_ne_zero.1 Binary64.one_pos)
  have base : (den : ℚ) ≠ 0 := Nat.cast_ne_zero.2 (Nat.pos_iff_ne_zero.1 pos)
  have whole : magnitude rank - num / den =
      (units rank * den - (num * one : Nat) : Int) / (one * den : Nat) := by
    rw [magnitude, div_sub_div _ _ unit base, Nat.mul_comm num]
    push_cast
    rfl
  rw [whole, abs_div, Nat.abs_cast, Int.cast_abs]

/-- The rank of a fraction is nearest to it. -/
theorem nearestRank_isNearest (num : Nat) {den : Nat} (pos : 0 < den) :
    IsNearest (num / den) (nearestRank (num * one) den) := by
  intro other different
  have scale : (0 : ℚ) < (one * den : Nat) := Nat.cast_pos.2 (Nat.mul_pos Binary64.one_pos pos)
  rw [magnitude_sub _ _ pos, magnitude_sub _ _ pos, div_lt_div_iff_of_pos_right scale,
    div_left_inj' scale.ne', Int.cast_lt, Int.cast_inj]
  exact nearestRank_nearest pos different

theorem magnitude_lt {r r' : Nat} (h : r < r') : magnitude r < magnitude r' := by
  have unit : (0 : ℚ) < one := Nat.cast_pos.2 Binary64.one_pos
  rw [magnitude, magnitude, div_lt_div_iff_of_pos_right unit, Nat.cast_lt]
  exact units_lt_iff.2 h

/-- What lies between two numbers that are equally near is nearer. -/
theorem abs_between {low middle high number : ℚ} (above : low < middle) (below : middle < high)
    (same : |low - number| = |high - number|) : |middle - number| < |low - number| := by
  rcases abs_eq_abs.1 same with equal | opposite
  · linarith
  · rw [abs_of_neg (show low - number < 0 by linarith), abs_lt]
    exact ⟨by linarith, by linarith⟩

/-- Two ranks that are equally near are both even, and one between them is nearer. -/
theorem IsNearest.le {number : ℚ} {r r' : Nat} (h : IsNearest number r)
    (h' : IsNearest number r') : r' ≤ r := by
  apply Nat.le_of_not_lt
  intro less
  rcases h r' (by omega) with near | ⟨same, even⟩
  · rcases h' r (by omega) with near' | ⟨same', _⟩
    · exact lt_asymm near near'
    · exact near.ne same'.symm
  · rcases h' r (by omega) with near' | ⟨_, even'⟩
    · exact near'.ne same.symm
    · have nearer := abs_between (magnitude_lt (Nat.lt_succ_self r))
        (magnitude_lt (show r + 1 < r' by omega)) same
      rcases h (r + 1) (by omega) with near | ⟨equal, _⟩
      · exact lt_asymm near nearer
      · exact nearer.ne equal.symm

/-- One rank is nearest. -/
theorem IsNearest.unique {number : ℚ} {r r' : Nat} (h : IsNearest number r)
    (h' : IsNearest number r') : r = r' :=
  Nat.le_antisymm (h'.le h) (h.le h')

theorem Decimal.value_eq (d : Decimal) : d.value = d.numerator / d.denominator := by
  cases d with | mk c e =>
  unfold value numerator denominator
  dsimp only
  rcases e.eq_nat_or_neg with ⟨k, rfl | rfl⟩
  · rw [Int.toNat_natCast, Int.toNat_neg_natCast]
    push_cast
    rw [zpow_natCast, div_one]
  · rw [Int.toNat_neg_natCast, neg_neg, Int.toNat_natCast]
    push_cast
    rw [zpow_neg, zpow_natCast, mul_one, div_eq_mul_inv]

/-- One double is nearest to a decimal, and this is the one that is computed for it. -/
theorem Binary64.nearest_iff {negative : Bool} {d : Decimal} {x : Binary64} :
    Nearest negative d.value x ↔ x = ofDecimal negative d := by
  have pos : 0 < d.denominator := Nat.pow_pos (by decide)
  have nearest := nearestRank_isNearest d.numerator pos
  rw [← Decimal.value_eq] at nearest
  rw [ofDecimal_eq]
  constructor
  · rintro ⟨rank, other, rfl⟩
    rw [other.unique nearest, Decimal.rank]
  · rintro rfl
    exact ⟨_, nearest, rfl⟩

end SpanTree
