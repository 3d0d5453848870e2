import SpanTree.Number.Decimal
import SpanTree.Proofs.Rounding

/-!
# Decimals and doubles

* `Decimal.rank`: the rank nearest to a decimal, computed without any shortcut;
* `ofDecimal_eq`: the shortcuts of `Binary64.ofDecimal` change nothing;
* `rank_scale`: zeros at the end of a coefficient may move into the exponent;
* `rank_shortest`: the shortest digits of a magnitude read back as it.
-/

namespace SpanTree

namespace Decimal

def numerator (d : Decimal) : Nat := d.coefficient * 10 ^ d.exponent.toNat

def denominator (d : Decimal) : Nat := 10 ^ (-d.exponent).toNat

def rank (d : Decimal) : Nat := nearestRank (d.numerator * Binary64.one) d.denominator

/-- A zero at the end of the coefficient counts as a step of the exponent. -/
theorem rank_shift (c : Nat) (e : Int) : rank ⟨c * 10, e⟩ = rank ⟨c, e + 1⟩ := by
  unfold rank numerator denominator
  dsimp only
  by_cases h : 0 ≤ e
  · have up : (e + 1).toNat = e.toNat + 1 := by omega
    have down : (-(e + 1)).toNat = 0 := by omega
    have down' : (-e).toNat = 0 := by omega
    rw [up, down, down', Nat.pow_succ', ← Nat.mul_assoc c]
  · have up : (e + 1).toNat = 0 := by omega
    have up' : e.toNat = 0 := by omega
    have down : (-e).toNat = (-(e + 1)).toNat + 1 := by omega
    have scale := nearestRank_scale (c * Binary64.one) (10 ^ (-(e + 1)).toNat)
      (show 0 < 10 by decide)
    rw [up, up', down, Nat.pow_zero, Nat.mul_one, Nat.mul_one, Nat.pow_succ,
      Nat.mul_comm (10 ^ _) 10, Nat.mul_comm c 10, Nat.mul_assoc, scale]

/-- Zeros at the end of the coefficient count as steps of the exponent. -/
theorem rank_scale (c k : Nat) (e : Int) : rank ⟨c * 10 ^ k, e⟩ = rank ⟨c, e + k⟩ := by
  induction k generalizing e with
  | zero => rw [Nat.pow_zero, Nat.mul_one, Int.natCast_zero, Int.add_zero]
  | succ k ih =>
    rw [Nat.pow_succ, ← Nat.mul_assoc, rank_shift, ih, Int.natCast_succ]
    congr 2
    omega

theorem rank_whole (c : Nat) : rank ⟨c, 0⟩ = nearestRank (c * Binary64.one) 1 := by
  have none : (0 : Int).toNat = 0 := Int.toNat_zero
  rw [rank, numerator, denominator, Int.neg_zero, none, Nat.pow_zero, Nat.mul_one]

theorem rank_zero (e : Int) : rank ⟨0, e⟩ = 0 := by
  unfold rank numerator
  rw [Nat.zero_mul, Nat.zero_mul, nearestRank_eq, Nat.zero_div]
  have none : shiftOf 0 = 0 := by decide
  rw [none, Nat.zero_mul, Nat.zero_add, roundEven, Nat.zero_mod, Nat.zero_div, Nat.mul_zero]
  split
  · rfl
  · split
    · omega
    · rfl

/-- Ten to the 310th is beyond all doubles. -/
theorem rank_huge {d : Decimal} (pos : d.coefficient ≠ 0) (h : 310 ≤ d.exponent) :
    rankCount ≤ d.rank := by
  obtain ⟨k, hk, limit⟩ : ∃ k, k ≤ 310 ∧ units rankCount ≤ 10 ^ k * Binary64.one :=
    ⟨310, Nat.le_refl _, by decide +kernel⟩
  have power : 10 ^ k ≤ 10 ^ d.exponent.toNat := Nat.pow_le_pow_right (by decide) (by omega)
  have low : units rankCount ≤ d.numerator * Binary64.one := by
    refine Nat.le_trans limit (Nat.mul_le_mul_right _ (Nat.le_trans power ?_))
    exact Nat.le_mul_of_pos_left _ (Nat.pos_of_ne_zero pos)
  have one : d.denominator = 1 := by
    have none : (-d.exponent).toNat = 0 := by omega
    rw [denominator, none, Nat.pow_zero]
  have mono := @nearestRank_mono _ _ 1 low
  rw [nearestRank_units] at mono
  rw [rank, one]
  exact mono

/-- Three decimal digits are more than nine binary ones, so the value lies far below the least
double. -/
theorem rank_tiny {d : Decimal} (below : d.exponent < 0)
    (h : Nat.log2 d.coefficient + 1200 ≤ 3 * d.exponent.natAbs) : d.rank = 0 := by
  have top : d.numerator = d.coefficient := by
    have none : d.exponent.toNat = 0 := by omega
    rw [numerator, none, Nat.pow_zero, Nat.mul_one]
  have bottom : d.denominator = 10 ^ d.exponent.natAbs := by
    have same : (-d.exponent).toNat = d.exponent.natAbs := by omega
    rw [denominator, same]
  have coefficient : d.coefficient < 2 ^ (Nat.log2 d.coefficient + 1) := Nat.lt_log2_self
  have eight : 2 ^ (3 * d.exponent.natAbs) ≤ 10 ^ d.exponent.natAbs := by
    rw [Nat.pow_mul]
    exact Nat.pow_le_pow_left (by decide) _
  obtain ⟨k, hk, one⟩ : ∃ k, k = 1200 ∧ Binary64.one * 2 ^ 126 = 2 ^ k :=
    ⟨1200, rfl, by decide +kernel⟩
  have small : 2 * (d.coefficient * Binary64.one) < 10 ^ d.exponent.natAbs := by
    refine Nat.lt_of_lt_of_le ?_ eight
    have split : 2 ^ (Nat.log2 d.coefficient + 1) * 2 ^ k =
        2 * 2 ^ (Nat.log2 d.coefficient + k) := by
      rw [← Nat.pow_add, ← Nat.pow_add_one', Nat.add_right_comm]
    have bound : 2 ^ (Nat.log2 d.coefficient + k) ≤ 2 ^ (3 * d.exponent.natAbs) :=
      Nat.pow_le_pow_right (by decide) (by omega)
    have scaled : d.coefficient * (Binary64.one * 2 ^ 126) <
        2 ^ (Nat.log2 d.coefficient + 1) * 2 ^ k := by
      rw [one]
      exact Nat.mul_lt_mul_of_pos_right coefficient (Nat.two_pow_pos _)
    rw [split, ← Nat.mul_assoc] at scaled
    omega
  have quotient : d.coefficient * Binary64.one / 10 ^ d.exponent.natAbs = 0 :=
    Nat.div_eq_of_lt (by omega)
  have none : shiftOf 0 = 0 := by decide
  rw [rank, top, bottom, nearestRank_eq, quotient, none, Nat.zero_mul, Nat.zero_add, Nat.pow_zero,
    Nat.mul_one, roundEven, quotient, Nat.mod_eq_of_lt (by omega), if_pos small]

end Decimal

namespace Binary64

/-- A decimal is read as the double of its rank. -/
theorem ofDecimal_eq (negative : Bool) (d : Decimal) :
    ofDecimal negative d = ofRank negative d.rank := by
  unfold ofDecimal
  by_cases zero : d.coefficient = 0
  · have rank : d.rank = 0 := by
      cases d with | mk c e =>
      dsimp only at zero
      rw [zero, Decimal.rank_zero]
    rw [if_pos zero, rank]
  rw [if_neg zero]
  by_cases huge : 310 ≤ d.exponent
  · rw [if_pos huge, ofRank, dif_neg (Nat.not_lt.2 (Decimal.rank_huge zero huge))]
  rw [if_neg huge]
  by_cases whole : 0 ≤ d.exponent
  · have none : (-d.exponent).toNat = 0 := by omega
    rw [if_pos whole, ofRatio, Decimal.rank, Decimal.numerator, Decimal.denominator, none,
      Nat.pow_zero]
    rfl
  rw [if_neg whole]
  by_cases tiny : Nat.log2 d.coefficient + 1200 ≤ 3 * d.exponent.natAbs
  · rw [if_pos tiny, Decimal.rank_tiny (by omega) tiny]
  · have none : d.exponent.toNat = 0 := by omega
    have same : (-d.exponent).toNat = d.exponent.natAbs := by omega
    rw [if_neg tiny, ofRatio, Decimal.rank, Decimal.numerator, Decimal.denominator, none, same,
      Nat.pow_zero, Nat.mul_one]
    rfl

theorem ofRank_inj {s s' : Bool} {r r' : Nat} (hr : r < rankCount)
    (h : ofRank s' r' = ofRank s r) : r' = r := by
  unfold ofRank at h
  rw [dif_pos hr] at h
  split at h
  · cases h
    rfl
  · cases h

end Binary64

/-! ## Shortest digits -/

theorem readsBack_some {rank count : Nat} {d : Decimal} (h : readsBack rank count = some d) :
    Binary64.ofDecimal false d = Binary64.ofRank false rank := by
  unfold readsBack at h
  dsimp only at h
  split at h
  · next low =>
    split at h
    · next both =>
      cases h
      rw [Bool.and_eq_true, decide_eq_true_eq] at both
      exact both.1
    · cases h
      exact low
  · split at h
    · next high =>
      cases h
      exact high
    · cases h

/-- All the digits of a magnitude are the magnitude itself. -/
theorem rank_decimalUnits (rank : Nat) : Decimal.rank ⟨decimalUnits rank, -1074⟩ = rank := by
  have none : (-1074 : Int).toNat = 0 := by decide
  obtain ⟨p, q, whole, below, power, pos⟩ : ∃ p q : Nat, decimalUnits rank = units rank * p ∧
      Decimal.denominator ⟨decimalUnits rank, -1074⟩ = q ∧ p * Binary64.one = q ∧ 0 < q :=
    ⟨_, 10 ^ (- -1074 : Int).toNat, rfl, rfl, by decide +kernel, by decide +kernel⟩
  have above : Decimal.numerator ⟨decimalUnits rank, -1074⟩ * Binary64.one = q * units rank := by
    unfold Decimal.numerator
    rw [none, Nat.pow_zero, Nat.mul_one, whole, Nat.mul_assoc, power, Nat.mul_comm]
  rw [Decimal.rank, above, below]
  have scale := nearestRank_scale (units rank) 1 pos
  rwa [Nat.mul_one, nearestRank_units] at scale

/-- The shortest digits of a magnitude read back as it. -/
theorem rank_shortest {rank : Nat} (h : rank < rankCount) : (shortest rank).rank = rank := by
  unfold shortest
  cases found : (List.range' 1 17).findSome? (readsBack rank) with
  | none => exact rank_decimalUnits rank
  | some d =>
    obtain ⟨count, _, some⟩ := List.exists_of_findSome?_eq_some found
    have reads := readsBack_some some
    rw [Binary64.ofDecimal_eq] at reads
    exact Binary64.ofRank_inj h reads

end SpanTree
