import SpanTree.Proofs.Numerals

/-!
# The texts of doubles that stand for integers

A double that stands alone for an integer has the text of this integer.

* `digitCount_eq`: the search for the number of digits finds it;
* `chars_whole`: a decimal without a fraction is laid out as the digits of its value;
* `shortest_whole`: the shortest digits of a small integer are a decimal of exactly this value;
* `text_of_exactInteger?`: so the text of its double is its own.
-/

namespace SpanTree

open Binary64 (one)

/-! ## Digits of whole numbers -/

/-- The search ends at the first power above a number, if that is within its fuel. -/
theorem powerAbove_eq {n k : Nat} (low : ∀ j < k, 10 ^ j ≤ n) (high : n < 10 ^ k) :
    ∀ {fuel count : Nat}, count ≤ k → k ≤ count + fuel → powerAbove n fuel count = k
  | 0, count, start, room => by
    rw [powerAbove]
    omega
  | fuel + 1, count, start, room => by
    rw [powerAbove]
    by_cases found : count = k
    · subst found
      exact if_pos high
    · have more : ¬ n < Nat.pow 10 count := Nat.not_lt.2 (low count (by omega))
      rw [if_neg more]
      exact powerAbove_eq low high (by omega) (by omega)

/-- The search for the number of digits finds it. -/
theorem digitCount_eq {n k : Nat} (low : 10 ^ k ≤ n) (high : n < 10 ^ (k + 1)) :
    digitCount n = k + 1 := by
  have pos : n ≠ 0 := by
    have := Nat.pow_pos (n := k) (show 0 < 10 by decide)
    omega
  have below := Nat.log2_self_le pos
  refine powerAbove_eq (fun j less => ?_) high ?_ ?_
  · exact Nat.le_trans (Nat.pow_le_pow_right (by decide) (by omega)) low
  · -- The third powers are compared, since 10 ^ 3 ≤ 2 ^ 10.
    have cube : 10 ^ (3 * (Nat.log2 n * 3 / 10)) < 10 ^ (3 * (k + 1)) := calc
      10 ^ (3 * (Nat.log2 n * 3 / 10)) = (10 ^ 3) ^ (Nat.log2 n * 3 / 10) := Nat.pow_mul ..
      _ ≤ (2 ^ 10) ^ (Nat.log2 n * 3 / 10) := Nat.pow_le_pow_left (by decide) _
      _ = 2 ^ (10 * (Nat.log2 n * 3 / 10)) := (Nat.pow_mul ..).symm
      _ ≤ 2 ^ (Nat.log2 n * 3) := Nat.pow_le_pow_right (by decide) (by omega)
      _ = (2 ^ Nat.log2 n) ^ 3 := Nat.pow_mul ..
      _ ≤ n ^ 3 := Nat.pow_le_pow_left below 3
      _ < (10 ^ (k + 1)) ^ 3 := Nat.pow_lt_pow_left high (by decide)
      _ = 10 ^ (3 * (k + 1)) := by rw [← Nat.pow_mul, Nat.mul_comm]
    have := (Nat.pow_lt_pow_iff_right (by decide)).1 cube
    omega
  · have : 2 ^ k < 2 ^ (Nat.log2 n + 1) := calc
      2 ^ k ≤ 10 ^ k := Nat.pow_le_pow_left (by decide) k
      _ ≤ n := low
      _ < 2 ^ (Nat.log2 n + 1) := Nat.lt_log2_self
    have := (Nat.pow_lt_pow_iff_right (by decide)).1 this
    omega

/-- A positive number lies between two powers of ten. -/
theorem exists_digits {n : Nat} (pos : 0 < n) : ∃ k, 10 ^ k ≤ n ∧ n < 10 ^ (k + 1) ∧
    (Nat.toDigits 10 n).length = k + 1 := by
  induction n using Nat.strongRecOn with
  | ind n ih =>
    by_cases small : n < 10
    · refine ⟨0, pos, small, ?_⟩
      rw [Nat.toDigits_of_lt_base small]
      rfl
    · obtain ⟨k, low, high, length⟩ := ih (n / 10) (by omega) (by omega)
      refine ⟨k + 1, ?_, ?_, ?_⟩
      · rw [Nat.pow_succ]
        omega
      · rw [Nat.pow_succ]
        omega
      · rw [Text.toDigits_split n (by omega), List.length_append, length,
          Nat.toDigits_of_lt_base (Nat.mod_lt n (by decide))]
        rfl

/-- A number with zeros at its end has so many digits more. -/
theorem digitCount_scale {n k : Nat} (low : 10 ^ k ≤ n) (high : n < 10 ^ (k + 1)) (j : Nat) :
    digitCount (n * 10 ^ j) = k + 1 + j := by
  rw [Nat.add_right_comm]
  apply digitCount_eq
  · rw [Nat.pow_add]
    exact Nat.mul_le_mul_right _ low
  · rw [Nat.add_right_comm, Nat.pow_add]
    exact Nat.mul_lt_mul_of_pos_right high (Nat.pow_pos (by decide))

/-- A small integer has at most 16 digits. -/
theorem few_digits {m k : Nat} (low : 10 ^ k ≤ m) (small : m < 2 ^ 53) : k < 16 := by
  have less : 10 ^ k < 10 ^ 16 := Nat.lt_of_le_of_lt low (Nat.lt_trans small (by decide))
  exact (Nat.pow_lt_pow_iff_right (by decide)).1 less

/-- Zeros at the end of the digits of a number. -/
theorem toDigits_zeros {n : Nat} (pos : 0 < n) (k : Nat) :
    Nat.toDigits 10 (n * 10 ^ k) = Nat.toDigits 10 n ++ List.replicate k '0' := by
  induction k with
  | zero => rw [Nat.pow_zero, Nat.mul_one, List.replicate_zero, List.append_nil]
  | succ k ih =>
    have more : 0 < n * 10 ^ k := Nat.mul_pos pos (Nat.pow_pos (by decide))
    have last := Nat.toDigits_append_toDigits (b := 10) (by decide) more (show 0 < 10 by decide)
    rw [ih] at last
    rw [Nat.pow_succ, ← Nat.mul_assoc, Nat.mul_comm _ 10, List.replicate_succ']
    rw [← List.append_assoc]
    exact last.symm

/-- A decimal of few digits without a fraction is laid out as the digits of its value. -/
theorem chars_whole {c e : Nat} (pos : 0 < c)
    (few : (Nat.toDigits 10 (c * 10 ^ e)).length ≤ 21) :
    Decimal.chars ⟨c, e⟩ = Nat.toDigits 10 (c * 10 ^ e) := by
  obtain ⟨z, split⟩ := dropTrailingZeros_append (Nat.toDigits 10 c)
  rw [toDigits_zeros pos] at few ⊢
  unfold Decimal.chars
  dsimp only
  generalize dropTrailingZeros (Nat.toDigits 10 c) = ds at split ⊢
  rw [split] at few ⊢
  simp only [List.length_append, List.length_replicate] at few ⊢
  rw [layOut, if_pos (by omega), List.append_assoc, List.replicate_append_replicate]
  congr 2
  omega

/-! ## Shortest digits of integers -/

/-- The least magnitude is a power of two, and of ten with as many fives. -/
theorem exists_scale : ∃ j : Nat, j = 1074 ∧ one = 2 ^ j ∧
    ∀ rank, decimalUnits rank = units rank * 5 ^ j := by
  unfold one decimalUnits
  generalize 1074 = j
  exact ⟨j, rfl, rfl, fun _ => rfl⟩

/-- The magnitude of a small integer is exact. -/
theorem units_whole {m : Nat} (small : m < 2 ^ 53) :
    units (nearestRank (m * one) 1) = m * one := by
  obtain ⟨j, _, power, _⟩ := exists_scale
  obtain ⟨rank, same⟩ := exists_units small j
  rw [power, ← same, nearestRank_units]

/-- No other integer is rounded to a small one. -/
theorem nearestRank_whole_inj {m w : Nat} (small : m < 2 ^ 53)
    (same : nearestRank (w * one) 1 = nearestRank (m * one) 1) : w = m := by
  have exact := units_whole small
  by_cases less : w < 2 ^ 53
  · have other := units_whole less
    rw [same, exact] at other
    exact (Nat.eq_of_mul_eq_mul_right Binary64.one_pos other).symm
  · -- The least integer of 54 binary digits is a double, and it is above the small one.
    obtain ⟨j, _, power, _⟩ := exists_scale
    obtain ⟨rank, top⟩ := exists_units (show 1 < 2 ^ 53 by decide) (53 + j)
    rw [Nat.one_mul, Nat.pow_add, ← power] at top
    have between : nearestRank (units rank) 1 ≤ nearestRank (w * one) 1 := by
      apply nearestRank_mono
      rw [top]
      exact Nat.mul_le_mul_right _ (Nat.not_lt.1 less)
    rw [nearestRank_units, same, ← units_le_iff, top, exact] at between
    have := Nat.le_of_mul_le_mul_right between Binary64.one_pos
    omega

theorem rank_whole_lt {m : Nat} (small : m < 2 ^ 53) : nearestRank (m * one) 1 < rankCount := by
  rw [← units_lt_iff, units_whole small]
  have top : 2 ^ 53 * one ≤ units rankCount := by decide +kernel
  exact Nat.lt_of_lt_of_le (Nat.mul_lt_mul_of_pos_right small Binary64.one_pos) top

theorem readsBack_exponent {rank count : Nat} {d : Decimal} (h : readsBack rank count = some d) :
    d.exponent = ((digitCount (decimalUnits rank) - count : Nat) : Int) - 1074 := by
  unfold readsBack at h
  dsimp only at h
  split at h
  · split at h <;> cases h <;> rfl
  · split at h
    · cases h
      rfl
    · cases h

/-- The digits that are cut off a magnitude are enough where nothing is lost. -/
theorem readsBack_exact {rank count : Nat} (h : Decimal.rank
    ⟨decimalUnits rank / 10 ^ (digitCount (decimalUnits rank) - count),
      ((digitCount (decimalUnits rank) - count : Nat) : Int) - 1074⟩ = rank) :
    ∃ d, readsBack rank count = some d := by
  unfold readsBack
  dsimp only
  rw [if_pos]
  · split <;> exact ⟨_, rfl⟩
  · rw [Binary64.ofDecimal_eq]
    exact congrArg _ h

/-- The shortest digits are as many as the first number of digits that is enough. -/
theorem shortest_first {rank count : Nat} (least : 1 ≤ count) (most : count ≤ 17) {d : Decimal}
    (h : readsBack rank count = some d) :
    ∃ first ≤ count, readsBack rank first = some (shortest rank) := by
  have inside : count ∈ List.range' 1 17 := List.mem_range'_1.2 ⟨least, by omega⟩
  unfold shortest
  cases found : (List.range' 1 17).findSome? (readsBack rank) with
  | none =>
    rw [List.findSome?_eq_none_iff.1 found count inside] at h
    cases h
  | some d' =>
    obtain ⟨before, first, after, split, reads, none⟩ := List.findSome?_eq_some_iff.1 found
    refine ⟨first, ?_, reads⟩
    rw [split] at inside
    rcases List.mem_append.1 inside with earlier | later
    · rw [none count earlier] at h
      cases h
    · have ascending : (before ++ first :: after).Pairwise (· < ·) :=
        split ▸ List.pairwise_lt_range'
      rcases List.mem_cons.1 later with rfl | later
      · exact Nat.le_refl _
      · have ordered := (List.pairwise_append.1 ascending).2.1
        exact Nat.le_of_lt (List.rel_of_pairwise_cons ordered later)

/-- The shortest digits of a small integer are a decimal of exactly this value. -/
theorem shortest_whole {m : Nat} (pos : 0 < m) (small : m < 2 ^ 53) : ∃ c e : Nat, 0 < c ∧
    c * 10 ^ e = m ∧ shortest (nearestRank (m * one) 1) = ⟨c, e⟩ := by
  obtain ⟨j, same, power, fives⟩ := exists_scale
  obtain ⟨k, low, high, _⟩ := exists_digits pos
  have few := few_digits low small
  have whole : decimalUnits (nearestRank (m * one) 1) = m * 10 ^ j := by
    rw [fives, units_whole small, power, Nat.mul_assoc, ← Nat.mul_pow]
  have digits : digitCount (decimalUnits (nearestRank (m * one) 1)) = k + 1 + j := by
    rw [whole, digitCount_scale low high]
  -- All the digits of the integer are enough, so the shortest are not more, and no fraction.
  obtain ⟨d, enough⟩ : ∃ d, readsBack (nearestRank (m * one) 1) (k + 1) = some d := by
    apply readsBack_exact
    rw [digits, Nat.add_sub_cancel_left, whole, Nat.mul_div_cancel _ (Nat.pow_pos (by decide))]
    have none : (j : Int) - 1074 = 0 := by omega
    rw [none, Decimal.rank_whole]
  obtain ⟨first, less, reads⟩ := shortest_first (by omega) (by omega) enough
  have exponent := readsBack_exponent reads
  have value := readsBack_some reads
  rw [Binary64.ofDecimal_eq] at value
  have rank := Binary64.ofRank_inj (rank_whole_lt small) value
  generalize shortest (nearestRank (m * one) 1) = d at exponent rank ⊢
  obtain ⟨c, e⟩ := d
  obtain ⟨e, rfl⟩ : ∃ n : Nat, e = n := ⟨k + 1 - first, by
    rw [digits] at exponent
    dsimp only at exponent
    omega⟩
  have exact : c * 10 ^ e = m := by
    apply nearestRank_whole_inj small
    rw [← rank, ← Decimal.rank_whole, Decimal.rank_scale, Int.zero_add]
  refine ⟨c, e, Nat.pos_of_ne_zero ?_, exact, rfl⟩
  rintro rfl
  omega

/-! ## Texts -/

/-- The double of a small integer has the text of the integer. -/
theorem text_ofInt {n : Int} (small : n.natAbs < 2 ^ 53) :
    (Binary64.ofInt n).text = Text.ofInt n := by
  have inside := rank_whole_lt small
  rw [Binary64.ofInt, Binary64.ofRatio, Binary64.ofRank, dif_pos inside, Binary64.text]
  dsimp only
  by_cases zero : n.natAbs = 0
  · obtain rfl : n = 0 := Int.natAbs_eq_zero.1 zero
    have none : nearestRank ((0 : Int).natAbs * one) 1 = 0 := by decide +kernel
    rw [if_pos none]
    rfl
  · have some : nearestRank (n.natAbs * one) 1 ≠ 0 := by
      intro none
      have exact := units_whole small
      rw [none, units_of_lt (by decide)] at exact
      exact zero (Nat.eq_of_mul_eq_mul_right Binary64.one_pos (by rw [← exact, Nat.zero_mul]))
    obtain ⟨c, e, pos, value, digits⟩ := shortest_whole (Nat.pos_of_ne_zero zero) small
    obtain ⟨k, low, _, length⟩ := exists_digits (Nat.pos_of_ne_zero zero)
    have few := few_digits low small
    rw [if_neg some, digits, chars_whole pos (by rw [value, length]; omega), value, ofInt_eq,
      ofNat_eq, signOf]

/-- A double that stands alone for an integer has the text of this integer. -/
theorem text_of_exactInteger? {x : Binary64} {n : Int} (h : Value.exactInteger? x = some n) :
    x.text = Text.ofInt n := by
  obtain ⟨small, rfl⟩ := exactInteger?_iff.1 h
  exact text_ofInt small

end SpanTree
