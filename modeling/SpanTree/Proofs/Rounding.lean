import Mathlib.Algebra.Group.Nat.Defs
import SpanTree.Number.Quantity

/-!
# Rounding to the nearest rank

What `nearestRank` does to fractions, apart from any sign:

* `roundEven_mono`, `nearestRank_mono`: a greater fraction never has a smaller rank;
* `nearestRank_scale`: the rank belongs to the fraction and not to the way it is written;
* `exists_units`: no more than 53 binary digits with zeros behind them are what a double has;
* `nearestRank_units`: a magnitude that a double has is rounded to its own rank;
* `units_lt_iff`, `units_le_iff`: ranks are in the order of their magnitudes;
* `exceededBy_mono`: what lies above a limit does so with all that is greater.
-/

namespace SpanTree

theorem binade_eq : binade = 2 ^ 52 := rfl

/-! ## Halves -/

theorem roundEven_le (num den : Nat) : roundEven num den ≤ num / den + 1 := by
  unfold roundEven
  dsimp only
  split
  · omega
  · split <;> omega

theorem le_roundEven (num den : Nat) : num / den ≤ roundEven num den := by
  unfold roundEven
  dsimp only
  split
  · omega
  · split <;> omega

theorem roundEven_mul (n : Nat) {den : Nat} (h : 0 < den) : roundEven (n * den) den = n := by
  unfold roundEven
  dsimp only
  rw [Nat.mul_mod_left, if_pos (by omega), Nat.mul_div_cancel _ h]

theorem roundEven_scale (num den : Nat) {k : Nat} (h : 0 < k) :
    roundEven (k * num) (k * den) = roundEven num den := by
  unfold roundEven
  simp only [Nat.mul_div_mul_left _ _ h, Nat.mul_mod_mul_left, Nat.mul_left_comm 2 k,
    Nat.mul_lt_mul_left h]

theorem roundEven_mono {num num' den : Nat} (h : num ≤ num') :
    roundEven num den ≤ roundEven num' den := by
  have hq : num / den ≤ num' / den := Nat.div_le_div_right h
  rcases Nat.lt_or_eq_of_le hq with lt | same
  · exact Nat.le_trans (roundEven_le num den) (Nat.le_trans lt (le_roundEven num' den))
  · have hr : num % den ≤ num' % den := by
      have h₁ := Nat.div_add_mod num den
      have h₂ := Nat.div_add_mod num' den
      rw [same] at h₁
      omega
    unfold roundEven
    dsimp only
    rw [same]
    split <;> split <;> (try split) <;> (try split) <;> omega

/-! ## Ranks -/

/-- The power of two that divides the fraction before it is rounded. -/
def shiftOf (q : Nat) : Nat := Nat.log2 q + 1 - 53

theorem nearestRank_eq (num den : Nat) : nearestRank num den =
    shiftOf (num / den) * binade + roundEven num (den * 2 ^ shiftOf (num / den)) := rfl

theorem shiftOf_mono {q q' : Nat} (h : q ≤ q') : shiftOf q ≤ shiftOf q' := by
  by_cases hz : q = 0
  · subst hz
    exact Nat.zero_le _
  · have hl : q.log2 ≤ q'.log2 :=
      (Nat.le_log2 (by omega)).2 (Nat.le_trans (Nat.log2_self_le hz) h)
    unfold shiftOf
    omega

/-- After the division fewer than 54 binary digits are left. -/
theorem div_shiftOf_lt (q : Nat) : q / 2 ^ shiftOf q < 2 ^ 53 := by
  by_cases hz : q = 0
  · subst hz
    decide
  · have hl : q < 2 ^ (q.log2 + 1) := (Nat.log2_lt hz).1 (Nat.lt_succ_self _)
    apply Nat.div_lt_of_lt_mul
    rw [← Nat.pow_add]
    exact Nat.lt_of_lt_of_le hl (Nat.pow_le_pow_right (by omega) (by unfold shiftOf; omega))

/-- Where something is divided, 53 binary digits are left. -/
theorem le_div_shiftOf {q : Nat} (h : 0 < shiftOf q) : 2 ^ 52 ≤ q / 2 ^ shiftOf q := by
  have hz : q ≠ 0 := by
    rintro rfl
    exact absurd h (by decide)
  rw [Nat.le_div_iff_mul_le (Nat.two_pow_pos _), ← Nat.pow_add]
  refine Nat.le_trans (Nat.pow_le_pow_right (by omega) ?_) (Nat.log2_self_le hz)
  unfold shiftOf at h ⊢
  omega

/-- A greater fraction never has a smaller rank. -/
theorem nearestRank_mono {num num' den : Nat} (h : num ≤ num') :
    nearestRank num den ≤ nearestRank num' den := by
  have hq : num / den ≤ num' / den := Nat.div_le_div_right h
  rw [nearestRank_eq, nearestRank_eq]
  rcases Nat.lt_or_eq_of_le (shiftOf_mono hq) with lt | same
  · -- Across a power of two the bounds of the rounded parts are enough.
    have upper := roundEven_le num (den * 2 ^ shiftOf (num / den))
    have lower := le_roundEven num' (den * 2 ^ shiftOf (num' / den))
    rw [← Nat.div_div_eq_div_mul] at upper lower
    have hu := div_shiftOf_lt (num / den)
    have hl := le_div_shiftOf (q := num' / den) (by omega)
    have hmul : (shiftOf (num / den) + 1) * binade ≤ shiftOf (num' / den) * binade :=
      Nat.mul_le_mul_right _ lt
    rw [Nat.add_mul, binade_eq] at hmul
    rw [binade_eq]
    omega
  · rw [same]
    exact Nat.add_le_add_left (roundEven_mono h) _

/-- Both sides of a fraction may be multiplied. -/
theorem nearestRank_scale (num den : Nat) {k : Nat} (h : 0 < k) :
    nearestRank (k * num) (k * den) = nearestRank num den := by
  rw [nearestRank_eq, nearestRank_eq, Nat.mul_div_mul_left _ _ h, Nat.mul_assoc,
    roundEven_scale _ _ h]

theorem units_of_lt {rank : Nat} (h : rank < binade) : units rank = rank := if_pos h

theorem units_of_le {rank : Nat} (h : binade ≤ rank) :
    units rank = (binade + rank % binade) * 2 ^ (rank / binade - 1) := if_neg (by omega)

/-- A few binary digits with zeros behind them are the magnitude of a double. -/
theorem exists_units {m : Nat} (small : m < 2 ^ 53) (e : Nat) : ∃ rank, units rank = m * 2 ^ e := by
  have full {m : Nat} (small : m < 2 ^ 53) (large : 2 ^ 52 ≤ m) (e : Nat) :
      ∃ rank, units rank = m * 2 ^ e := by
    refine ⟨m - 2 ^ 52 + (e + 1) * 2 ^ 52, ?_⟩
    have low : m - 2 ^ 52 < 2 ^ 52 := by omega
    rw [units_of_le (by rw [binade_eq]; omega), binade_eq, Nat.add_mul_mod_self_right,
      Nat.mod_eq_of_lt low, Nat.add_mul_div_right _ _ (Nat.two_pow_pos 52),
      Nat.div_eq_of_lt low, Nat.zero_add, Nat.add_sub_cancel, Nat.add_sub_cancel' large]
  induction e generalizing m with
  | zero =>
    by_cases large : 2 ^ 52 ≤ m
    · exact full small large 0
    · exact ⟨m, by rw [units_of_lt (by rw [binade_eq]; omega), Nat.pow_zero, Nat.mul_one]⟩
  | succ e ih =>
    by_cases large : 2 ^ 52 ≤ m
    · exact full small large (e + 1)
    · obtain ⟨rank, same⟩ := @ih (m * 2) (by omega)
      exact ⟨rank, by rw [same, Nat.mul_assoc, ← Nat.pow_succ']⟩

/-- A magnitude that a double has keeps its rank. -/
theorem nearestRank_units (rank : Nat) : nearestRank (units rank) 1 = rank := by
  rw [nearestRank_eq, Nat.div_one, Nat.one_mul]
  have hpos : 0 < binade := by decide
  by_cases small : rank < binade
  · have hshift : shiftOf (units rank) = 0 := by
      rw [units_of_lt small]
      by_cases hz : rank = 0
      · subst hz
        decide
      · unfold shiftOf
        have : rank.log2 < 53 := (Nat.log2_lt hz).2 (by rw [binade_eq] at small; omega)
        omega
    rw [hshift, units_of_lt small, Nat.zero_mul, Nat.zero_add]
    have h := @roundEven_mul rank 1 (by decide)
    rwa [Nat.mul_one] at h
  · have hge : binade ≤ rank := by omega
    have hmod : rank % binade < binade := Nat.mod_lt _ hpos
    have hdiv : 1 ≤ rank / binade := (Nat.one_le_div_iff hpos).2 hge
    have hz : units rank ≠ 0 := by
      rw [units_of_le hge]
      exact Nat.mul_ne_zero (by omega) (Nat.pos_iff_ne_zero.1 (Nat.two_pow_pos _))
    have hlog : (units rank).log2 = 52 + (rank / binade - 1) := by
      rw [Nat.log2_eq_iff hz, units_of_le hge, Nat.pow_add, Nat.add_right_comm, Nat.pow_add]
      rw [binade_eq] at hmod ⊢
      constructor
      · exact Nat.mul_le_mul_right _ (by omega)
      · exact Nat.mul_lt_mul_of_pos_right (by omega) (Nat.two_pow_pos _)
    have hshift : shiftOf (units rank) = rank / binade - 1 := by
      unfold shiftOf
      omega
    rw [hshift, units_of_le hge, roundEven_mul _ (Nat.two_pow_pos _)]
    have hsum := Nat.div_add_mod rank binade
    obtain ⟨m, hm⟩ : ∃ m, rank / binade = m + 1 := ⟨rank / binade - 1, by omega⟩
    rw [hm, Nat.mul_add, Nat.mul_one, Nat.mul_comm] at hsum
    rw [hm, Nat.add_sub_cancel]
    omega

/-- Ranks are in the order of their magnitudes. -/
theorem units_lt_iff {r r' : Nat} : units r < units r' ↔ r < r' := by
  have mono {a b : Nat} (h : units a ≤ units b) : a ≤ b := by
    have := @nearestRank_mono _ _ 1 h
    rwa [nearestRank_units, nearestRank_units] at this
  constructor
  · intro h
    have hle := mono (Nat.le_of_lt h)
    rcases Nat.lt_or_eq_of_le hle with lt | rfl
    · exact lt
    · exact absurd h (Nat.lt_irrefl _)
  · intro h
    apply Nat.lt_of_not_le
    intro hle
    have := mono hle
    omega

theorem units_le_iff {r r' : Nat} : units r ≤ units r' ↔ r ≤ r' := by
  rw [← Nat.not_lt, units_lt_iff, Nat.not_lt]

/-! ## One -/

theorem Binary64.one_pos : 0 < one := by decide +kernel

theorem Binary64.exists_one : ∃ e, one = 2 ^ e := by
  unfold one
  generalize 1074 = e
  exact ⟨e, rfl⟩

/-- The rank of one. -/
theorem units_one : units (1023 * binade) = Binary64.one := by decide +kernel

theorem Binary64.ofNat_one :
    ofNat 1 = finite false ⟨1023 * binade, Nat.mul_lt_mul_of_pos_right (by decide)
      (Nat.two_pow_pos 52)⟩ := by
  have rank : nearestRank (1 * one) 1 = 1023 * binade := by
    rw [Nat.one_mul, ← units_one, nearestRank_units]
  simp only [ofNat, ofRatio, rank]
  exact dif_pos _

/-- One is neutral. -/
theorem Binary64.mul_one (negative : Bool) (r : Fin rankCount) :
    (finite negative r).mul (ofNat 1) = finite negative r := by
  have same : nearestRank (units r * one) one = r := by
    have scale := nearestRank_scale (units r) 1 one_pos
    rw [Nat.mul_one, Nat.mul_comm] at scale
    rw [scale, nearestRank_units]
  rw [ofNat_one]
  simp only [mul, units_one, same, Bool.bne_false, ofRank, r.isLt, dite_true]

theorem Binary64.truncate_of_toInt? {x : Binary64} {n : Int} (h : x.toInt? = some n) :
    x.truncate = some n := by
  cases x with
  | nan | infinite s => cases h
  | finite s r =>
    by_cases whole : units r % one = 0
    · rw [toInt?, if_pos whole] at h
      exact h
    · rw [toInt?, if_neg whole] at h
      cases h

/-! ## Limits -/

theorem Binary64.lt_ofNat_mono {x : Binary64} {k n : Nat} (h : k ≤ n)
    (hx : x.lt (.ofNat k) = true) : x.lt (.ofNat n) = true := by
  have hr : nearestRank (k * one) 1 ≤ nearestRank (n * one) 1 :=
    nearestRank_mono (Nat.mul_le_mul_right _ h)
  unfold ofNat ofRatio ofRank at *
  cases x with
  | nan => exact absurd hx (by simp [lt])
  | infinite s => split at hx <;> split <;> simp_all [lt]
  | finite s r =>
    by_cases hn : nearestRank (n * one) 1 < rankCount
    · have hu : units (nearestRank (k * one) 1) ≤ units (nearestRank (n * one) 1) :=
        units_le_iff.2 hr
      rw [dif_pos (by omega)] at hx
      rw [dif_pos hn]
      simp only [lt, signedUnits, Bool.false_eq_true, if_false, decide_eq_true_eq] at hx ⊢
      omega
    · rw [dif_neg hn]
      rfl

/-- A whole number that is given is a natural number where it is small enough and not negative. -/
theorem Quantity.ofBinary64_whole {x : Binary64} {k : Int} (h : x.toInt? = some k) :
    ofBinary64 x = if 0 ≤ k ∧ k < (2 ^ 53 : Nat) then natural k.toNat else irregular x := by
  unfold ofBinary64
  rw [h]
  cases k with
  | ofNat n =>
    rw [Int.ofNat_eq_natCast]
    by_cases small : n < 2 ^ 53
    · rw [if_pos (by omega)]
      exact if_pos small
    · rw [if_neg (by omega)]
      exact if_neg small
  | negSucc n => rw [if_neg (by omega)]

/-- What does not exceed a limit lets nothing smaller exceed it. -/
theorem Quantity.exceededBy_mono {limit : Quantity} {k n : Nat} (h : k ≤ n)
    (hn : limit.exceededBy n = false) : limit.exceededBy k = false := by
  cases limit with
  | natural m =>
    simp only [exceededBy, decide_eq_false_iff_not] at hn ⊢
    omega
  | irregular x =>
    apply Bool.eq_false_iff.2
    intro hk
    rw [exceededBy, Binary64.lt_ofNat_mono h hk] at hn
    cases hn

theorem Quantity.exceededBy_of_le {limit : Quantity} {k n : Nat} (h : k ≤ n)
    (hk : limit.exceededBy k = true) : limit.exceededBy n = true := by
  cases hn : limit.exceededBy n with
  | true => rfl
  | false =>
    rw [exceededBy_mono h hn] at hk
    cases hk

end SpanTree
