import SpanTree.Proofs.Copies
import SpanTree.Proofs.Footprint
import SpanTree.Proofs.Integers
import SpanTree.Proofs.Nearest

/-!
# The end of growing

A buffer is doubled until all bytes fit, and this comes to an end because the buffer is never empty,
unless it was made for a NaN of bytes.

* `Arena.Doubles`: the loop turn by turn, without a bound on the number of turns;
* `doubled_iff`: it ends where `Arena.doubled` says so, and nowhere else;
* `Change.demand?`: how many bytes have to fit for a change that comes to the loop;
* `demand?_ofBinary64`: every size comes to the loop or is refused before it;
* `Change.run_demand`: what such a change does, by what the loop ends with;
* `empty_after`: an empty buffer stays empty;
* `growth_ends`: so every loop ends, unless the arena was made for a NaN of bytes.
-/

namespace SpanTree

/-! ## Sums of whole doubles -/

namespace Binary64

/-- Rounding leaves whole numbers whole. -/
theorem whole_nearestRank {m : Nat} (whole : one ∣ m) : one ∣ units (nearestRank m 1) := by
  obtain ⟨j, power⟩ := exists_one
  rw [power] at whole ⊢
  rw [units_nearestRank, Nat.one_mul]
  generalize shiftOf (m / 1) = s
  by_cases coarse : j ≤ s
  · exact Nat.dvd_mul_left_of_dvd (Nat.pow_dvd_pow 2 coarse) _
  · obtain ⟨q, rfl⟩ := whole
    have split : 2 ^ j * q = 2 ^ (j - s) * q * 2 ^ s := by
      rw [Nat.mul_right_comm, ← Nat.pow_add, Nat.sub_add_cancel (by omega)]
    rw [split, roundEven_mul _ (Nat.two_pow_pos s), ← split]
    exact Nat.dvd_mul_right _ _

/-- No double is so great that a small number added to it is rounded to an infinity. -/
theorem sum_inside {m rank : Nat} (small : m < 2 ^ 53) (inside : rank < rankCount) :
    nearestRank (m * one + units rank) 1 < rankCount := by
  have greatest : nearestRank (2 ^ 53 * one + units (rankCount - 1)) 1 < rankCount := by
    decide +kernel
  refine Nat.lt_of_le_of_lt (nearestRank_mono (Nat.add_le_add ?_ ?_)) greatest
  · exact Nat.mul_le_mul_right _ (Nat.le_of_lt small)
  · exact units_le_iff.2 (by omega)

/-- The sum of a small natural number and of one of any size is a natural number. -/
theorem add_natural {m n : Nat} (small : m < 2 ^ 53) (pos : 0 < n) {x : Binary64}
    (whole : x.toInt? = some (n : Int)) :
    ∃ total : Nat, ((ofNat m).add x).toInt? = some (total : Int) := by
  obtain ⟨s, r, rfl, value⟩ := signedUnits_of_toInt? whole
  obtain ⟨rfl, magnitude⟩ : s = false ∧ units r = n * one := by
    have := Nat.mul_pos pos one_pos
    rw [← Int.natCast_mul] at value
    unfold signedUnits at value
    split at value
    · omega
    · exact ⟨by simpa using ‹¬s = true›, Int.natCast_inj.1 value⟩
  have inside := sum_inside small r.isLt
  have first : ofNat m = finite false ⟨_, rank_whole_lt small⟩ := dif_pos _
  have sum : (ofNat m).add (finite false r) = finite false ⟨_, inside⟩ := by
    rw [first, add, if_pos rfl, units_whole small]
    exact dif_pos _
  have divides := whole_nearestRank (m := m * one + units r)
    (Nat.dvd_add (Nat.dvd_mul_left _ _) (magnitude ▸ Nat.dvd_mul_left _ _))
  refine ⟨units (nearestRank (m * one + units r) 1) / one, ?_⟩
  rw [sum, toInt?, if_pos (Nat.mod_eq_zero_of_dvd divides)]
  exact congrArg some (Int.ofNat_tdiv _ _).symm

end Binary64

namespace Arena

variable {a : Arena} {c : Change} {capacity required final : Nat}

/-! ## The loop -/

/-- A buffer size is doubled as long as it is less than what is required. -/
inductive Doubles (required : Nat) : Nat → Nat → Prop
  | done {capacity : Nat} (fits : required ≤ capacity) : Doubles required capacity capacity
  | turn {capacity final : Nat} (small : capacity < required)
      (rest : Doubles required (2 * capacity) final) : Doubles required capacity final

theorem doubled_iff : doubled capacity required = some final ↔ Doubles required capacity final := by
  constructor
  · intro grown
    fun_induction doubled capacity required with
    | case1 capacity fits =>
      cases grown
      exact .done fits
    | case2 => cases grown
    | case3 capacity small _ ih => exact .turn (by omega) (ih grown)
  · intro loop
    induction loop with
    | done fits => exact doubled_fits fits
    | @turn capacity final small _ ih =>
      unfold doubled
      by_cases empty : capacity = 0
      · subst empty
        rw [doubled_zero small] at ih
        cases ih
      · rw [if_neg (by omega), if_neg empty, ih]

/-- From an empty buffer the loop goes on forever. -/
theorem not_doubles_empty (pos : 0 < required) : ¬ Doubles required 0 final := by
  rw [← doubled_iff, doubled_zero pos]
  nofun

/-! ## Changes -/

/-- How many bytes have to fit into the buffer for a change: those that there are and those that are
asked for, added as doubles where these are too many to be added exactly. A change that asks for
none, or for a number that is not natural, does not come to the loop. -/
def Change.demand? (a : Arena) : Change → Option Nat
  | allocate (.natural n) => some (a.size + n)
  | allocate (.irregular x) =>
    match x.toInt? with
    | some (.ofNat _) => ((Binary64.ofNat a.size).add x).toInt?.map Int.toNat
    | _ => none
  | copy text => some (a.size + (Utf8.encode text).length)
  | write _ _ => none

/-- Every size comes to the loop if it is a natural number, and is refused before it if not. -/
theorem demand?_ofBinary64 (small : a.size < sizeLimit) (x : Binary64) :
    (∃ required, (Change.allocate (.ofBinary64 x)).demand? a = some required) ∨
      a.allocate (.ofBinary64 x) = (.error (.invalidSize (.ofBinary64 x)), a) := by
  by_cases natural : ∃ n : Nat, x.toInt? = some (n : Int)
  · obtain ⟨n, whole⟩ := natural
    left
    rw [Quantity.ofBinary64_whole whole]
    by_cases exact : n < 2 ^ 53
    · rw [if_pos (by omega)]
      exact ⟨_, rfl⟩
    · obtain ⟨total, sum⟩ := Binary64.add_natural small (show 0 < n by omega) whole
      rw [if_neg (by omega)]
      refine ⟨total, ?_⟩
      simp only [Change.demand?, whole, sum]
      rfl
  · exact .inr (allocate_invalid (fun n whole => natural ⟨n, whole⟩) a)

theorem available_ne_stuck (capacity : Nat) : available capacity ≠ .error .stuck := by
  unfold available
  split
  · nofun
  · nofun

/-- A size beyond the natural numbers of doubles is refused for what the loop ends with. -/
theorem refusal_eq {x : Binary64}
    (demands : (Change.allocate (.irregular x)).demand? a = some required) : a.refusal x =
      ((doubled a.capacity required).map fun c => .oversized (.ofBinary64 (.ofNat c))).getD
        .stuck := by
  unfold Change.demand? at demands
  unfold refusal
  dsimp only at demands
  cases whole : x.toInt? with
  | none =>
    rw [whole] at demands
    cases demands
  | some k =>
    rw [whole] at demands
    cases k with
    | negSucc n => cases demands
    | ofNat n =>
      obtain ⟨total, sum, rfl⟩ := Option.map_eq_some_iff.1 demands
      rw [sum]
      dsimp only [Option.bind_some]
      cases doubled a.capacity total.toNat <;> rfl

/-- What a change does that comes to the loop: it is stuck there if the loop does not end, and
leaves the buffer that the loop ends with if it succeeds after that. -/
theorem Change.run_demand (demands : c.demand? a = some required) :
    (doubled a.capacity required = none ∧ c.run a = (.error .stuck, a)) ∨
      ∃ final, doubled a.capacity required = some final ∧
        ((∃ fault, fault ≠ .stuck ∧ c.run a = (.error fault, a)) ∨
          ∃ span a', c.run a = (.ok span, a') ∧ a'.capacity = final) := by
  cases c with
  | write span new => cases demands
  | copy text =>
    obtain rfl := Option.some.inj demands
    rcases copy_result text a with ⟨endless, stuck⟩ | ⟨a', copied, _, grown, _⟩
    · exact .inl ⟨endless, by rw [run, stuck]; rfl⟩
    · exact .inr ⟨_, grown, .inr ⟨_, a', by rw [run, copied]; rfl, rfl⟩⟩
  | allocate size =>
    cases size with
    | irregular x =>
      simp only [run, Arena.allocate, refusal_eq demands]
      cases doubled a.capacity required with
      | none => exact .inl ⟨rfl, rfl⟩
      | some final =>
        refine .inr ⟨final, rfl, .inl ⟨.oversized _, ?_, rfl⟩⟩
        intro same
        cases same
    | natural n =>
      obtain rfl := Option.some.inj demands
      simp only [run, Arena.allocate]
      rcases extend_cases n a with ⟨endless, stuck⟩ | ⟨_, c, ran, _⟩
      · simp only [endless, Option.map_none, stuck]
        exact .inl ⟨trivial, rfl⟩
      · obtain ⟨_, _, capacity, _⟩ := bytes_extend ran
        simp only [capacity, Option.map_some, ran]
        refine .inr ⟨_, rfl, ?_⟩
        cases fits : available c.capacity with
        | ok _ => exact .inr ⟨_, _, rfl, rfl⟩
        | error fault =>
          refine .inl ⟨fault, ?_, rfl⟩
          rintro rfl
          exact available_ne_stuck _ fits

/-- An empty arena without a buffer stays so. -/
theorem Change.empty (buffer : a.capacity = 0) (none : a.size = 0) (c : Change) :
    (c.run a).2.capacity = 0 ∧ (c.run a).2.size = 0 := by
  have outcome := c.outcome a
  generalize c.run a = r at outcome
  cases outcome with
  | refused => exact ⟨buffer, none⟩
  | @added _ _ a' _ _ _ capacity =>
    rw [buffer] at capacity
    rcases Nat.eq_zero_or_pos a'.size with zero | pos
    · rw [zero, doubled_fits (Nat.le_refl 0)] at capacity
      exact ⟨(Option.some.inj capacity).symm, zero⟩
    · rw [doubled_zero pos] at capacity
      cases capacity
  | written range room bytes capacity =>
    exact ⟨capacity.trans buffer, (size_written range room bytes).trans none⟩

theorem empty_after (buffer : a.capacity = 0) (none : a.size = 0) (history : List Change) :
    (a.after history).capacity = 0 ∧ (a.after history).size = 0 := by
  induction history generalizing a with
  | nil => exact ⟨buffer, none⟩
  | cons c rest ih =>
    obtain ⟨buffer', none'⟩ := c.empty buffer none
    exact ih buffer' none'

/-- **Growing comes to an end, unless the arena was made for a NaN of bytes.** An arena that was
made for any other number, whole or not and of either sign, has a buffer of at least one byte.
Whatever was done to it since, the loop of each further change ends with a buffer in which all bytes
fit, and this is the buffer that is left if the change succeeds. Every size that is asked for comes
to the loop or is refused before it. An arena that was made for a NaN of bytes has an empty buffer
for good, and no loop ends there but for a change that asks for no bytes. -/
theorem growth_ends {x : Binary64} {start a : Arena} (created : create x = .ok start)
    {history : List Change} (reached : a = start.after history) :
    (1 ≤ start.capacity ↔ x ≠ .nan) ∧
    (x ≠ .nan → ∀ (c : Change) (required : Nat), c.demand? a = some required →
      (c.run a).1 ≠ .error .stuck ∧
      ∃ final, Doubles required a.capacity final ∧ required ≤ final ∧
        ∀ span a', c.run a = (.ok span, a') → a'.capacity = final) ∧
    (a.size < sizeLimit → ∀ y : Binary64,
      (∃ required, (Change.allocate (.ofBinary64 y)).demand? a = some required) ∨
        a.allocate (.ofBinary64 y) = (.error (.invalidSize (.ofBinary64 y)), a)) ∧
    (x = .nan → a.size = 0 ∧ a.capacity = 0 ∧
      ∀ (c : Change) (required : Nat), c.demand? a = some required → 0 < required →
        (∀ final, ¬ Doubles required a.capacity final) ∧ c.run a = (.error .stuck, a)) := by
  refine ⟨⟨?_, fun number => create_buffer number created⟩, ?_,
    fun small y => demand?_ofBinary64 small y, ?_⟩
  · rintro buffer rfl
    cases created
    exact absurd buffer (by decide)
  · intro number c required demands
    have buffer : 0 < a.capacity := by
      rw [reached]
      exact created_buffer number created history
    obtain ⟨final, grown, fits, _⟩ := doubled_eq_some required buffer
    rcases c.run_demand demands with ⟨endless, _⟩ | ⟨_, ended, outcome⟩
    · rw [grown] at endless
      cases endless
    · obtain rfl := Option.some.inj (grown.symm.trans ended)
      refine ⟨fun stuck => ?_, final, doubled_iff.1 grown, fits, fun span a' succeeds => ?_⟩
      · rcases outcome with ⟨fault, other, ran⟩ | ⟨_, _, ran, _⟩
        · rw [ran] at stuck
          exact other (Except.error.inj stuck)
        · rw [ran] at stuck
          cases stuck
      · rcases outcome with ⟨_, _, ran⟩ | ⟨_, _, ran, leaves⟩
        · rw [ran] at succeeds
          cases succeeds
        · rw [ran] at succeeds
          cases succeeds
          exact leaves
  · rintro rfl
    cases created
    obtain ⟨buffer, none⟩ := empty_after (a := .empty 0) rfl rfl history
    rw [← reached] at buffer none
    refine ⟨none, buffer, ?_⟩
    intro c required demands pos
    constructor
    · intro final
      rw [buffer]
      exact not_doubles_empty pos
    · rcases c.run_demand demands with ⟨_, stuck⟩ | ⟨_, ended, _⟩
      · exact stuck
      · rw [buffer, doubled_zero pos] at ended
        cases ended

/-- Five bytes after two in a buffer of one, and one byte in a buffer of none. -/
theorem growth_ends_five :
    (∃ start a : Arena, create (.infinite true) = .ok start ∧ 1 ≤ start.capacity ∧
      a = start.after [.allocate (.natural 2)] ∧ a.capacity = 2 ∧
      ∃ final, Doubles 5 a.capacity final ∧ 5 ≤ final) ∧
    ∃ start : Arena, create .nan = .ok start ∧ start.capacity = 0 ∧
      (∀ final, ¬ Doubles 1 start.capacity final) ∧
      (Change.allocate (.natural 1)).run start = (.error .stuck, start) := by
  constructor
  · have created : create (.infinite true) = .ok (.empty 1) := rfl
    obtain ⟨some, ends, _⟩ := @growth_ends _ _ _ created [.allocate (.natural 2)] rfl
    obtain ⟨_, final, loop, fits, _⟩ := ends nofun (.allocate (.natural 3)) 5 (by decide +kernel)
    exact ⟨_, _, created, some.2 nofun, rfl, by decide +kernel, final, loop, fits⟩
  · have created : create .nan = .ok (.empty 0) := rfl
    obtain ⟨_, _, _, endless⟩ := @growth_ends _ _ _ created [] rfl
    obtain ⟨_, empty, stuck⟩ := endless rfl
    obtain ⟨never, ran⟩ := stuck (.allocate (.natural 1)) 1 rfl (by decide)
    exact ⟨_, created, empty, never, ran⟩

end Arena

end SpanTree
