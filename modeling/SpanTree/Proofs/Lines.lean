import Mathlib.Algebra.GroupWithZero.Nat
import SpanTree.Proofs.Numerals
import SpanTree.Proofs.Positions

/-!
# Lines and columns

Every offset into a text has one line and one column, from which it can be told again.

* `Text.clamp`, `Text.lineStart`: the nearest offset within a text, and the one that a line begins
  at;
* `Text.Exact`: a line and a column in terms of the lines of the whole text;
* `Exact.before_iff`, `Exact.eq_iff`: such positions are in the order of their offsets;
* `locate_whole`: a whole number of any size is located where the nearest offset is;
* `locate_exact`: all whole numbers are located exactly.
-/

namespace SpanTree

/-- A position comes before another one: on an earlier line, or earlier on the same line. -/
def Position.Before (p q : Position) : Prop :=
  p.line < q.line ∨ p.line = q.line ∧ p.column < q.column

namespace Text

variable {t : Text} {offset offset' : Nat} {p p' : Position}

/-- The offset within a text that is nearest to a number. -/
def clamp (t : Text) (k : Int) : Nat := (max 0 (min k t.length)).toNat

/-- The number of units before a line, a line feed included for each of the lines before it. -/
def lineStart (t : Text) (line : Nat) : Nat :=
  ((t.splitLines.take (line - 1)).map (·.length + 1)).sum

/-- The position of an offset: its line is one more than the line feeds before it, its column lies
on this line or directly behind it, and what stands before the line and before the column is as long
as the offset says. -/
structure Exact (t : Text) (offset : Nat) (p : Position) : Prop where
  line : p.line = 1 + (t.take offset).count (unit '\n')
  least : 1 ≤ p.column
  most : ∃ own, t.splitLines[p.line - 1]? = some own ∧ p.column ≤ own.length + 1
  start : t.lineStart p.line + (p.column - 1) = offset

/-! ## Whole lines -/

theorem count_lines {lines : List Text} (whole : ∀ line ∈ lines, unit '\n' ∉ line) :
    (lines.flatMap (· ++ [unit '\n'])).count (unit '\n') = lines.length := by
  induction lines with
  | nil => rfl
  | cons line lines ih =>
    have none := List.count_eq_zero.2 (whole line List.mem_cons_self)
    rw [List.flatMap_cons, List.count_append, List.count_append, none,
      ih fun other mem => whole other (List.mem_cons_of_mem _ mem), List.count_singleton_self,
      List.length_cons, Nat.zero_add, Nat.add_comm]

theorem length_lines (lines : List Text) :
    (lines.flatMap (· ++ [unit '\n'])).length = (lines.map (·.length + 1)).sum := by
  rw [List.length_flatMap]
  simp only [List.length_append, List.length_singleton]

/-- A text goes on within the line that it ends on. -/
theorem splitLines_append {last : Text} (unended : unit '\n' ∉ last) (rest : Text) :
    ∃ own more, splitLines (last ++ rest) = own :: more ∧ last.length ≤ own.length := by
  induction last with
  | nil =>
    obtain ⟨lines, last, split, _⟩ := exists_lines rest
    rw [List.nil_append, split]
    cases lines with
    | nil => exact ⟨last, [], rfl, Nat.zero_le _⟩
    | cons line lines => exact ⟨line, lines ++ [last], rfl, Nat.zero_le _⟩
  | cons u last ih =>
    simp only [List.mem_cons, not_or] at unended
    obtain ⟨own, more, split, longer⟩ := ih unended.2
    refine ⟨u :: own, more, ?_, Nat.succ_le_succ longer⟩
    rw [List.cons_append, splitLines, if_neg (Ne.symm unended.1), split]

/-! ## Exact positions -/

/-- The position of an offset is found on the lines of the whole text. -/
theorem IsAt.exact (inside : offset ≤ t.length) (h : t.IsAt offset p) : t.Exact offset p := by
  obtain ⟨lines, last, whole, unended, joined, rfl⟩ := h
  obtain ⟨own, more, continued, longer⟩ := splitLines_append unended (t.drop offset)
  have split : t.splitLines = lines ++ own :: more := by
    rw [← continued, ← splitLines_lines whole, ← List.append_assoc, ← joined,
      List.take_append_drop]
  have length := congrArg List.length joined
  rw [List.length_take_of_le inside, List.length_append, length_lines] at length
  refine ⟨?_, Nat.le_add_left 1 _, ⟨own, ?_, Nat.succ_le_succ longer⟩, ?_⟩
  · rw [joined, List.count_append, count_lines whole, List.count_eq_zero.2 unended]
    exact Nat.add_comm _ _
  · rw [split, Nat.add_sub_cancel, List.getElem?_append_right (Nat.le_refl _), Nat.sub_self]
    rfl
  · rw [lineStart, split, Nat.add_sub_cancel, Nat.add_sub_cancel, List.take_left, ← length]

/-- Greater offsets are on the same line or on later ones. -/
theorem Exact.line_le (h : t.Exact offset p) (h' : t.Exact offset' p') (le : offset ≤ offset') :
    p.line ≤ p'.line := by
  rw [h.line, h'.line]
  exact Nat.add_le_add_left ((List.take_sublist_take_left le).count_le _) 1

theorem Exact.before (h : t.Exact offset p) (h' : t.Exact offset' p') (less : offset < offset') :
    p.Before p' := by
  rcases Nat.lt_or_eq_of_le (h.line_le h' (Nat.le_of_lt less)) with earlier | same
  · exact .inl earlier
  · have start := h.start
    have start' := h'.start
    have least := h.least
    rw [same] at start
    exact .inr ⟨same, by omega⟩

/-- One position belongs to one offset. -/
theorem Exact.eq_iff (h : t.Exact offset p) (h' : t.Exact offset' p') :
    p = p' ↔ offset = offset' := by
  constructor
  · rintro rfl
    exact h.start.symm.trans h'.start
  · rintro rfl
    have line := h.line.trans h'.line.symm
    have start := h.start
    have start' := h'.start
    have least := h.least
    have least' := h'.least
    cases p with | mk line₁ column₁ =>
    cases p' with | mk line₂ column₂ =>
    dsimp only at *
    subst line
    rw [Position.mk.injEq]
    exact ⟨rfl, by omega⟩

/-- Positions are in the order of their offsets. -/
theorem Exact.before_iff (h : t.Exact offset p) (h' : t.Exact offset' p') :
    p.Before p' ↔ offset < offset' := by
  refine ⟨fun before => ?_, h.before h'⟩
  rcases Nat.lt_trichotomy offset offset' with less | same | greater
  · exact less
  · rw [(h.eq_iff h').2 same] at before
    unfold Position.Before at before
    omega
  · have after := h'.before h greater
    unfold Position.Before at before after
    omega

/-! ## Whole numbers -/

/-- A whole number of any size is located where the nearest offset is. -/
theorem locate_whole (short : t.length < 2 ^ 53) {x : Binary64} {k : Int}
    (whole : x.toInt? = some k) :
    t.locate (.ofBinary64 x) = t.locate (.natural (t.clamp k)) := by
  have zero := @Binary64.toInt?_ofNat 0 (by decide)
  rw [Binary64.ofNat_zero] at zero
  have below := Binary64.lt_whole whole zero
  have above := Binary64.lt_whole (Binary64.toInt?_ofNat short) whole
  rw [Quantity.ofBinary64_whole whole]
  by_cases exact : 0 ≤ k ∧ k < (2 ^ 53 : Nat)
  · have inside : min (t.clamp k) t.length = min k.toNat t.length := by
      unfold clamp
      omega
    rw [if_pos exact, locate, locate, inside]
  · cases x with
    | nan | infinite => cases whole
    | finite s r =>
      rw [if_neg exact, locate, locate, below, above]
      dsimp only
      by_cases negative : k < 0
      · have low : t.clamp k = 0 := by
          unfold clamp
          omega
        rw [if_pos (decide_eq_true (by omega)), low, Nat.zero_min]
      · have high : t.clamp k = t.length := by
          unfold clamp
          omega
        rw [if_neg (by rw [decide_eq_true_eq]; omega), if_pos (decide_eq_true (by omega)), high,
          Nat.min_self]
      nofun

/-- **Whole numbers are located exactly.** In a text that is no longer than doubles can count, a
whole number of either sign and of any size is located at the offset that is nearest to it: the line
is one more than the line feeds before this offset, the column is at least one and at most one more
than the length of that line, and the offset is told by both of them. So the positions of whole
numbers are in the order of their offsets, and those of different offsets differ. -/
theorem locate_exact (short : t.length < 2 ^ 53) {x : Binary64} {k : Int}
    (whole : x.toInt? = some k) :
    ∃ p : Position, t.locate (.ofBinary64 x) = ⟨p.line, .natural p.column⟩ ∧
      t.Exact (t.clamp k) p ∧
      ∀ (y : Binary64) (j : Int) (q : Position), y.toInt? = some j →
        t.locate (.ofBinary64 y) = ⟨q.line, .natural q.column⟩ →
        (p.Before q ↔ t.clamp k < t.clamp j) ∧ (p = q ↔ t.clamp k = t.clamp j) := by
  have located {x : Binary64} {k : Int} (whole : x.toInt? = some k) :
      ∃ p : Position, t.locate (.ofBinary64 x) = ⟨p.line, .natural p.column⟩ ∧
        t.Exact (t.clamp k) p := by
    have inside : t.clamp k ≤ t.length := by
      unfold clamp
      omega
    obtain ⟨p, place, found⟩ := isAt_locate t (t.clamp k)
    rw [Nat.min_eq_left inside] at place
    exact ⟨p, (locate_whole short whole).trans found, place.exact inside⟩
  obtain ⟨p, found, exact⟩ := located whole
  refine ⟨p, found, exact, ?_⟩
  intro y j q whole' found'
  obtain ⟨p', same, exact'⟩ := located whole'
  obtain rfl : p' = q := by
    obtain ⟨line, column⟩ := Located.mk.inj (same.symm.trans found')
    cases p' with | mk _ _ =>
    cases q with | mk _ _ =>
    rw [Position.mk.injEq]
    exact ⟨line, Quantity.natural.inj column⟩
  exact ⟨exact.before_iff exact', exact.eq_iff exact'⟩

/-- The end of a text that ends with a line feed is on a line of its own. -/
theorem locate_exact_end : (lit "a\n").length < 2 ^ 53 ∧
    (Binary64.ofNat 2).toInt? = some ((2 : Nat) : Int) ∧
    (lit "a\n").locate (.ofBinary64 (.ofNat 2)) = ⟨2, .natural 1⟩ := by
  have short : (lit "a\n").length < 2 ^ 53 := by decide
  have whole := @Binary64.toInt?_ofNat 2 (by decide)
  obtain ⟨p, found, exact, _⟩ := locate_exact short whole
  have line : p.line = 2 := exact.line
  have column : p.column = 1 := by
    have start := exact.start
    have before : (lit "a\n").lineStart 2 = 2 := rfl
    have inside : (lit "a\n").clamp (2 : Nat) = 2 := rfl
    have least := exact.least
    rw [line, before, inside] at start
    omega
  rw [line, column] at found
  exact ⟨short, whole, found⟩

end Text

end SpanTree
