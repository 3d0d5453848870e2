import SpanTree.Proofs.Rounding
import SpanTree.Proofs.Storage

/-!
# The places that a span names

A caller may ask for any span, of any two numbers. What is not refused names bytes that are
allocated, or none at all.

* `range_cases`: the places of a span that is not refused, now and after more bytes are added;
* `range_bounds`: they are allocated, or there are none;
* `read_grow`, `text_grow`: a span that was readable reads the same after more bytes are added,
  whatever its two numbers are.
-/

namespace SpanTree

namespace Binary64

theorem isAbove_mono {x : Binary64} {n n' : Nat} (h : x.isAbove n = false) (more : n ≤ n') :
    x.isAbove n' = false := by
  cases x with
  | nan => rfl
  | infinite s => exact h
  | finite s r =>
    have scaled : n * one ≤ n' * one := Nat.mul_le_mul_right one more
    simp only [isAbove, decide_eq_false_iff_not] at h ⊢
    omega

end Binary64

namespace Arena

variable {a a' : Arena} {span : Span} {start stop : Nat}

/-- A bound that is not above a size is cut to a place that is not, either. -/
theorem place_le {x : Binary64} {n : Nat} (capacity : Nat) (h : x.isAbove n = false) :
    place capacity x ≤ n := by
  cases x with
  | nan => exact Nat.zero_le n
  | infinite s =>
    cases s with
    | true => exact Nat.zero_le n
    | false => cases h
  | finite s r =>
    have le : Binary64.signedUnits s r ≤ (n * Binary64.one : Nat) :=
      Int.not_lt.1 (of_decide_eq_false h)
    have pos : (0 : Int) < Binary64.one := Int.ofNat_lt.2 Binary64.one_pos
    have whole : (Binary64.signedUnits s r).tdiv Binary64.one ≤ n := by
      have := Int.tdiv_le_tdiv pos le
      rwa [Int.natCast_mul, Int.mul_tdiv_cancel _ (Int.ne_of_gt pos)] at this
    simp only [place, Binary64.truncate, Option.getD_some]
    omega

/-- A larger buffer moves only those places that lay at the end of the smaller one. -/
theorem place_grow {capacity capacity' : Nat} (more : capacity ≤ capacity') (x : Binary64) :
    place capacity' x = place capacity x ∨
      (place capacity x = capacity ∧ capacity ≤ place capacity' x) := by
  cases x with
  | nan => exact .inl rfl
  | infinite s =>
    cases s with
    | true => exact .inl rfl
    | false => exact .inr ⟨rfl, more⟩
  | finite s r =>
    simp only [place]
    omega

/-- A span that is not refused has natural bounds within the bytes, or it has bounds that are cut
to places in the buffer; so it is not refused after more bytes are added, either. -/
theorem range_cases (h : a.range span = .ok (start, stop)) :
    (∃ offset length, span = ⟨.natural offset, .natural length⟩ ∧ offset + length ≤ a.size ∧
      start = offset ∧ stop = offset + length) ∨
    ∃ first last : Binary64, last.isAbove a.size = false ∧ start = place a.capacity first ∧
      stop = max (place a.capacity first) (place a.capacity last) ∧
      ∀ a' : Arena, a.size ≤ a'.size → a'.range span =
        .ok (place a'.capacity first, max (place a'.capacity first) (place a'.capacity last)) := by
  obtain ⟨offset, length⟩ := span
  unfold range at h
  dsimp only at h
  split at h
  next natural =>
    split at h
    next fits =>
      cases h
      exact .inl ⟨_, _, rfl, fits, rfl, rfl⟩
    next => cases h
  next irregular =>
    split at h
    next => cases h
    next accepted =>
      cases h
      simp only [Bool.or_eq_true, not_or, Bool.not_eq_true] at accepted
      refine .inr ⟨_, _, accepted.2, rfl, rfl, fun a' more => ?_⟩
      have still := Binary64.isAbove_mono accepted.2 more
      unfold range
      dsimp only
      split
      next o l => exact absurd rfl (irregular o l rfl)
      next => simp only [accepted.1, still, Bool.or_self, Bool.false_eq_true, if_false]

/-- The places that a span names are allocated, or there are none. -/
theorem range_bounds (h : a.range span = .ok (start, stop)) :
    start ≤ stop ∧ (stop ≤ a.size ∨ stop = start) := by
  rcases range_cases h with ⟨offset, length, _, fits, rfl, rfl⟩ | ⟨first, last, le, rfl, rfl, _⟩
  · omega
  · have := place_le a.capacity le
    omega

/-- Bytes that are handed out are the same in the buffer and among all that are. -/
theorem slice_bytes (h : a.range span = .ok (start, stop)) :
    a.buffer.slice start (stop - start) = (a.bytes.drop start).take (stop - start) := by
  rw [Content.slice_eq, bytes, List.drop_take, List.take_take]
  obtain ⟨ascending, inside | none⟩ := range_bounds h
  · rw [Nat.min_eq_left (by omega)]
  · rw [none, Nat.sub_self, Nat.zero_min]

theorem read_eq (h : a.range span = .ok (start, stop)) :
    a.read span = .ok ((a.bytes.drop start).take (stop - start)) := by
  simp only [read, h, Except.map, slice_bytes h]

/-- What is written to a span goes to bytes that are handed out. -/
theorem range_room {new : List UInt8} (h : a.range span = .ok (start, stop))
    (room : new.length ≤ stop - start) :
    (Content.ofBytes new).size = 0 ∨ start + (Content.ofBytes new).size ≤ a.size := by
  rw [Content.size_ofBytes]
  have := range_bounds h
  omega

theorem capacity_write (span : Span) (new : List UInt8) (a : Arena) :
    (a.write span new).2.capacity = a.capacity := by
  unfold write
  split
  · rfl
  · next ranges =>
    split
    · next room => exact capacity_overlay (range_room ranges room)
    · rfl

theorem read_inv {data : List UInt8} (h : a.read span = .ok data) :
    ∃ start stop, a.range span = .ok (start, stop) ∧
      data = (a.bytes.drop start).take (stop - start) := by
  cases hr : a.range span with
  | error fault =>
    simp only [read, hr, Except.map, reduceCtorEq] at h
  | ok bounds =>
    obtain ⟨start, stop⟩ := bounds
    rw [read_eq hr] at h
    exact ⟨start, stop, rfl, (Except.ok.inj h).symm⟩

/-- A span that was readable reads the same after more bytes are added. Only a span of no bytes can
name other places than before. -/
theorem read_grow (added : a.bytes <+: a'.bytes) (room : a.capacity ≤ a'.capacity)
    {data : List UInt8} (h : a.read span = .ok data) :
    a'.read span = .ok data := by
  have more := size_le_of_prefix added
  have inside : a.size ≤ a.capacity := a.fits
  obtain ⟨start, stop, hr, rfl⟩ := read_inv h
  rcases range_cases hr with ⟨offset, length, rfl, fits, rfl, rfl⟩ | ⟨first, last, le, rfl, rfl, ha⟩
  · rw [← h]
    exact read_of_prefix added fits
  · rw [read_eq (ha a' more)]
    have low := place_le a.capacity le
    have low' := place_le a'.capacity le
    have hf := place_grow room first
    have hl := place_grow room last
    by_cases empty : place a.capacity last ≤ place a.capacity first
    · have empty' : place a'.capacity last ≤ place a'.capacity first := by omega
      simp only [Nat.max_eq_left empty, Nat.max_eq_left empty', Nat.sub_self, List.take_zero]
    · have same : place a'.capacity first = place a.capacity first := by omega
      have same' : place a'.capacity last = place a.capacity last := by omega
      rw [same, same', slice_of_prefix added (by omega)]

theorem text_grow (added : a.bytes <+: a'.bytes) (room : a.capacity ≤ a'.capacity) {text : Text}
    (h : a.text span = .ok text) :
    a'.text span = .ok text := by
  unfold Arena.text at h ⊢
  split at h
  next empty =>
    rw [if_pos empty]
    exact h
  next full =>
    rw [if_neg full]
    cases hr : a.read span with
    | error fault =>
      simp only [hr, Except.map, reduceCtorEq] at h
    | ok data =>
      rw [read_grow added room hr]
      rwa [hr] at h

end Arena

end SpanTree
