import Mathlib.Algebra.Group.Nat.Defs
import SpanTree.Proofs.Depiction
import SpanTree.Proofs.Ranges

/-!
# Histories of an arena

An arena hands out span after span and grows its buffer by doubling. Callers write where they like
among the bytes that it has handed out.

* `Arena.Change`: a change of an arena, and `Change.Writes` the places that it writes to;
* `Change.Outcome`, `Change.outcome`: the three things that a change can do;
* `Arena.Ledger`: the spans handed out tile the bytes, and the buffer is the least doubling of the
  first one that holds them; every change keeps it (`Ledger.step`), and so does every history;
* `read_spared`: a span reads the same until a place of it is written to;
* `after_create`: so an arena keeps its books, whatever is done to it.
-/

namespace SpanTree

/-- A place is among those of a span of natural numbers. -/
def Span.Covers : Span → Nat → Prop
  | ⟨.natural offset, .natural length⟩, place => offset ≤ place ∧ place < offset + length
  | _, _ => False

/-- Spans lie one behind the other, from a place to another, without a gap. -/
def Span.Tile : Nat → List Span → Nat → Prop
  | start, [], stop => start = stop
  | start, span :: rest, stop =>
    ∃ length, span = ⟨.natural start, .natural length⟩ ∧ Tile (start + length) rest stop

namespace Arena

inductive Change where
  | allocate (size : Quantity)
  | copy (text : Text)
  | write (span : Span) (new : List UInt8)

namespace Change

/-- What a change does to an arena, with the span that it hands out if it does. -/
def run : Change → Arena → Except ArenaFault (Option Span) × Arena
  | allocate size, a => ((a.allocate size).1.map some, (a.allocate size).2)
  | copy text, a => ((a.copy text).1.map some, (a.copy text).2)
  | write span new, a => ((a.write span new).1.map fun _ => none, (a.write span new).2)

/-- The bytes that a change adds, if it succeeds. -/
def added : Change → List UInt8
  | allocate (.natural n) => List.replicate n 0
  | copy text => Utf8.encode text
  | _ => []

/-- A change writes to a place: a copy to what it adds, and a write to the beginning of its span if
there is room. -/
def Writes (a : Arena) (place : Nat) : Change → Prop
  | allocate _ => False
  | copy text => a.size ≤ place ∧ place < a.size + (Utf8.encode text).length
  | write span new => ∃ start stop, a.range span = .ok (start, stop) ∧
      new.length ≤ stop - start ∧ start ≤ place ∧ place < start + new.length

end Change

/-- The arena after some changes, whether or not each succeeds. -/
def after (a : Arena) : List Change → Arena
  | [] => a
  | c :: rest => after (c.run a).2 rest

def answered : Except ArenaFault (Option Span) → List Span
  | .ok (some span) => [span]
  | _ => []

/-- The spans that some changes hand out, in order. -/
def handed (a : Arena) : List Change → List Span
  | [] => []
  | c :: rest => answered (c.run a).1 ++ handed (c.run a).2 rest

/-- None of some changes writes to a place of a span. -/
def Spares (span : Span) (a : Arena) : List Change → Prop
  | [] => True
  | c :: rest => (∀ place, span.Covers place → ¬ c.Writes a place) ∧ Spares span (c.run a).2 rest

/-- A buffer is the least of `start`, twice that, four times that and so on which holds `size`
bytes. -/
def LeastDoubling (start size capacity : Nat) : Prop :=
  size ≤ capacity ∧ ∃ k, capacity = start * 2 ^ k ∧ ∀ j, size ≤ start * 2 ^ j → k ≤ j

/-- The state of an arena that began with a buffer of `start` bytes and has handed out some
spans. -/
structure Ledger (start : Nat) (spans : List Span) (a : Arena) : Prop where
  tile : Span.Tile 0 spans a.size
  least : LeastDoubling start a.size a.capacity
  blank : a.Blank

end Arena

namespace Span

theorem Tile.le {start stop : Nat} {spans : List Span} (h : Tile start spans stop) :
    start ≤ stop := by
  induction spans generalizing start with
  | nil => exact Nat.le_of_eq h
  | cons span rest ih =>
    obtain ⟨length, _, h⟩ := h
    exact Nat.le_trans (Nat.le_add_right _ _) (ih h)

theorem Tile.snoc {start stop length : Nat} {spans : List Span} (h : Tile start spans stop) :
    Tile start (spans ++ [⟨.natural stop, .natural length⟩]) (stop + length) := by
  induction spans generalizing start with
  | nil =>
    obtain rfl : start = stop := h
    exact ⟨length, rfl, rfl⟩
  | cons span rest ih =>
    obtain ⟨first, rfl, h⟩ := h
    exact ⟨first, rfl, ih h⟩

/-- Tiles lie between the two ends. -/
theorem Tile.bounds {start stop : Nat} {spans : List Span} (h : Tile start spans stop) {span : Span}
    (mem : span ∈ spans) : ∃ offset length, span = ⟨.natural offset, .natural length⟩ ∧
      start ≤ offset ∧ offset + length ≤ stop := by
  induction spans generalizing start with
  | nil => cases mem
  | cons first rest ih =>
    obtain ⟨length, rfl, h⟩ := h
    rcases List.mem_cons.1 mem with rfl | mem
    · exact ⟨start, length, rfl, Nat.le_refl _, h.le⟩
    · obtain ⟨offset, more, same, above, below⟩ := ih h mem
      exact ⟨offset, more, same, by omega, below⟩

/-- No place is among those of two tiles. -/
theorem Tile.apart {start stop : Nat} {spans : List Span} (h : Tile start spans stop) :
    spans.Pairwise fun s s' => ∀ place, s.Covers place → ¬ s'.Covers place := by
  induction spans generalizing start with
  | nil => exact .nil
  | cons first rest ih =>
    obtain ⟨length, rfl, h⟩ := h
    refine .cons ?_ (ih h)
    intro other mem place inside inside'
    obtain ⟨offset, more, rfl, above, _⟩ := h.bounds mem
    simp only [Covers] at inside inside'
    omega

end Span

namespace Arena

variable {a : Arena} {span : Span}

/-! ## Doubling -/

theorem doubled_least {capacity required c : Nat} (h : doubled capacity required = some c) :
    required ≤ c ∧ ∃ k, c = capacity * 2 ^ k ∧ ∀ j, required ≤ capacity * 2 ^ j → k ≤ j := by
  fun_induction doubled capacity required with
  | case1 capacity fits =>
    cases h
    exact ⟨fits, 0, by simp, fun _ _ => Nat.zero_le _⟩
  | case2 => cases h
  | case3 capacity small _ ih =>
    obtain ⟨fits, k, rfl, least⟩ := ih h
    refine ⟨fits, k + 1, by rw [pow_succ']; ac_rfl, ?_⟩
    intro j enough
    cases j with
    | zero => exact absurd (by simpa using enough) small
    | succ j =>
      have enough : required ≤ 2 * capacity * 2 ^ j := by
        rw [pow_succ'] at enough
        rwa [Nat.mul_comm 2, Nat.mul_assoc]
      exact Nat.succ_le_succ (least j enough)

/-- A buffer that was a least doubling is one again after it is doubled for more bytes. -/
theorem LeastDoubling.doubled {start size capacity required c : Nat}
    (h : LeastDoubling start size capacity) (more : size ≤ required)
    (grown : doubled capacity required = some c) : LeastDoubling start required c := by
  obtain ⟨_, k, rfl, least⟩ := h
  obtain ⟨fits, i, rfl, least'⟩ := doubled_least grown
  refine ⟨fits, k + i, by rw [pow_add, Nat.mul_assoc], ?_⟩
  intro j enough
  have below : k ≤ j := least j (Nat.le_trans more enough)
  obtain ⟨d, rfl⟩ := Nat.exists_eq_add_of_le below
  rw [pow_add, ← Nat.mul_assoc] at enough
  have := least' d enough
  omega

/-! ## What a change does -/

/-- A change does nothing; or it adds bytes at the end, in a buffer doubled as often as it takes;
or it puts bytes in place of as many that its span names. -/
inductive Change.Outcome (a : Arena) : Change → Except ArenaFault (Option Span) × Arena → Prop
  | refused (c : Change) (fault : ArenaFault) : Outcome a c (.error fault, a)
  | added {c : Change} {new : List UInt8} {a' : Arena} (bytes : a'.bytes = a.bytes ++ new)
      (count : new.length = c.added.length) (content : a.Blank → new = c.added)
      (capacity : doubled a.capacity a'.size = some a'.capacity) :
      Outcome a c (.ok (some ⟨.natural a.size, .natural c.added.length⟩), a')
  | written {span : Span} {new : List UInt8} {start stop : Nat} {a' : Arena}
      (range : a.range span = .ok (start, stop)) (room : new.length ≤ stop - start)
      (bytes : a'.bytes = a.bytes.take start ++ new ++ a.bytes.drop (start + new.length))
      (capacity : a'.capacity = a.capacity) : Outcome a (.write span new) (.ok none, a')

theorem Change.outcome_allocate (size : Quantity) (a : Arena) :
    Outcome a (.allocate size) ((allocate size).run a) ∧
      (a.Blank → ((allocate size).run a).2.Blank) := by
  rw [run]
  cases size with
  | irregular x => exact ⟨.refused _ _, id⟩
  | natural n =>
    have zeros : (Change.allocate (.natural n)).added.length = n := List.length_replicate
    rw [Arena.allocate]
    dsimp only
    split
    · exact ⟨.refused _ _, id⟩
    · rcases extend_cases n a with ⟨_, stuck⟩ | ⟨_, c, ran, _⟩
      · rw [stuck]
        exact ⟨.refused _ _, id⟩
      · obtain ⟨_, size, grown, new, bytes, clean⟩ := bytes_extend ran
        have count : a.size + new.length = a.size + n := by
          rw [← size, ← bytes_length c, bytes, List.length_append, bytes_length]
        have outcome := Outcome.added (c := .allocate (.natural n)) bytes (by omega)
          (fun blank => (clean blank).1) (by rw [size, grown])
        rw [zeros] at outcome
        rw [ran]
        exact ⟨outcome, fun blank => (clean blank).2⟩

theorem Change.outcome_copy (text : Text) (a : Arena) :
    Outcome a (.copy text) ((copy text).run a) ∧ (a.Blank → ((copy text).run a).2.Blank) := by
  rw [run]
  rcases copy_result text a with ⟨_, stuck⟩ | ⟨a', copied, bytes, grown, clean⟩
  · rw [stuck]
    exact ⟨.refused _ _, id⟩
  · have size : a'.size = a.size + (Utf8.encode text).length := by
      rw [← bytes_length, bytes, List.length_append, bytes_length]
    rw [copied]
    exact ⟨.added (c := .copy text) bytes rfl (fun _ => rfl) (by rw [size, grown]), clean⟩

theorem Change.outcome_write (span : Span) (new : List UInt8) (a : Arena) :
    Outcome a (.write span new) ((write span new).run a) ∧
      (a.Blank → ((write span new).run a).2.Blank) := by
  rw [run, Arena.write]
  cases range : a.range span with
  | error fault => exact ⟨.refused _ fault, id⟩
  | ok bounds =>
    obtain ⟨start, stop⟩ := bounds
    dsimp only
    split
    next room =>
      have inside := range_room range room
      refine ⟨.written range room ?_ (capacity_overlay inside), fun blank => blank.overlay inside⟩
      rw [bytes_overlay inside, Content.toList_ofBytes, Content.size_ofBytes]
    next => exact ⟨.refused _ _, id⟩

theorem Change.outcome (c : Change) (a : Arena) : Outcome a c (c.run a) := by
  cases c with
  | allocate size => exact (outcome_allocate size a).1
  | copy text => exact (outcome_copy text a).1
  | write span new => exact (outcome_write span new a).1

/-- Behind the bytes handed out, no change writes anything. -/
theorem Change.blank (c : Change) (blank : a.Blank) : (c.run a).2.Blank := by
  cases c with
  | allocate size => exact (outcome_allocate size a).2 blank
  | copy text => exact (outcome_copy text a).2 blank
  | write span new => exact (outcome_write span new a).2 blank

variable {c : Change} {place : Nat}

theorem Change.run_error {fault : ArenaFault} {a' : Arena} (h : c.run a = (.error fault, a')) :
    a' = a := by
  have outcome := c.outcome a
  rw [h] at outcome
  cases outcome
  rfl

theorem length_replaced {old new : List UInt8} {start : Nat}
    (room : new.length = 0 ∨ start + new.length ≤ old.length) :
    (old.take start ++ new ++ old.drop (start + new.length)).length = old.length := by
  rcases room with none | room
  · rw [List.length_eq_zero_iff.1 none]
    simp
  · simp only [List.length_append, List.length_take, List.length_drop]
    omega

theorem size_written {a' : Arena} {start stop : Nat} {new : List UInt8}
    (range : a.range span = .ok (start, stop)) (room : new.length ≤ stop - start)
    (bytes : a'.bytes = a.bytes.take start ++ new ++ a.bytes.drop (start + new.length)) :
    a'.size = a.size := by
  rw [← bytes_length, ← bytes_length, bytes, length_replaced]
  rw [bytes_length, ← Content.size_ofBytes]
  exact range_room range room

/-- Bytes that are put in place of as many others change nothing before and behind them. -/
theorem getElem?_replaced {old new : List UInt8} {start : Nat}
    (room : new.length = 0 ∨ start + new.length ≤ old.length)
    (apart : place < start ∨ start + new.length ≤ place) :
    (old.take start ++ new ++ old.drop (start + new.length))[place]? = old[place]? := by
  rcases room with none | room
  · rw [List.length_eq_zero_iff.1 none]
    simp
  · rcases apart with before | behind
    · rw [List.append_assoc, List.getElem?_append_left (by rw [List.length_take]; omega),
        List.getElem?_take_of_lt before]
    · rw [List.getElem?_append_right (by simp; omega), List.getElem?_drop]
      congr 1
      simp
      omega

theorem Change.size_le (c : Change) (a : Arena) : a.size ≤ (c.run a).2.size := by
  have outcome := c.outcome a
  generalize c.run a = r at outcome
  cases outcome with
  | refused => exact Nat.le_refl _
  | added bytes => exact size_le_of_prefix ⟨_, bytes.symm⟩
  | written range room bytes => exact Nat.le_of_eq (size_written range room bytes).symm

theorem Change.capacity_le (c : Change) (a : Arena) : a.capacity ≤ (c.run a).2.capacity := by
  cases c with
  | allocate size => exact capacity_le_allocate size a
  | copy text => exact capacity_le_copy text a
  | write span new => exact Nat.le_of_eq (capacity_write span new a).symm

/-- A change leaves all bytes as they were but those at the places that it writes to. -/
theorem Change.untouched (below : place < a.size) (spared : ¬ c.Writes a place) :
    (c.run a).2.bytes[place]? = a.bytes[place]? := by
  have outcome := c.outcome a
  generalize c.run a = r at outcome
  cases outcome with
  | refused => rfl
  | added bytes => rw [bytes, List.getElem?_append_left (by rwa [bytes_length])]
  | @written span new start stop _ range room bytes =>
    rw [bytes]
    apply getElem?_replaced
    · rw [bytes_length, ← Content.size_ofBytes]
      exact range_room range room
    · by_cases inside : start ≤ place ∧ place < start + new.length
      · exact absurd ⟨start, stop, range, room, inside⟩ spared
      · omega

/-- What a change adds without writing to it is zeros. -/
theorem Change.added_zero (blank : a.Blank) (old : a.size ≤ place)
    (fresh : place < (c.run a).2.size) (spared : ¬ c.Writes a place) :
    (c.run a).2.bytes[place]? = some 0 := by
  have outcome := c.outcome a
  generalize c.run a = r at outcome fresh
  cases outcome with
  | refused => exact absurd fresh (Nat.not_lt.2 old)
  | written range room bytes =>
    rw [size_written range room bytes] at fresh
    omega
  | added bytes _ content =>
    obtain rfl := content blank
    rw [← bytes_length, bytes, List.length_append, bytes_length] at fresh
    rw [bytes, List.getElem?_append_right (by rwa [bytes_length]), bytes_length]
    cases c with
    | allocate size =>
      cases size with
      | natural n =>
        rw [added, List.length_replicate] at fresh
        rw [added, List.getElem?_replicate_of_lt (by omega)]
      | irregular x => exact absurd fresh (Nat.not_lt.2 old)
    | copy text => exact absurd ⟨old, fresh⟩ spared
    | write span new => exact absurd fresh (Nat.not_lt.2 old)

/-- No change writes behind the bytes that are handed out by then. -/
theorem Change.writes_lt (buffer : 0 < a.capacity) (h : c.Writes a place) :
    place < (c.run a).2.size := by
  cases c with
  | allocate size => exact h.elim
  | copy text =>
    obtain ⟨_, below⟩ := h
    obtain ⟨a', hc, bytes, _⟩ := copy_eq text buffer
    simp only [run, hc]
    rwa [← bytes_length, bytes, List.length_append, bytes_length]
  | write span new =>
    obtain ⟨start, stop, range, room, low, high⟩ := h
    refine Nat.lt_of_lt_of_le ?_ (size_le _ a)
    have inside := range_room range room
    rw [Content.size_ofBytes] at inside
    omega

/-- The buffer of a blank arena, byte by byte. -/
theorem Blank.getElem? (blank : a.Blank) (inside : place < a.capacity) :
    a.buffer.toList[place]? = if place < a.size then a.bytes[place]? else some 0 := by
  split
  · next low => rw [bytes, List.getElem?_take_of_lt low]
  · next high =>
    have within : place < a.buffer.toList.length := by rwa [Content.length_toList]
    obtain ⟨behind, same⟩ := Nat.exists_eq_add_of_le (Nat.le_of_not_lt high)
    have zero : a.buffer.toList[place] ∈ a.buffer.toList.drop a.size := by
      rw [List.mem_iff_getElem?]
      exact ⟨behind, by rw [List.getElem?_drop, ← same, List.getElem?_eq_getElem within]⟩
    rw [List.getElem?_eq_getElem within, blank _ zero]

/-- A change leaves every byte of the buffer but those that it writes to, in a larger buffer, too.
-/
theorem Change.buffer_untouched (blank : a.Blank) (inside : place < a.capacity)
    (spared : ¬ c.Writes a place) :
    (c.run a).2.buffer.toList[place]? = a.buffer.toList[place]? := by
  have room := Nat.lt_of_lt_of_le inside (c.capacity_le a)
  rw [(c.blank blank).getElem? room, blank.getElem? inside]
  by_cases old : place < a.size
  · rw [if_pos old, if_pos (Nat.lt_of_lt_of_le old (c.size_le a)), untouched old spared]
  · rw [if_neg old]
    split
    · next fresh => exact added_zero blank (Nat.le_of_not_lt old) fresh spared
    · rfl

/-! ## Histories -/

theorem Ledger.empty {start : Nat} : Ledger start [] (.empty start) := by
  refine ⟨rfl, ?_, ?_⟩
  · rw [capacity_empty]
    exact ⟨Nat.zero_le _, 0, by simp, fun _ _ => Nat.zero_le _⟩
  · exact blank_empty start

theorem Ledger.step {start : Nat} {spans : List Span} (h : Ledger start spans a) (c : Change) :
    Ledger start (spans ++ answered (c.run a).1) (c.run a).2 := by
  have outcome := c.outcome a
  have blank := c.blank h.blank
  generalize c.run a = r at outcome blank
  cases outcome with
  | refused => simpa [answered] using h
  | @added _ _ a' bytes count _ capacity =>
    have size : a'.size = a.size + c.added.length := by
      rw [← bytes_length, bytes, List.length_append, bytes_length, count]
    have more : a.size ≤ a'.size := by omega
    refine ⟨?_, h.least.doubled more capacity, blank⟩
    change Span.Tile 0 _ a'.size
    rw [size]
    exact h.tile.snoc
  | written range room bytes capacity =>
    have size := size_written range room bytes
    refine ⟨?_, ?_, blank⟩
    · simpa [answered, size] using h.tile
    · simpa [size, capacity] using h.least

theorem Ledger.after {start : Nat} {spans : List Span} (h : Ledger start spans a)
    (history : List Change) :
    Ledger start (spans ++ handed a history) (a.after history) := by
  induction history generalizing a spans with
  | nil => simpa [handed, after] using h
  | cons c rest ih =>
    rw [handed, ← List.append_assoc]
    exact ih (h.step c)

/-- A span that is within the bytes reads the same where its places hold the same bytes. -/
theorem read_congr {a' : Arena} (held : a.Holds span) (more : a.size ≤ a'.size)
    (same : ∀ place, span.Covers place → a'.bytes[place]? = a.bytes[place]?) :
    a'.read span = a.read span := by
  obtain ⟨offset, length, rfl, fits⟩ := held
  rw [read_natural, read_natural, if_pos fits, if_pos (by omega)]
  congr 1
  apply List.ext_getElem?
  intro i
  simp only [List.getElem?_take, List.getElem?_drop]
  split
  · next low => exact same _ ⟨Nat.le_add_right _ _, Nat.add_lt_add_left low _⟩
  · rfl

theorem Holds.covers_lt (held : a.Holds span) (covers : span.Covers place) : place < a.size := by
  obtain ⟨offset, length, rfl, fits⟩ := held
  exact Nat.lt_of_lt_of_le covers.2 fits

/-- A span reads the same until one of its places is written to. -/
theorem read_spared (held : a.Holds span) {history : List Change} (spares : Spares span a history) :
    (a.after history).read span = a.read span := by
  induction history generalizing a with
  | nil => rfl
  | cons c rest ih =>
    obtain ⟨now, later⟩ := spares
    rw [after, ih (held.mono (c.size_le a)) later]
    apply read_congr held (c.size_le a)
    intro place covers
    exact Change.untouched (held.covers_lt covers) (now place covers)

theorem Ledger.holds {start : Nat} {spans : List Span} (h : Ledger start spans a)
    (mem : span ∈ spans) : a.Holds span := by
  obtain ⟨offset, length, same, _, fits⟩ := h.tile.bounds mem
  exact ⟨offset, length, same, fits⟩

/-- A span that was just handed out reads what was added for it. -/
theorem read_added (blank : a.Blank) {a' : Arena} (h : c.run a = (.ok (some span), a')) :
    a'.read span = .ok c.added := by
  have outcome := c.outcome a
  rw [h] at outcome
  cases outcome with
  | added bytes _ content =>
    obtain rfl := content blank
    have size : a'.size = a.size + c.added.length := by
      rw [← bytes_length, bytes, List.length_append, bytes_length]
    rw [read_natural, if_pos (Nat.le_of_eq size.symm), bytes, ← bytes_length, List.drop_left,
      List.take_length]

theorem Quantity.ofBinary64_irregular {x : Binary64} (h : ∀ n : Nat, x.toInt? ≠ some n) :
    Quantity.ofBinary64 x = .irregular x := by
  unfold Quantity.ofBinary64
  cases hx : x.toInt? with
  | none => rfl
  | some k =>
    cases k with
    | ofNat n => exact absurd hx (h n)
    | negSucc n => rfl

/-- What is no natural number is refused as a size. -/
theorem allocate_invalid {x : Binary64} (h : ∀ n : Nat, x.toInt? ≠ some n) (a : Arena) :
    a.allocate (.ofBinary64 x) = (.error (.invalidSize (.ofBinary64 x)), a) := by
  rw [Quantity.ofBinary64_irregular h, allocate, refusal, Quantity.ofBinary64_irregular h]
  cases hx : x.toInt? with
  | none => rfl
  | some k =>
    cases k with
    | ofNat n => exact absurd hx (h n)
    | negSucc n => rfl

/-- **The ledger of an arena.** Whatever is done to a new arena, with success or without, the spans
that it has handed out lie one behind the other from its first byte to its last and have no place in
common, and its buffer is the least doubling of the first one that holds them. Each of these spans
reads the same from then on until one of its places is written to: zeros if it was allocated, and
the text that was copied. A change writes to nothing behind the bytes handed out, where the buffer
holds zeros, and alters no byte of the buffer that it does not write to, not when it moves to a
larger buffer either; if it fails, it alters nothing, and it does fail for a size that is no natural
number. -/
theorem after_create {x : Binary64} (number : x ≠ .nan) {start : Arena}
    (created : create x = .ok start) (history : List Change) {spans : List Span}
    (given : spans = start.handed history) {b : Arena} (reached : b = start.after history) :
    Span.Tile 0 spans b.size ∧
      (spans.Pairwise fun s s' => ∀ place, s.Covers place → ¬ s'.Covers place) ∧
      (∀ s ∈ spans, ∀ place, s.Covers place → place < b.size) ∧
      LeastDoubling (max 1 (x.floor.getD 1).toNat) b.size b.capacity ∧
      (∀ s ∈ spans, ∀ later, Spares s b later → (b.after later).read s = b.read s) ∧
      (∀ n s b', b.allocate (.natural n) = (.ok s, b') → ∀ later, Spares s b' later →
        (b'.after later).read s = .ok (List.replicate n 0)) ∧
      (∀ text s b', b.copy text = (.ok s, b') → ∀ later, Spares s b' later →
        (b'.after later).read s = .ok (Utf8.encode text)) ∧
      (∀ (c : Change) place, c.Writes b place → place < (c.run b).2.size) ∧
      (∀ place, b.size ≤ place → place < b.capacity → b.buffer.toList[place]? = some 0) ∧
      (∀ (c : Change) place, place < b.capacity → ¬ c.Writes b place →
        (c.run b).2.buffer.toList[place]? = b.buffer.toList[place]?) ∧
      (∀ (c : Change) fault b', c.run b = (.error fault, b') → b' = b) ∧
      ∀ y : Binary64, (∀ n : Nat, y.toInt? ≠ some n) →
        b.allocate (.ofBinary64 y) = (.error (.invalidSize (.ofBinary64 y)), b) := by
  have new := create_eq number created
  have ledger : Ledger (max 1 (x.floor.getD 1).toNat) spans b := by
    rw [given, reached, ← List.nil_append (start.handed history)]
    apply Ledger.after
    rw [new]
    exact .empty
  have buffer : 0 < b.capacity := by
    obtain ⟨_, k, same, _⟩ := ledger.least
    rw [same]
    exact Nat.mul_pos (by omega) (Nat.two_pow_pos k)
  refine ⟨ledger.tile, ledger.tile.apart, ?_, ledger.least, ?_, ?_, ?_, ?_, ?_, ?_, ?_, ?_⟩
  · intro s mem place covers
    exact (ledger.holds mem).covers_lt covers
  · intro s mem later spares
    exact read_spared (ledger.holds mem) spares
  · intro n s b' allocated later spares
    have ran : (Change.allocate (.natural n)).run b = (.ok (some s), b') := by
      rw [Change.run, allocated]
      rfl
    rw [read_spared (holds_allocate allocated) spares, read_added ledger.blank ran]
    rfl
  · intro text s b' copied later spares
    have ran : (Change.copy text).run b = (.ok (some s), b') := by
      rw [Change.run, copied]
      rfl
    rw [read_spared (holds_copy copied) spares, read_added ledger.blank ran]
    rfl
  · intro c place writes
    exact Change.writes_lt buffer writes
  · intro place behind inside
    rw [ledger.blank.getElem? inside, if_neg (Nat.not_lt.2 behind)]
  · intro c place inside spared
    exact Change.buffer_untouched ledger.blank inside spared
  · intro c fault b' failed
    exact Change.run_error failed
  · intro y invalid
    exact allocate_invalid invalid b

/-- Two zeros, one of them written to, and a text of three bytes make a buffer of three bytes one of
six. -/
theorem after_create_three : ∃ b : Arena,
    b = after (.empty 3) [.allocate (.natural 2), .write ⟨.natural 1, .natural 1⟩ [7],
      .copy (lit "abc")] ∧ b.bytes = [0, 7, 97, 98, 99] ∧ b.capacity = 6 ∧
    Span.Tile 0 [⟨.natural 0, .natural 2⟩, ⟨.natural 2, .natural 3⟩] b.size ∧
    LeastDoubling 3 b.size b.capacity ∧
    (∀ later, Spares ⟨.natural 2, .natural 3⟩ b later →
      (b.after later).read ⟨.natural 2, .natural 3⟩ = b.read ⟨.natural 2, .natural 3⟩) ∧
    b.allocate (.ofBinary64 .nan) = (.error (.invalidSize (.ofBinary64 .nan)), b) := by
  have number : Binary64.ofNat 3 ≠ .nan := by decide +kernel
  have capacity : startCapacity (.ofNat 3) = .ok 3 := by decide +kernel
  have created : create (.ofNat 3) = .ok (.empty 3) := by
    rw [create, capacity]
    rfl
  have first : max 1 ((Binary64.ofNat 3).floor.getD 1).toNat = 3 := by decide +kernel
  have given : [⟨.natural 0, .natural 2⟩, ⟨.natural 2, .natural 3⟩] =
      handed (.empty 3) [.allocate (.natural 2), .write ⟨.natural 1, .natural 1⟩ [7],
        .copy (lit "abc")] := by decide +kernel
  obtain ⟨tile, _, _, least, lasting, _, _, _, _, _, _, invalid⟩ :=
    after_create number created _ given rfl
  rw [first] at least
  refine ⟨_, rfl, by decide +kernel, by decide +kernel, tile, least, ?_, invalid .nan ?_⟩
  · exact lasting _ (List.mem_cons_of_mem _ List.mem_cons_self)
  · intro n h
    cases h

end Arena

end SpanTree
