import SpanTree.Arena
import SpanTree.Slot

/-!
# Bytes stay where they are

What an arena does to the bytes that it already holds:

* `doubled_eq_some`: doubling a buffer that is not empty always makes room;
* `create_eq`: a new arena has such a buffer, unless it was made for a NaN of bytes;
* `copy_cases`, `copy_eq`: in such an arena a copy adds the bytes of the text at the end;
* `read_natural`: a span of natural numbers names the bytes between its bounds;
* `Spells`: a slot names exactly the bytes of a text, which later additions do not change;
* `read_of_prefix`: what was read once is read ever after.
-/

namespace SpanTree.Arena

theorem bytes_length (a : Arena) : a.bytes.length = a.size := by
  rw [bytes, List.length_take, Content.length_toList, Nat.min_eq_left a.fits]

/-- Doubling a buffer that is not empty makes room for any number of bytes. -/
theorem doubled_eq_some {capacity : Nat} (required : Nat) (h : 0 < capacity) :
    ∃ c, doubled capacity required = some c ∧ required ≤ c ∧ capacity ≤ c := by
  fun_induction doubled capacity required with
  | case1 capacity fits => exact ⟨capacity, rfl, fits, Nat.le_refl _⟩
  | case2 => omega
  | case3 capacity _ _ ih =>
    obtain ⟨c, hc, hr, hm⟩ := ih (by omega)
    exact ⟨c, hc, hr, by omega⟩

/-- An empty buffer makes room for nothing. -/
theorem doubled_zero {required : Nat} (h : 0 < required) : doubled 0 required = none := by
  unfold doubled
  rw [if_neg (by omega), if_pos rfl]

theorem doubled_fits {capacity required : Nat} (h : required ≤ capacity) :
    doubled capacity required = some capacity := by
  unfold doubled
  rw [if_pos h]

/-- Doubling never shrinks a buffer. -/
theorem le_doubled {capacity required c : Nat} (h : doubled capacity required = some c) :
    capacity ≤ c := by
  fun_induction doubled capacity required with
  | case1 capacity => exact Nat.le_of_eq (Option.some.inj h)
  | case2 => cases h
  | case3 capacity _ _ ih => exact Nat.le_trans (by omega) (ih h)

theorem doubled_none {capacity required : Nat} (h : doubled capacity required = none) :
    capacity = 0 := by
  rcases Nat.eq_zero_or_pos capacity with empty | positive
  · exact empty
  · obtain ⟨c, hc, _⟩ := doubled_eq_some required positive
    rw [h] at hc
    cases hc

/-- The bytes handed out so far are at the beginning of a larger buffer, too. -/
theorem bytes_moved (a : Arena) (capacity : Nat) : (a.moved capacity).bytes = a.bytes := by
  have whole : (a.buffer.take a.size).toList.length = a.size := by
    rw [Content.length_toList, size_take_buffer]
  rw [bytes, moved]
  dsimp only
  rw [Content.toList_overlay, List.take_zero, List.nil_append, List.take_left' whole,
    Content.toList_take, bytes]

/-- Behind the bytes handed out, a new buffer holds zeros. -/
theorem drop_moved (a : Arena) (c : Nat) :
    (a.moved c).buffer.toList.drop a.size = List.replicate (c - a.size) 0 := by
  have whole : (a.buffer.take a.size).toList.length = a.size := by
    rw [Content.length_toList, size_take_buffer]
  rw [moved]
  dsimp only
  rw [Content.toList_overlay, List.take_zero, List.nil_append, List.drop_left' whole,
    size_take_buffer, Nat.zero_add, Content.toList_zeros, List.drop_replicate]

/-- What has room in an arena after room was made for it. Either there was room before, or the
buffer is a new one. -/
theorem reserve_cases (required : Nat) (a : Arena) :
    (doubled a.capacity required = none ∧ a.reserve required = none) ∨
      ∃ b, a.reserve required = some b ∧ b.size = a.size ∧ b.bytes = a.bytes ∧
        doubled a.capacity required = some b.capacity ∧
        (b = a ∨ a.capacity < required ∧ b = a.moved b.capacity) := by
  unfold reserve
  split
  · next fits =>
    exact .inr ⟨a, rfl, rfl, rfl, doubled_fits fits, .inl rfl⟩
  · next small =>
    cases grown : doubled a.capacity required with
    | none => exact .inl ⟨rfl, rfl⟩
    | some c =>
      have room : a.size ≤ c := Nat.le_trans a.fits (le_doubled grown)
      have size := capacity_moved room
      refine .inr ⟨_, rfl, rfl, bytes_moved a c, by rw [size], .inr ⟨Nat.lt_of_not_le small, ?_⟩⟩
      rw [size]

/-- The bytes that are handed out next are those in the buffer, which was moved if there was no room
for them; without a buffer there is never room. -/
theorem extend_cases (count : Nat) (a : Arena) :
    (doubled a.capacity (a.size + count) = none ∧ a.extend count = (.error .stuck, a)) ∨
      ∃ b c, a.extend count = (.ok ⟨.natural a.size, .natural count⟩, c) ∧
        (b = a ∨ a.capacity < a.size + count ∧ b = a.moved b.capacity) ∧
        b.bytes = a.bytes ∧ doubled a.capacity (a.size + count) = some b.capacity ∧
        c.buffer = b.buffer ∧ c.size = a.size + count := by
  have cases := reserve_cases (a.size + count) a
  unfold extend
  split
  next none =>
    rw [none] at cases
    rcases cases with ⟨empty, _⟩ | ⟨_, some, _⟩
    · exact .inl ⟨empty, rfl⟩
    · cases some
  next b some =>
    rw [some] at cases
    rcases cases with ⟨_, none⟩ | ⟨_, same, _, bytes, grown, origin⟩
    · cases none
    · cases same
      exact .inr ⟨b, _, rfl, origin, bytes, grown, rfl, rfl⟩

/-- All bytes of the buffer that are behind those handed out are zeros. -/
def Blank (a : Arena) : Prop := ∀ b ∈ a.buffer.toList.drop a.size, b = 0

/-- More bytes come behind those that were handed out before; in a blank arena, zeros. -/
theorem bytes_extend {count : Nat} {a c : Arena} {span : Span}
    (h : a.extend count = (.ok span, c)) :
    span = ⟨.natural a.size, .natural count⟩ ∧ c.size = a.size + count ∧
      doubled a.capacity (a.size + count) = some c.capacity ∧
      ∃ new, c.bytes = a.bytes ++ new ∧ (a.Blank → new = List.replicate count 0 ∧ c.Blank) := by
  rcases extend_cases count a with ⟨_, stuck⟩ | ⟨b, c', ran, origin, bytes, grown, buffer, size⟩
  · rw [stuck] at h
    cases h
  rw [ran] at h
  cases h
  have capacity : c.capacity = b.capacity := congrArg Content.size buffer
  have same : b.size = a.size := by
    rw [← bytes_length, bytes, bytes_length]
  have whole : c.bytes = b.bytes ++ (b.buffer.toList.drop a.size).take count := by
    rw [Arena.bytes, buffer, size, Arena.bytes, same, List.take_add]
  refine ⟨rfl, size, by rw [capacity, grown], _, by rw [whole, bytes], fun blank => ?_⟩
  have blank' : ∀ x ∈ b.buffer.toList.drop a.size, x = 0 := by
    rcases origin with rfl | ⟨_, moved⟩
    · exact blank
    · rw [moved, drop_moved]
      exact fun x hx => (List.mem_replicate.1 hx).2
  have enough : count ≤ b.buffer.size - a.size := by
    have := c.fits
    rw [buffer, size] at this
    omega
  constructor
  · refine List.eq_replicate_iff.2 ⟨?_, fun x hx => blank' x (List.mem_of_mem_take hx)⟩
    rw [List.length_take, List.length_drop, Content.length_toList, Nat.min_eq_left enough]
  · intro x hx
    rw [buffer, size, ← List.drop_drop] at hx
    exact blank' x (List.mem_of_mem_drop hx)

theorem capacity_empty (capacity : Nat) : (empty capacity).capacity = capacity := rfl

theorem blank_empty (capacity : Nat) : (empty capacity).Blank := by
  intro b mem
  rw [empty, List.drop_zero, Content.toList_zeros] at mem
  exact (List.mem_replicate.1 mem).2

/-! ## Bytes in place of others -/

section
variable {a : Arena} {start : Nat} {new : Content}

theorem bytes_overlay (room : new.size = 0 ∨ start + new.size ≤ a.size) :
    (a.overlay start new).bytes =
      a.bytes.take start ++ new.toList ++ a.bytes.drop (start + new.size) := by
  rw [bytes, overlay]
  dsimp only
  rw [Content.toList_overlay]
  rcases room with none | inside
  · have none : new.toList = [] := List.length_eq_zero_iff.1 (Content.length_toList _ ▸ none)
    simp only [‹new.size = 0›, none, List.append_nil, Nat.add_zero, List.take_append_drop, bytes]
  · rw [List.take_append, List.take_of_length_le, bytes, List.take_take,
      Nat.min_eq_left (by omega), List.drop_take]
    · congr 2
      simp only [List.length_append, List.length_take, Content.length_toList]
      have := a.fits
      omega
    · simp only [List.length_append, List.length_take, Content.length_toList]
      omega

theorem capacity_overlay (room : new.size = 0 ∨ start + new.size ≤ a.size) :
    (a.overlay start new).capacity = a.capacity :=
  Content.size_overlay (room.imp_right fun inside => Nat.le_trans inside a.fits)

theorem Blank.overlay (blank : a.Blank) (room : new.size = 0 ∨ start + new.size ≤ a.size) :
    (a.overlay start new).Blank := by
  have behind : (a.overlay start new).buffer.toList.drop a.size = a.buffer.toList.drop a.size := by
    have fits := a.fits
    rw [Arena.overlay]
    dsimp only
    rw [Content.toList_overlay]
    rcases room with none | inside
    · have none' : new.toList = [] := List.length_eq_zero_iff.1 (Content.length_toList _ ▸ none)
      rw [none, none', List.append_nil, Nat.add_zero, List.take_append_drop]
    · have length : (a.buffer.toList.take start ++ new.toList).length = start + new.size := by
        simp only [List.length_append, List.length_take, Content.length_toList]
        omega
      rw [List.drop_append, List.drop_of_length_le (by omega), List.nil_append, length,
        List.drop_drop]
      congr 1
      omega
  exact fun x hx => blank x (behind ▸ hx)

end

theorem capacity_le_extend (count : Nat) (a : Arena) :
    a.capacity ≤ (a.extend count).2.capacity := by
  rcases extend_cases count a with ⟨_, stuck⟩ | ⟨b, c, ran, _, _, grown, buffer, _⟩
  · exact Nat.le_of_eq (by rw [stuck])
  · rw [ran]
    dsimp only
    rw [show c.capacity = b.capacity from congrArg Content.size buffer]
    exact le_doubled grown

theorem capacity_le_allocate (size : Quantity) (a : Arena) :
    a.capacity ≤ (a.allocate size).2.capacity := by
  cases size with
  | irregular x => exact Nat.le_refl _
  | natural n =>
    unfold allocate
    dsimp only
    split
    · exact Nat.le_refl _
    · exact capacity_le_extend _ a

theorem available_eq {n c : Nat} (h : available n = .ok c) : c = n := by
  unfold available at h
  split at h
  · exact (Except.ok.inj h).symm
  · cases h

/-- A new arena is empty. Its buffer has the size asked for, rounded down, and at least one byte. -/
theorem create_eq {x : Binary64} {a : Arena} (number : x ≠ .nan) (h : create x = .ok a) :
    a = empty (max 1 (x.floor.getD 1).toNat) := by
  unfold create at h
  cases hc : startCapacity x with
  | error fault =>
    rw [hc] at h
    cases h
  | ok c =>
    rw [hc] at h
    cases h
    unfold startCapacity at hc
    split at hc
    · exact absurd rfl number
    · cases hc
    · rw [available_eq hc]

/-- Every number but a NaN makes a buffer with room for a byte. -/
theorem create_buffer {capacity : Binary64} {a : Arena} (number : capacity ≠ .nan)
    (h : create capacity = .ok a) : 0 < a.capacity := by
  rw [create_eq number h]
  exact Nat.lt_of_lt_of_le Nat.zero_lt_one (Nat.le_max_left 1 _)

/-- A copy adds the bytes of the text at the end, or it gets stuck without a buffer. -/
theorem copy_result (text : Text) (a : Arena) :
    (doubled a.capacity (a.size + (Utf8.encode text).length) = none ∧
        a.copy text = (.error .stuck, a)) ∨
      ∃ a', a.copy text = (.ok ⟨.natural a.size, .natural (Utf8.encode text).length⟩, a') ∧
        a'.bytes = a.bytes ++ Utf8.encode text ∧
        doubled a.capacity (a.size + (Utf8.encode text).length) = some a'.capacity ∧
        (a.Blank → a'.Blank) := by
  rcases extend_cases (Utf8.encode text).length a with ⟨empty, stuck⟩ | ⟨_, c, ran, _⟩
  · exact .inl ⟨empty, by rw [copy, stuck]⟩
  obtain ⟨_, size, grown, new, bytes, blank⟩ := bytes_extend ran
  have room : (Content.ofBytes (Utf8.encode text)).size = 0 ∨
      a.size + (Content.ofBytes (Utf8.encode text)).size ≤ c.size :=
    .inr (Nat.le_of_eq (by rw [Content.size_ofBytes, size]))
  refine .inr ⟨c.overlay a.size (.ofBytes (Utf8.encode text)), ?_, ?_, ?_, ?_⟩
  · rw [copy, ran]
  · have none : c.bytes.drop (a.size + (Utf8.encode text).length) = [] :=
      List.drop_of_length_le (Nat.le_of_eq (by rw [bytes_length, size]))
    rw [bytes_overlay room, Content.size_ofBytes, Content.toList_ofBytes, none, List.append_nil,
      bytes, ← bytes_length a, List.take_left]
  · rw [capacity_overlay room, grown]
  · exact fun clean => (blank clean).2.overlay room

theorem capacity_le_copy (text : Text) (a : Arena) : a.capacity ≤ (a.copy text).2.capacity := by
  rcases copy_result text a with ⟨_, stuck⟩ | ⟨a', copied, _, grown, _⟩
  · exact Nat.le_of_eq (by rw [stuck])
  · rw [copied]
    exact le_doubled grown

theorem copy_cases (text : Text) (a : Arena) :
    (a.capacity = 0 ∧ a.copy text = (.error .stuck, a)) ∨
      ∃ a', a.copy text = (.ok ⟨.natural a.size, .natural (Utf8.encode text).length⟩, a') ∧
        a'.bytes = a.bytes ++ Utf8.encode text ∧ a.capacity ≤ a'.capacity :=
  (copy_result text a).imp (fun ⟨endless, stuck⟩ => ⟨doubled_none endless, stuck⟩)
    fun ⟨a', copied, bytes, grown, _⟩ => ⟨a', copied, bytes, le_doubled grown⟩

/-- A copy into an arena with a buffer adds the bytes of the text at the end. -/
theorem copy_eq (text : Text) {a : Arena} (h : 0 < a.capacity) :
    ∃ a', a.copy text =
        (.ok ⟨.natural a.size, .natural (Utf8.encode text).length⟩, a') ∧
      a'.bytes = a.bytes ++ Utf8.encode text ∧ 0 < a'.capacity := by
  rcases copy_cases text a with ⟨empty, _⟩ | ⟨a', copied, bytes, more⟩
  · omega
  · exact ⟨a', copied, bytes, Nat.lt_of_lt_of_le h more⟩

/-- A copy that has bytes to add never ends well in an arena without a buffer. -/
theorem copy_stuck {text : Text} {a : Arena} (h : a.capacity = 0)
    (hb : Utf8.encode text ≠ []) : a.copy text = (.error .stuck, a) := by
  have hpos : 0 < (Utf8.encode text).length := List.length_pos_iff.2 hb
  rcases copy_result text a with ⟨_, stuck⟩ | ⟨_, _, _, grown, _⟩
  · exact stuck
  · rw [h, doubled_zero (by omega)] at grown
    cases grown

/-- A span of natural numbers names the bytes between its bounds. -/
theorem read_natural (a : Arena) (offset length : Nat) :
    a.read ⟨.natural offset, .natural length⟩ =
      if offset + length ≤ a.size then .ok ((a.bytes.drop offset).take length)
      else .error (.outside ⟨.natural offset, .natural length⟩ a.size) := by
  unfold read range
  dsimp only
  split
  · next inside =>
    rw [bytes, List.drop_take, List.take_take, Nat.min_eq_left (by omega)]
    simp only [Except.map, Content.slice_eq, Nat.add_sub_cancel_left]
  · rfl

theorem size_le_of_prefix {a a' : Arena} (h : a.bytes <+: a'.bytes) : a.size ≤ a'.size := by
  rw [← bytes_length, ← bytes_length]
  exact h.length_le

/-- Places below the size hold the same bytes after more are added. -/
theorem slice_of_prefix {a a' : Arena} (h : a.bytes <+: a'.bytes) {start count : Nat}
    (fits : start + count ≤ a.size) :
    (a'.bytes.drop start).take count = (a.bytes.drop start).take count := by
  obtain ⟨tail, ht⟩ := h
  rw [← ht, List.drop_append_of_le_length (by rw [bytes_length]; omega),
    List.take_append_of_le_length (by rw [List.length_drop, bytes_length]; omega)]

/-- Bytes that are added at the end do not change what a span of natural numbers names. -/
theorem read_of_prefix {a a' : Arena} {offset length : Nat} (h : a.bytes <+: a'.bytes)
    (fits : offset + length ≤ a.size) :
    a'.read ⟨.natural offset, .natural length⟩ = a.read ⟨.natural offset, .natural length⟩ := by
  have more := size_le_of_prefix h
  rw [read_natural, read_natural, if_pos fits, if_pos (by omega), slice_of_prefix h fits]

/-- The slot names exactly the UTF-8 bytes of a text. -/
def Spells (a : Arena) (slot : Slot Span) (text : Text) : Prop :=
  ∃ offset length, slot = .known ⟨.natural offset, .natural length⟩ ∧
    a.read ⟨.natural offset, .natural length⟩ = .ok (Utf8.encode text)

/-- What a slot spells is settled: bytes are only added behind it. -/
theorem Spells.mono {a a' : Arena} {slot : Slot Span} {text : Text} (hs : a.Spells slot text)
    (h : a.bytes <+: a'.bytes) : a'.Spells slot text := by
  obtain ⟨offset, length, rfl, hr⟩ := hs
  refine ⟨offset, length, rfl, ?_⟩
  rw [← hr]
  apply read_of_prefix h
  apply Decidable.byContradiction
  intro outside
  rw [read_natural, if_neg outside] at hr
  cases hr

/-- The span that a copy answers spells the text. -/
theorem spells_of_copy {a a' : Arena} {text : Text} (h : a'.bytes = a.bytes ++ Utf8.encode text) :
    a'.Spells (.known ⟨.natural a.size, .natural (Utf8.encode text).length⟩) text := by
  have hsize : a'.size = a.size + (Utf8.encode text).length := by
    rw [← bytes_length, h, List.length_append, bytes_length]
  refine ⟨_, _, rfl, ?_⟩
  rw [read_natural, if_pos (by omega), h, ← bytes_length, List.drop_left, List.take_length]

end SpanTree.Arena
