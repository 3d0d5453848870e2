import SpanTree.Arena.Content
import SpanTree.Text.Utf8
import SpanTree.Number.Quantity

/-!
# The byte arena

An arena hands out the bytes of a buffer one after the other. Where there are no more, the buffer is
replaced by a larger one, so a span of an arena is by its numbers and stays valid for good.

* `Arena.bytes`: the bytes handed out so far, at the beginning of the buffer;
* `Arena.create`: an arena with a buffer of at least one byte, for a number that counts;
* `Arena.doubled`: the buffer size reached by doubling until enough bytes fit;
* `Arena.reserve`: a buffer of that size in place of the one there is, to which the bytes handed out
  are copied;
* `Arena.allocate`, `Arena.copy`: more bytes, as they are or with the UTF-8 of a text;
* `Arena.range`: the places that a span names, refused outside the bytes handed out so far;
* `Arena.read`, `Arena.text`, `Arena.write`: the bytes and the text of a span, and writing to it.

An operation that is refused leaves the arena as it was.
-/

namespace SpanTree

/-- A stretch of an arena, by its first place and its length. -/
structure Span where
  offset : Quantity
  length : Quantity
deriving DecidableEq

/-- A buffer, and how many of its bytes are handed out. -/
structure Arena where
  buffer : Content
  size : Nat
  fits : size ≤ buffer.size

inductive ArenaFault where
  /-- The buffer size is beyond what any buffer can have. -/
  | oversized (capacity : Quantity)
  /-- The requested length is not a natural number. -/
  | invalidSize (size : Quantity)
  /-- The span leaves the `size` bytes allocated so far. -/
  | outside (span : Span) (size : Nat)
  /-- More bytes than the span holds. -/
  | overlong
  /-- The buffer is empty, and doubling it never makes room. -/
  | stuck
deriving DecidableEq

namespace Arena

def defaultCapacity : Nat := 256

/-- No buffer has as many bytes as this. -/
def sizeLimit : Nat := Nat.pow 2 53

def capacity (a : Arena) : Nat := a.buffer.size

/-- The bytes handed out so far, one by one. -/
def bytes (a : Arena) : List UInt8 := a.buffer.toList.take a.size

/-- A buffer size, as far as there is a buffer of that size. -/
def available (capacity : Nat) : Except ArenaFault Nat :=
  if capacity < sizeLimit then .ok capacity
  else .error (.oversized (.ofBinary64 (.ofNat capacity)))

/-- The buffer size for a requested number: its whole part, at least one. A NaN asks for nothing
and gets an empty buffer. -/
def startCapacity : Binary64 → Except ArenaFault Nat
  | .nan => .ok 0
  | .infinite false => .error (.oversized (.irregular (.infinite false)))
  | x => available (max 1 (x.floor.getD 1).toNat)

/-- An arena that has handed out nothing of its buffer. -/
def empty (capacity : Nat) : Arena := ⟨.zeros capacity, 0, Nat.zero_le _⟩

def create (capacity : Binary64) : Except ArenaFault Arena := (startCapacity capacity).map empty

def new : Arena := empty defaultCapacity

/-- Doubles a buffer size until `required` bytes fit; an empty buffer stays empty. -/
def doubled (capacity required : Nat) : Option Nat :=
  if required ≤ capacity then some capacity
  else if capacity = 0 then none
  else doubled (2 * capacity) required
termination_by required - capacity

theorem le_of_doubled {capacity required c : Nat} (h : doubled capacity required = some c) :
    required ≤ c := by
  fun_induction doubled capacity required with
  | case1 capacity fits =>
    cases h
    exact fits
  | case2 => cases h
  | case3 capacity _ _ ih => exact ih h

/-- The arena with other bytes in its buffer, from a place on. -/
def overlay (a : Arena) (start : Nat) (new : Content) : Arena :=
  ⟨a.buffer.overlay start new, a.size, Nat.le_trans a.fits (Content.size_le_overlay _ _ _)⟩

theorem size_take_buffer (a : Arena) : (a.buffer.take a.size).size = a.size := by
  rw [Content.size_take, Nat.min_eq_left a.fits]

/-- The arena with a new buffer, to which the bytes handed out so far are copied. -/
def moved (a : Arena) (capacity : Nat) : Arena where
  buffer := (Content.zeros capacity).overlay 0 (a.buffer.take a.size)
  size := a.size
  fits := by
    have length := congrArg List.length
      (Content.toList_overlay (.zeros capacity) 0 (a.buffer.take a.size))
    simp only [List.length_append, Content.length_toList, size_take_buffer] at length
    omega

theorem capacity_moved {a : Arena} {c : Nat} (fits : a.size ≤ c) : (a.moved c).capacity = c := by
  have size : (Content.zeros c).size = c := rfl
  exact (Content.size_overlay (.inr (by rwa [size_take_buffer, size, Nat.zero_add]))).trans size

/-- Makes room for so many bytes in all, unless the buffer can never be made large enough. -/
def reserve (required : Nat) (a : Arena) : Option Arena :=
  if required ≤ a.capacity then some a else (doubled a.capacity required).map a.moved

theorem reserve_room {required : Nat} {a b : Arena} (more : a.size ≤ required)
    (h : a.reserve required = some b) : b.size = a.size ∧ required ≤ b.capacity := by
  unfold reserve at h
  split at h
  · next fits =>
    cases h
    exact ⟨rfl, fits⟩
  · obtain ⟨c, grown, rfl⟩ := Option.map_eq_some_iff.1 h
    have enough := le_of_doubled grown
    exact ⟨rfl, by rwa [capacity_moved (Nat.le_trans more enough)]⟩

/-- Hands out the next bytes, and leaves them as they are. -/
def extend (count : Nat) (a : Arena) : Except ArenaFault Span × Arena :=
  match h : a.reserve (a.size + count) with
  | none => (.error .stuck, a)
  | some b => (.ok ⟨.natural a.size, .natural count⟩,
      ⟨b.buffer, a.size + count, (reserve_room (Nat.le_add_right _ _) h).2⟩)

/-- Why bytes of an irregular number are refused: it is negative, not whole, or so great that the
buffer would have to grow beyond all limits. -/
def refusal (size : Binary64) (a : Arena) : ArenaFault :=
  match size.toInt? with
  | some (.ofNat _) =>
    match ((Binary64.ofNat a.size).add size).toInt?.bind fun n => doubled a.capacity n.toNat with
    | some capacity => .oversized (.ofBinary64 (.ofNat capacity))
    | none => .stuck
  | _ => .invalidSize (.ofBinary64 size)

/-- Hands out `size` bytes; no buffer grows beyond all limits for a number that a caller names. -/
def allocate (size : Quantity) (a : Arena) : Except ArenaFault Span × Arena :=
  match size with
  | .natural n =>
    match (doubled a.capacity (a.size + n)).map available with
    | some (.error fault) => (.error fault, a)
    | _ => a.extend n
  | .irregular x => (.error (a.refusal x), a)

/-- Hands out bytes for the UTF-8 of a text, and puts it there. -/
def copy (t : Text) (a : Arena) : Except ArenaFault Span × Arena :=
  let new := Utf8.encode t
  match a.extend new.length with
  | (.ok span, b) => (.ok span, b.overlay a.size (.ofBytes new))
  | refused => refused

/-- The whole part of a bound, kept between zero and the size of the buffer. -/
def place (capacity : Nat) : Binary64 → Nat
  | .nan => 0
  | .infinite negative => if negative then 0 else capacity
  | x => min capacity ((x.truncate.getD 0).toNat)

/-- The first place of a span and the place after its last. Bounds that are not whole are cut, and
a comparison with a NaN refuses nothing. -/
def range (a : Arena) (span : Span) : Except ArenaFault (Nat × Nat) :=
  match span.offset, span.length with
  | .natural offset, .natural length =>
    if offset + length ≤ a.size then .ok (offset, offset + length)
    else .error (.outside span a.size)
  | offset, length =>
    let start := offset.toBinary64
    let extent := length.toBinary64
    let stop := start.add extent
    if start.lt .zero || extent.lt .zero || stop.isAbove a.size then
      .error (.outside span a.size)
    else .ok (place a.capacity start, max (place a.capacity start) (place a.capacity stop))

def read (a : Arena) (span : Span) : Except ArenaFault (List UInt8) :=
  (a.range span).map fun (start, stop) => a.buffer.slice start (stop - start)

/-- The text of a span: an empty span is the empty text wherever it lies, and a leading byte order
mark is not part of the text. -/
def text (a : Arena) (span : Span) : Except ArenaFault Text :=
  if span.length = .natural 0 then .ok [] else (a.read span).map Utf8.decodeMarked

def write (span : Span) (new : List UInt8) (a : Arena) : Except ArenaFault Unit × Arena :=
  match a.range span with
  | .error fault => (.error fault, a)
  | .ok (start, stop) =>
    if new.length ≤ stop - start then
      (.ok (), a.overlay start (.ofBytes new))
    else (.error .overlong, a)

end Arena

end SpanTree
