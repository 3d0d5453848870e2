/-!
# The bytes of a buffer

The bytes of a buffer as runs, so that zeros that were never written to take no room.

* `Content.toList`: the bytes one by one;
* `Content.take`, `Content.drop`: the bytes before a place and from a place on;
* `Content.join`: bytes behind others;
* `Content.overlay`: other bytes from a place on;
* `Content.slice`: some bytes from a place on, one by one.

Each of them does to the bytes what its name says: `Content.toList_take`, `Content.toList_drop`,
`Content.toList_join`, `Content.toList_overlay` and `Content.slice_eq`.
-/

namespace SpanTree

inductive Run where
  /-- Zeros that were never written to. -/
  | zeros (count : Nat)
  /-- Bytes that are kept one by one. -/
  | bytes (data : ByteArray)

namespace Run

def toList : Run → List UInt8
  | .zeros count => List.replicate count 0
  | .bytes data => data.data.toList

def length : Run → Nat
  | .zeros count => count
  | .bytes data => data.size

def take (count : Nat) : Run → Run
  | .zeros n => .zeros (min count n)
  | .bytes data => .bytes (data.extract 0 count)

def drop (start : Nat) : Run → Run
  | .zeros n => .zeros (n - start)
  | .bytes data => .bytes (data.extract start data.size)

theorem length_toList (run : Run) : run.toList.length = run.length := by
  cases run with
  | zeros count => exact List.length_replicate
  | bytes data => exact Array.length_toList

theorem toList_take (count : Nat) (run : Run) :
    (run.take count).toList = run.toList.take count := by
  cases run with
  | zeros n => simp only [take, toList, List.take_replicate]
  | bytes data =>
    simp only [take, toList, ByteArray.data_extract, Array.toList_extract,
      List.extract_eq_take_drop, List.drop_zero, Nat.sub_zero]

theorem toList_drop (start : Nat) (run : Run) :
    (run.drop start).toList = run.toList.drop start := by
  cases run with
  | zeros n => simp only [drop, toList, List.drop_replicate]
  | bytes data =>
    simp only [drop, toList, ByteArray.data_extract, Array.toList_extract,
      List.extract_eq_take_drop]
    exact List.take_of_length_le (by rw [List.length_drop]; exact Nat.le_refl _)

end Run

abbrev Content := List Run

namespace Content

def toList (c : Content) : List UInt8 := c.flatMap Run.toList

def size : Content → Nat
  | [] => 0
  | run :: rest => run.length + size rest

def zeros (count : Nat) : Content := [.zeros count]

def ofBytes (new : List UInt8) : Content := [.bytes new.toByteArray]

def take (count : Nat) : Content → Content
  | [] => []
  | run :: rest =>
    if run.length ≤ count then run :: take (count - run.length) rest else [run.take count]

def drop (start : Nat) : Content → Content
  | [] => []
  | run :: rest =>
    if run.length ≤ start then drop (start - run.length) rest else run.drop start :: rest

def append (new : ByteArray) : Content → Content
  | [] => [.bytes new]
  | [.bytes data] => [.bytes (data ++ new)]
  | run :: rest => run :: append new rest

/-- Bytes behind others; two runs that are kept one by one become one. -/
def join (c : Content) : Content → Content
  | .bytes new :: rest => c.append new ++ rest
  | d => c ++ d

/-- Puts bytes in place of as many others, from a place on. -/
def overlay (c : Content) (start : Nat) (new : Content) : Content :=
  (c.take start).join new ++ c.drop (start + new.size)

def slice (c : Content) (start count : Nat) : List UInt8 := ((c.drop start).take count).toList

theorem toList_cons (run : Run) (rest : Content) :
    toList (run :: rest) = run.toList ++ rest.toList :=
  List.flatMap_cons

theorem toList_runs (c d : Content) : toList (c ++ d) = c.toList ++ d.toList :=
  List.flatMap_append

theorem length_toList (c : Content) : c.toList.length = c.size := by
  induction c with
  | nil => rfl
  | cons run rest ih => rw [toList_cons, size, List.length_append, Run.length_toList, ih]

theorem toList_zeros (count : Nat) : (zeros count).toList = List.replicate count 0 :=
  List.append_nil _

theorem toList_ofBytes (new : List UInt8) : (ofBytes new).toList = new := by
  rw [ofBytes, toList_cons, Run.toList, List.data_toByteArray]
  exact List.append_nil new

theorem size_ofBytes (new : List UInt8) : (ofBytes new).size = new.length := by
  rw [← length_toList, toList_ofBytes]

theorem toList_take (count : Nat) (c : Content) : (c.take count).toList = c.toList.take count := by
  induction c generalizing count with
  | nil => exact List.take_nil.symm
  | cons run rest ih =>
    rw [take, toList_cons, List.take_append, Run.length_toList]
    split
    · next whole =>
      have all : run.toList.take count = run.toList :=
        List.take_of_length_le (Run.length_toList run ▸ whole)
      rw [toList_cons, ih, all]
    · next part =>
      rw [Nat.sub_eq_zero_of_le (Nat.le_of_not_le part), List.take_zero, List.append_nil,
        ← Run.toList_take]
      exact List.append_nil _

theorem toList_drop (start : Nat) (c : Content) : (c.drop start).toList = c.toList.drop start := by
  induction c generalizing start with
  | nil => exact List.drop_nil.symm
  | cons run rest ih =>
    rw [drop, toList_cons, List.drop_append, Run.length_toList]
    split
    · next whole =>
      have none : run.toList.drop start = [] :=
        List.drop_of_length_le (Run.length_toList run ▸ whole)
      rw [ih, none, List.nil_append]
    · next part =>
      rw [toList_cons, Run.toList_drop, Nat.sub_eq_zero_of_le (Nat.le_of_not_le part),
        List.drop_zero]

theorem toList_append (new : ByteArray) (c : Content) :
    (c.append new).toList = c.toList ++ new.data.toList := by
  fun_induction append new c with
  | case1 => simp only [toList, List.flatMap_cons, List.flatMap_nil, List.append_nil, Run.toList,
      List.nil_append]
  | case2 data => simp only [toList, List.flatMap_cons, List.flatMap_nil, List.append_nil,
      Run.toList, ByteArray.data_append, Array.toList_append]
  | case3 run rest _ ih => rw [toList_cons, ih, toList_cons, List.append_assoc]

theorem toList_join (c d : Content) : (c.join d).toList = c.toList ++ d.toList := by
  unfold join
  split
  · next new rest =>
    rw [toList_runs, toList_append, toList_cons, List.append_assoc]
    rfl
  · exact toList_runs c d

theorem toList_overlay (c : Content) (start : Nat) (new : Content) : (c.overlay start new).toList =
    c.toList.take start ++ new.toList ++ c.toList.drop (start + new.size) := by
  rw [overlay, toList_runs, toList_join, toList_take, toList_drop]

/-- Bytes that are put in place of others never make a buffer smaller. -/
theorem size_le_overlay (c : Content) (start : Nat) (new : Content) :
    c.size ≤ (c.overlay start new).size := by
  simp only [← length_toList, toList_overlay, List.length_append, List.length_take,
    List.length_drop]
  omega

/-- Bytes that are put in place of as many others leave a buffer as large as it was. -/
theorem size_overlay {c : Content} {start : Nat} {new : Content}
    (room : new.size = 0 ∨ start + new.size ≤ c.size) : (c.overlay start new).size = c.size := by
  simp only [← length_toList, toList_overlay, List.length_append, List.length_take,
    List.length_drop] at room ⊢
  omega

theorem size_take (count : Nat) (c : Content) : (c.take count).size = min count c.size := by
  rw [← length_toList, toList_take, List.length_take, length_toList]

theorem slice_eq (c : Content) (start count : Nat) :
    c.slice start count = (c.toList.drop start).take count := by
  rw [slice, toList_take, toList_drop]

end Content

end SpanTree
