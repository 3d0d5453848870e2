import SpanTree.Text.Offset

/-!
# The position of an offset

What stands before an offset is cut at its line feeds.

* `Text.IsAt`: the line and the column of an offset;
* `exists_lines`, `splitLines_lines`: the cut that `Text.splitLines` makes, and no other;
* `lastLineStart_lines`: the last line of that cut begins where the search for a line feed from the
  end says;
* `isAt_locate`, `IsAt.unique`: each offset has one line and one column, which are the ones that are
  computed for it.
-/

namespace SpanTree.Text

/-- An offset stands at a position: before it are as many whole lines as its line number says, less
one, and as many units of its own line as its column says, less one. -/
def IsAt (t : Text) (offset : Nat) (p : Position) : Prop :=
  ∃ (lines : List Text) (last : Text), (∀ line ∈ lines, unit '\n' ∉ line) ∧ unit '\n' ∉ last ∧
    t.take offset = lines.flatMap (· ++ [unit '\n']) ++ last ∧
    p = ⟨lines.length + 1, last.length + 1⟩

/-- A text is cut into lines that end with a line feed, and a last line that does not. -/
theorem exists_lines (t : Text) : ∃ (lines : List Text) (last : Text),
    t.splitLines = lines ++ [last] ∧ (∀ line ∈ lines, unit '\n' ∉ line) ∧ unit '\n' ∉ last ∧
    t = lines.flatMap (· ++ [unit '\n']) ++ last := by
  induction t with
  | nil => exact ⟨[], [], rfl, nofun, nofun, rfl⟩
  | cons u rest ih =>
    obtain ⟨lines, last, split, whole, unended, rfl⟩ := ih
    by_cases feed : u = unit '\n'
    · subst feed
      refine ⟨[] :: lines, last, ?_, ?_, unended, rfl⟩
      · rw [splitLines, if_pos rfl, split]
        rfl
      · rintro line (_ | ⟨_, mem⟩)
        · exact List.not_mem_nil
        · exact whole line mem
    · have grown {line : Text} (h : unit '\n' ∉ line) : unit '\n' ∉ u :: line := by
        simp only [List.mem_cons, not_or]
        exact ⟨Ne.symm feed, h⟩
      cases lines with
      | nil =>
        refine ⟨[], u :: last, ?_, nofun, grown unended, rfl⟩
        rw [splitLines, if_neg feed, split]
        rfl
      | cons line lines =>
        refine ⟨(u :: line) :: lines, last, ?_, ?_, unended, rfl⟩
        · rw [splitLines, if_neg feed, split]
          rfl
        · rintro other (_ | ⟨_, mem⟩)
          · exact grown (whole line List.mem_cons_self)
          · exact whole other (List.mem_cons_of_mem _ mem)

theorem splitLines_unended {last : Text} (unended : unit '\n' ∉ last) :
    last.splitLines = [last] := by
  induction last with
  | nil => rfl
  | cons u rest ih =>
    simp only [List.mem_cons, not_or] at unended
    rw [splitLines, if_neg (Ne.symm unended.1), ih unended.2]

theorem splitLines_line {line : Text} (whole : unit '\n' ∉ line) (rest : Text) :
    (line ++ unit '\n' :: rest).splitLines = line :: rest.splitLines := by
  induction line with
  | nil => rw [List.nil_append, splitLines, if_pos rfl]
  | cons u line ih =>
    simp only [List.mem_cons, not_or] at whole
    rw [List.cons_append, splitLines, if_neg (Ne.symm whole.1), ih whole.2]

/-- Whole lines are cut off whatever follows them. -/
theorem splitLines_lines {lines : List Text} (whole : ∀ line ∈ lines, unit '\n' ∉ line)
    (rest : Text) : splitLines (lines.flatMap (· ++ [unit '\n']) ++ rest) =
      lines ++ splitLines rest := by
  induction lines with
  | nil => rfl
  | cons line lines ih =>
    have later := ih fun other mem => whole other (List.mem_cons_of_mem _ mem)
    simp only [List.flatMap_cons, List.append_assoc, List.cons_append, List.nil_append]
    rw [splitLines_line (whole line List.mem_cons_self), later]

/-- The last line begins behind all whole lines. -/
theorem lastLineStart_lines {last : Text} (unended : unit '\n' ∉ last) (lines : List Text) :
    lastLineStart (lines.flatMap (· ++ [unit '\n']) ++ last) =
      (lines.flatMap (· ++ [unit '\n'])).length := by
  have none : last.reverse.findIdx? (· = unit '\n') = none := by
    rw [List.findIdx?_eq_none_iff]
    intro u inside
    rw [decide_eq_false_iff_not]
    rintro rfl
    exact unended (List.mem_reverse.1 inside)
  rw [lastLineStart, List.reverse_append, List.findIdx?_append, none, Option.none_or]
  rcases List.eq_nil_or_concat lines with rfl | ⟨before, line, rfl⟩
  · rfl
  · rw [List.concat_eq_append, List.flatMap_append, List.flatMap_singleton,
      ← List.append_assoc, List.reverse_append]
    change (before.flatMap _ ++ line ++ [unit '\n'] ++ last).length - (0 + _) = _
    rw [List.length_append, List.length_reverse, Nat.zero_add, Nat.add_sub_cancel]

/-- An offset past the end of a text is located at the end. -/
theorem isAt_locate (t : Text) (offset : Nat) : ∃ p : Position, t.IsAt (min offset t.length) p ∧
    t.locate (.natural offset) = ⟨p.line, .natural p.column⟩ := by
  obtain ⟨lines, last, split, whole, unended, joined⟩ := exists_lines (t.take (min offset t.length))
  refine ⟨_, ⟨lines, last, whole, unended, joined, rfl⟩, ?_⟩
  have start := lastLineStart_lines unended lines
  have length := congrArg List.length joined
  rw [← joined] at start
  rw [List.length_append, List.length_take, Nat.min_eq_left (Nat.min_le_right _ _)] at length
  change Located.mk _ (.natural (min offset t.length - _ + 1)) = _
  rw [split, start, length, Nat.add_sub_cancel_left, List.length_append, List.length_singleton]

/-- An offset stands at one position. -/
theorem IsAt.unique {t : Text} {offset : Nat} {p p' : Position} (h : t.IsAt offset p)
    (h' : t.IsAt offset p') : p = p' := by
  obtain ⟨lines, last, whole, unended, joined, rfl⟩ := h
  obtain ⟨lines', last', whole', unended', joined', rfl⟩ := h'
  have same := congrArg splitLines (joined.symm.trans joined')
  rw [splitLines_lines whole, splitLines_unended unended, splitLines_lines whole',
    splitLines_unended unended'] at same
  obtain ⟨rfl, rfl⟩ := List.append_singleton_inj.1 same
  rfl

end SpanTree.Text
