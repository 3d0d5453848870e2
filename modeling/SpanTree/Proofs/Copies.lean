import SpanTree.Proofs.Allocation
import SpanTree.Proofs.Encoding

/-!
# Copies of a text

Bytes are only ever added to an arena unless a caller writes to them, so what a text was copied to
reads the same ever after.

* `Change.Adds`: a change that adds bytes or none, and `Change.Adds.bytes`, `adds_after`: what such
  changes leave of the bytes;
* `created_buffer`: an arena that was made for a number of bytes has a buffer;
* `text_of_copy`: what is read of a copied text, and when it is the text itself.
-/

namespace SpanTree.Arena

/-- A change that writes to nothing but what it adds. -/
def Change.Adds : Change → Prop
  | allocate _ => True
  | copy _ => True
  | write _ _ => False

variable {a : Arena} {c : Change}

/-- What is added lies behind the bytes that are there. -/
theorem Change.Adds.bytes (h : c.Adds) (a : Arena) : a.bytes <+: (c.run a).2.bytes := by
  have outcome := c.outcome a
  generalize c.run a = r at outcome
  cases outcome with
  | refused => exact List.prefix_rfl
  | added bytes => exact ⟨_, bytes.symm⟩
  | written => exact h.elim

theorem adds_after {later : List Change} (adds : ∀ c ∈ later, c.Adds) (a : Arena) :
    a.bytes <+: (a.after later).bytes := by
  induction later generalizing a with
  | nil => exact List.prefix_rfl
  | cons c rest ih =>
    have first := (adds c List.mem_cons_self).bytes a
    exact first.trans (ih (fun other mem => adds other (List.mem_cons_of_mem _ mem)) _)

/-- An arena that was made for a number of bytes has a buffer for good. -/
theorem created_buffer {x : Binary64} (number : x ≠ .nan) {start : Arena}
    (created : create x = .ok start) (history : List Change) :
    0 < (start.after history).capacity := by
  have buffer := create_buffer number created
  clear created
  induction history generalizing start with
  | nil => exact buffer
  | cons c rest ih => exact ih (Nat.lt_of_lt_of_le buffer (c.capacity_le start))

/-- **What is read of a copied text.** In any arena, whatever was done to it since it was made, a
text is copied unless the arena was made for a NaN of bytes. Its span is then read as the text with
each lone surrogate replaced, however many bytes are added later, except that a byte order mark in
front of the text is lost. So the text itself is read just when it has neither. -/
theorem text_of_copy {x : Binary64} {start a : Arena} (created : create x = .ok start)
    {history : List Change} (reached : a = start.after history) (text : Text) :
    (x ≠ .nan → ∃ span a', a.copy text = (.ok span, a')) ∧
    ∀ span a', a.copy text = (.ok span, a') → ∀ later, (∀ c ∈ later, c.Adds) →
      ∃ found, (a'.after later).text span = .ok found ∧
        (text.head? ≠ some 0xFEFF → found = text.wellFormed) ∧
        (∀ rest : Text, text = 0xFEFF :: rest → found = rest.wellFormed) ∧
        (found = text ↔ (∀ i, ¬ text.Lone i) ∧ text.head? ≠ some 0xFEFF) := by
  constructor
  · intro number
    have buffer : 0 < a.capacity := by
      rw [reached]
      exact created_buffer number created history
    obtain ⟨a', copied, _⟩ := copy_eq text buffer
    exact ⟨_, a', copied⟩
  · intro span a' copied later adds
    rcases copy_cases text a with ⟨_, stuck⟩ | ⟨b, done, bytes, _⟩
    · rw [copied] at stuck
      cases stuck
    rw [copied] at done
    cases done
    have spells := (spells_of_copy bytes).mono (adds_after adds a')
    obtain ⟨_, known, found⟩ := spells.kept
    cases known
    refine ⟨text.kept, found, Text.kept_eq, ?_, ?_⟩
    · rintro rest rfl
      exact Text.kept_mark rest
    · rw [Text.kept_iff, ← Text.wellFormed_iff]
      exact ⟨fun clean => ⟨clean.paired, clean.unmarked⟩, fun ⟨paired, front⟩ => ⟨paired, front⟩⟩

/-- A lone surrogate, in a buffer of one byte that is doubled for it and again for what comes
later. -/
theorem text_of_copy_lone : ∃ span a',
    (Arena.empty 1).copy [0xD800] = (.ok span, a') ∧
    (a'.after [.allocate (.natural 9), .copy (lit "b")]).text span = .ok [0xFFFD] := by
  have created : create (.infinite true) = .ok (.empty 1) := rfl
  have reached : (Arena.empty 1) = after (.empty 1) [] := rfl
  obtain ⟨copies, reads⟩ := text_of_copy created reached [0xD800]
  obtain ⟨span, a', copied⟩ := copies nofun
  have adds : ∀ c ∈ [Change.allocate (.natural 9), .copy (lit "b")], c.Adds := by
    intro c mem
    rcases List.mem_cons.1 mem with rfl | mem
    · trivial
    · rw [List.mem_singleton.1 mem]
      trivial
  obtain ⟨found, read, replaced, _⟩ := reads span a' copied _ adds
  rw [replaced (by decide)] at read
  exact ⟨span, a', copied, read⟩

end SpanTree.Arena
