import SpanTree.Proofs.Loading
import SpanTree.Proofs.Numerals
import SpanTree.Proofs.Positions

/-!
# The places that JSON faults are reported at

The line and the column of a fault are taken from the offset that its description names. Where a
description does not tell the offset but quotes the text, the text itself may name one.

* `Text.NamesOffset`, `isSome_namedOffset?`: what it takes for an offset to be found in a message;
* `namedOffset?_split`: a unit that cannot be part of a named offset splits the search;
* `Json.Describes`, `Json.Fault.describes`: the forms of a description;
* `Json.Fault.Told`, `Json.Fault.Imitated`: a description tells the offset of the fault, or quotes a
  stretch of text in which an offset is named;
* `run_json_place`: the place that is reported for a fault, in each of these cases.
-/

namespace SpanTree

/-! ## Offsets in messages -/

/-- A text begins with the word for offsets and a digit. -/
def Text.StartsOffset (t : Text) : Prop :=
  ∃ (digit : CodeUnit) (rest : Text), t = offsetWord ++ digit :: rest ∧ digit.isDigit = true

/-- Somewhere in a text stand the word for offsets and a digit, and the word does not continue a
longer one. -/
def Text.NamesOffset (t : Text) : Prop :=
  ∃ before after : Text, t = before ++ after ∧ after.StartsOffset ∧
    ∀ u, before.getLast? = some u → u.isWord = false

theorem afterWords?_eq_some {words t rest : Text} :
    afterWords? words t = some rest ↔ t = words ++ rest := by
  unfold afterWords?
  constructor
  · intro found
    split at found
    · next begins =>
      cases found
      calc t = t.take words.length ++ t.drop words.length := (List.take_append_drop ..).symm
        _ = words ++ t.drop words.length := by rw [begins]
    · cases found
  · rintro rfl
    rw [List.take_left, if_pos rfl, List.drop_left]

theorem namedOffset?_start {digit : CodeUnit} (isDigit : digit.isDigit = true) (rest : Text) :
    namedOffset? false (offsetWord ++ digit :: rest) =
      some (Text.digitsValue ((digit :: rest).takeWhile CodeUnit.isDigit)) := by
  obtain ⟨u, t, starts⟩ : ∃ u t, offsetWord ++ digit :: rest = u :: t := ⟨_, _, rfl⟩
  rw [starts, namedOffset?, afterWords?_eq_some.2 starts.symm]
  simp [isDigit]

/-- A number after the word is read as the offset. -/
theorem namedOffset?_ofNat (n : Nat) {rest : Text}
    (stop : ∀ u, rest.head? = some u → u.isDigit = false) :
    namedOffset? false (offsetWord ++ (Text.ofNat n ++ rest)) = some n := by
  obtain ⟨digit, more, split⟩ := List.exists_cons_of_ne_nil (digits_ofNat n).1
  have isDigit : digit.isDigit = true := (digits_ofNat n).2 digit (split ▸ List.mem_cons_self)
  have digits := (Json.span_digits (digits_ofNat n).2 stop).1
  rw [split, List.cons_append] at digits ⊢
  rw [namedOffset?_start isDigit, digits, ← split, digitsValue_ofNat]

theorem namedOffset?_skip {inWord : Bool} {u : CodeUnit} {rest : Text}
    (none : inWord = false → ¬ Text.StartsOffset (u :: rest)) :
    namedOffset? inWord (u :: rest) = namedOffset? u.isWord rest := by
  rw [namedOffset?]
  split
  · next after found =>
    rw [if_neg]
    rintro both
    simp only [Bool.and_eq_true, Bool.not_eq_true'] at both
    cases after with
    | nil => cases both.2
    | cons digit after =>
      exact none both.1 ⟨digit, after, afterWords?_eq_some.1 found, by simpa using both.2⟩
  · rfl

theorem isSome_namedOffset? {inWord : Bool} {t : Text} :
    (namedOffset? inWord t).isSome = true ↔ ∃ before after : Text, t = before ++ after ∧
      after.StartsOffset ∧ (before.getLast?.map CodeUnit.isWord).getD inWord = false := by
  induction t generalizing inWord with
  | nil =>
    refine ⟨nofun, ?_⟩
    rintro ⟨before, after, joined, ⟨digit, rest, rfl, _⟩, _⟩
    cases before <;> cases joined
  | cons u rest ih =>
    by_cases starts : inWord = false ∧ Text.StartsOffset (u :: rest)
    · obtain ⟨rfl, digit, more, split, isDigit⟩ := starts
      rw [split, namedOffset?_start isDigit]
      exact ⟨fun _ => ⟨[], _, rfl, ⟨digit, more, rfl, isDigit⟩, rfl⟩, fun _ => rfl⟩
    · rw [namedOffset?_skip fun fresh begins => starts ⟨fresh, begins⟩, ih]
      constructor
      · rintro ⟨before, after, rfl, begins, fresh⟩
        refine ⟨u :: before, after, rfl, begins, ?_⟩
        cases before <;> exact fresh
      · rintro ⟨before, after, split, begins, fresh⟩
        cases before with
        | nil => exact absurd ⟨fresh, split ▸ begins⟩ starts
        | cons v before =>
          cases split
          refine ⟨before, after, rfl, begins, ?_⟩
          cases before <;> exact fresh

theorem Text.namesOffset_iff {t : Text} :
    t.NamesOffset ↔ (namedOffset? false t).isSome = true := by
  rw [isSome_namedOffset?]
  constructor <;> rintro ⟨before, after, split, begins, fresh⟩ <;>
    refine ⟨before, after, split, begins, ?_⟩
  · cases last : before.getLast? with
    | none => rfl
    | some u => exact fresh u last
  · intro u last
    rwa [last] at fresh

/-- The beginning of a text that names an offset does not reach over a unit that belongs neither to
the word for offsets nor to a number. -/
theorem Text.StartsOffset.of_append {q : CodeUnit} {t rest : Text} (apart : q ∉ offsetWord)
    (undigit : q.isDigit = false) (h : Text.StartsOffset (t ++ q :: rest)) : t.StartsOffset := by
  obtain ⟨digit, more, split, isDigit⟩ := h
  have other : digit ≠ q := by
    rintro rfl
    rw [isDigit] at undigit
    cases undigit
  rcases List.append_eq_append_iff.1 split with ⟨between, word, tail⟩ | ⟨between, rfl, tail⟩
  · cases between with
    | nil =>
      cases tail
      exact absurd rfl other
    | cons v between =>
      cases tail
      exact absurd (word ▸ List.mem_append_right t List.mem_cons_self) apart
  · cases between with
    | nil =>
      cases tail
      exact absurd rfl other
    | cons v between =>
      cases tail
      exact ⟨digit, between, rfl, isDigit⟩

/-- Such a unit splits a search in two. -/
theorem namedOffset?_split {q : CodeUnit} (apart : q ∉ offsetWord) (undigit : q.isDigit = false)
    (inWord : Bool) (t rest : Text) :
    namedOffset? inWord (t ++ q :: rest) =
      (namedOffset? inWord t).or (namedOffset? q.isWord rest) := by
  induction t generalizing inWord with
  | nil =>
    refine namedOffset?_skip fun _ begins => ?_
    obtain ⟨_, _, impossible, _⟩ := Text.StartsOffset.of_append (t := []) apart undigit begins
    cases impossible
  | cons u t ih =>
    by_cases starts : inWord = false ∧ Text.StartsOffset (u :: t)
    · obtain ⟨rfl, digit, more, split, isDigit⟩ := starts
      have stops : (q :: rest).takeWhile CodeUnit.isDigit = [] :=
        List.takeWhile_cons_of_neg (by simp [undigit])
      have digits : (digit :: more ++ q :: rest).takeWhile CodeUnit.isDigit =
          (digit :: more).takeWhile CodeUnit.isDigit := by
        rw [List.takeWhile_append, stops, List.append_nil]
        split
        · next all => exact (List.takeWhile_sublist _).eq_of_length all |>.symm
        · rfl
      rw [split, List.append_assoc, List.cons_append, namedOffset?_start isDigit,
        namedOffset?_start isDigit, Option.some_or, ← List.cons_append, digits]
    · have whole : inWord = false → ¬ Text.StartsOffset (u :: (t ++ q :: rest)) :=
        fun fresh begins => starts ⟨fresh, begins.of_append (t := u :: t) apart undigit⟩
      rw [List.cons_append, namedOffset?_skip whole, ih,
        namedOffset?_skip fun fresh begins => starts ⟨fresh, begins⟩]

/-! ## Descriptions of faults -/

namespace Json

def Fault.offset (f : Fault) (text : Text) : Nat := text.length - f.remaining

/-- The description of a fault tells its offset. -/
def Fault.Told (f : Fault) (text : Text) : Prop :=
  ∃ words, f.message text = words ++ place text (f.offset text)

def shownAround (text : Text) (offset : Nat) : Text :=
  if text.length < 21 then text else (text.take (offset + 10)).drop (offset - 10)

/-- The description of a fault that quotes the text around it, after the unit that was met. -/
def quoting (text : Text) (offset : Nat) (met : CodeUnit) : Text :=
  lit "Unexpected token '" ++ [met] ++ lit "', " ++ excerpt text offset ++ lit " is not valid JSON"

/-- The description of a fault quotes the text around it, and an offset is named there. -/
def Fault.Imitated (f : Fault) (text : Text) : Prop :=
  (∃ met, f.message text = quoting text (f.offset text) met) ∧
    (shownAround text (f.offset text)).NamesOffset

/-- What is shown around an offset stands between quotes, with dots where it is cut. -/
theorem excerpt_eq (text : Text) (offset : Nat) : ∃ before after : Text,
    (before = [] ∨ before = lit "...") ∧ (after = [] ∨ after = lit "...") ∧
    excerpt text offset =
      before ++ unit '"' :: (shownAround text offset ++ unit '"' :: after) := by
  unfold excerpt shownAround
  by_cases short : text.length < 21
  · refine ⟨[], [], .inl rfl, .inl rfl, ?_⟩
    simp [short]
  · rw [if_neg short, if_neg short]
    by_cases early : offset < 10
    · refine ⟨[], lit "...", .inl rfl, .inr rfl, ?_⟩
      rw [if_pos early, Nat.sub_eq_zero_of_le (Nat.le_of_lt early)]
      simp
    · rw [if_neg early]
      by_cases inside : offset + 10 < text.length
      · refine ⟨lit "...", lit "...", .inr rfl, .inr rfl, ?_⟩
        rw [if_pos inside, List.drop_take, show offset + 10 - (offset - 10) = 20 by omega]
        simp
      · refine ⟨lit "...", [], .inr rfl, .inl rfl, ?_⟩
        rw [if_neg inside, List.take_of_length_le (Nat.not_lt.1 inside)]
        simp

/-- A description that quotes the text names the offset that is named in what is shown. -/
theorem namedOffset?_quoting (text : Text) (offset : Nat) (met : CodeUnit) :
    namedOffset? false (quoting text offset met) =
      namedOffset? false (shownAround text offset) := by
  obtain ⟨before, after, dotsBefore, dotsAfter, shape⟩ := excerpt_eq text offset
  have form : quoting text offset met = lit "Unexpected token " ++ unit '\'' :: ([met] ++
      unit '\'' :: (lit ", " ++ before ++ unit '"' :: (shownAround text offset ++
        unit '"' :: (after ++ lit " is not valid JSON")))) := by
    have met : lit "Unexpected token '" = lit "Unexpected token " ++ [unit '\''] := by decide
    have next : lit "', " = unit '\'' :: lit ", " := by decide
    simp only [quoting, shape, met, next, List.append_assoc, List.cons_append, List.nil_append]
  have alone : namedOffset? (unit '\'').isWord [met] = none := by
    refine namedOffset?_skip fun _ begins => ?_
    obtain ⟨_, _, impossible, _⟩ := begins
    cases impossible
  have opening : namedOffset? (unit '\'').isWord (lit ", " ++ before) = none := by
    rcases dotsBefore with rfl | rfl <;> decide
  have closing : namedOffset? (unit '"').isWord (after ++ lit " is not valid JSON") = none := by
    rcases dotsAfter with rfl | rfl <;> decide
  have heading : namedOffset? false (lit "Unexpected token ") = none := by decide
  rw [form, namedOffset?_split (by decide) (by decide), namedOffset?_split (by decide) (by decide),
    namedOffset?_split (by decide) (by decide), namedOffset?_split (by decide) (by decide),
    heading, alone, opening, closing, Option.none_or, Option.none_or, Option.none_or,
    Option.or_none]
  rfl

/-- A description that tells the offset names it. -/
theorem namedOffset?_place {words : Text} (silent : namedOffset? false (words ++ [unit ' ']) = none)
    (text : Text) (offset : Nat) :
    namedOffset? false (words ++ place text offset) = some offset := by
  let p := advance (text.take offset) ⟨1, 1⟩
  have form : words ++ place text offset = words ++ [unit ' '] ++ unit 'a' :: unit 't' ::
      unit ' ' :: (offsetWord ++ (Text.ofNat offset ++ (lit " (line " ++ (Text.ofNat p.line ++
        (lit " column " ++ (Text.ofNat p.column ++ lit ")")))))) := by
    have spelled : lit " at position " =
        unit ' ' :: unit 'a' :: unit 't' :: unit ' ' :: offsetWord := by decide
    simp only [place, spelled, List.append_assoc, List.cons_append, List.nil_append, p]
  rw [form, namedOffset?_split (by decide) (by decide), silent, Option.none_or,
    namedOffset?_skip (fun fresh => absurd fresh (by decide)),
    namedOffset?_skip (fun fresh => absurd fresh (by decide))]
  exact namedOffset?_ofNat offset fun u first => by
    cases first
    decide

/-- The words for a cause name no offset. -/
theorem Cause.words_silent (c : Cause) : namedOffset? false (c.words ++ [unit ' ']) = none := by
  cases c <;> decide +kernel

/-- The forms of a description of a fault at an offset: it tells the offset, or it quotes the text,
or it does neither, and then it names no offset. -/
inductive Describes (text : Text) (offset : Nat) : Text → Prop
  | telling {words : Text} (silent : namedOffset? false (words ++ [unit ' ']) = none) :
      Describes text offset (words ++ place text offset)
  | quoting (met : CodeUnit) : Describes text offset (quoting text offset met)
  | mute {words : Text} {last : CodeUnit} (inside : last ≠ unit ')')
      (silent : namedOffset? false (words ++ [last]) = none) :
      Describes text offset (words ++ [last])

theorem describes_unexpected (text : Text) (offset : Nat) :
    Describes text offset (unexpectedMessage text offset) := by
  unfold unexpectedMessage
  split
  · have ends : lit "Unexpected end of JSON input" =
        lit "Unexpected end of JSON inpu" ++ [unit 't'] := by decide
    rw [ends]
    exact .mute (by decide) (by decide +kernel)
  split
  · exact .telling (by decide +kernel)
  split
  · exact .telling (by decide +kernel)
  split
  · next whole =>
    have ends : lit "\" is not valid JSON" = lit "\" is not valid JSO" ++ [unit 'N'] := by decide
    rw [ends, ← List.append_assoc]
    refine .mute (by decide) ?_
    simp only [namedWhole, List.mem_cons, List.not_mem_nil, or_false] at whole
    rcases whole with rfl | rfl | rfl | rfl <;> decide +kernel
  · exact .quoting _

theorem Fault.describes (f : Fault) (text : Text) :
    Describes text (f.offset text) (f.message text) := by
  unfold Fault.message
  by_cases unexpected : f.cause = .unexpected
  · rw [if_pos unexpected]
    exact describes_unexpected text _
  · rw [if_neg unexpected]
    exact .telling f.cause.words_silent

theorem getLast?_place (words text : Text) (offset : Nat) :
    (words ++ place text offset).getLast? = some (unit ')') := by
  rw [place, ← List.append_assoc, List.getLast?_append]
  rfl

theorem getLast?_quoting (text : Text) (offset : Nat) (met : CodeUnit) :
    (quoting text offset met).getLast? = some (unit 'N') := by
  have ends : lit " is not valid JSON" = lit " is not valid JSO" ++ [unit 'N'] := by decide
  rw [quoting, ends, ← List.append_assoc, List.getLast?_concat]

namespace Fault

variable {f : Fault} {text : Text}

/-- A description that tells the offset of the fault names this offset. -/
theorem Told.named (h : f.Told text) :
    namedOffset? false (f.message text) = some (f.offset text) := by
  obtain ⟨words, told⟩ := h
  have last : (f.message text).getLast? = some (unit ')') := by rw [told, getLast?_place]
  have form := f.describes text
  generalize f.message text = message at last form ⊢
  cases form with
  | telling silent => exact namedOffset?_place silent text _
  | quoting met =>
    rw [getLast?_quoting] at last
    exact absurd last (by decide)
  | mute inside _ =>
    rw [List.getLast?_concat] at last
    exact absurd (Option.some.inj last) inside

/-- A description that quotes the text does not tell the offset. -/
theorem Imitated.untold (h : f.Imitated text) : ¬ f.Told text := by
  obtain ⟨⟨met, quoted⟩, _⟩ := h
  rintro ⟨words, told⟩
  have last := getLast?_place words text (f.offset text)
  rw [← told, quoted, getLast?_quoting] at last
  exact absurd last (by decide)

theorem Imitated.named (h : f.Imitated text) : ∃ offset,
    namedOffset? false (shownAround text (f.offset text)) = some offset ∧
    namedOffset? false (f.message text) = some offset := by
  obtain ⟨⟨met, quoted⟩, names⟩ := h
  obtain ⟨offset, found⟩ := Option.isSome_iff_exists.1 (Text.namesOffset_iff.1 names)
  exact ⟨offset, found, by rw [quoted, namedOffset?_quoting, found]⟩

/-- No other description names an offset. -/
theorem unnamed (untold : ¬ f.Told text) (genuine : ¬ f.Imitated text) :
    namedOffset? false (f.message text) = none := by
  have form := f.describes text
  generalize same : f.message text = message at form
  cases form with
  | telling => exact absurd ⟨_, same⟩ untold
  | quoting met =>
    rw [namedOffset?_quoting]
    cases found : namedOffset? false (shownAround text (f.offset text)) with
    | none => rfl
    | some offset =>
      exact absurd ⟨⟨met, same⟩, Text.namesOffset_iff.2 (by rw [found]; rfl)⟩ genuine
  | mute _ silent => exact silent

end Fault

end Json

/-! ## Reported places -/

namespace Tree

variable {text : Text} {fault : Json.Fault}

/-- The report of a fault of a JSON text, on any node of any tree. -/
theorem run_json_fault (rejected : Json.read text = .error fault) (name : Option Text)
    (node limit : Quantity) (handler : Handler) (t : Tree) :
    ((Request.run ⟨.json, .text text, name, limit⟩ node).perform (some handler) t).reports =
      [⟨lit "Invalid JSON document: " ++ fault.message text,
        some (location name ((namedOffset? false (fault.message text)).map fun offset =>
          { line := .known (.natural (text.locate (.natural offset)).line),
            column := .known (text.locate (.natural offset)).column }))⟩] := by
  have parsed : Format.json.parse text = .error (.worded (fault.message text)) := by
    rw [Format.parse, rejected]
  rw [run_text, Edit.perform_reported (load_error parsed name node limit t) rfl]
  rfl

/-- **The place that is reported for a fault.** A JSON text that cannot be read is reported once,
with the description of the fault, whatever the node, the tree, the limit and the handler. If the
description tells the offset of the fault, the report has the line and the column of this offset. A
description that does not tell it may quote a stretch of the text in which an offset is named; then
the report has the line and the column of that offset, although it is not the offset of the fault.
In all other cases it has neither. -/
theorem run_json_place (rejected : Json.read text = .error fault) (name : Option Text)
    (node limit : Quantity) (handler : Handler) (t : Tree) : ∃ place : Location,
    ((Request.run ⟨.json, .text text, name, limit⟩ node).perform (some handler) t).reports =
      [⟨lit "Invalid JSON document: " ++ fault.message text, some place⟩] ∧
    place.source = name.elim .missing .known ∧
    (fault.Told text → ∃ p : Position, text.IsAt (fault.offset text) p ∧
      place.line = .known (.natural p.line) ∧ place.column = .known (.natural p.column)) ∧
    (fault.Imitated text → ¬ fault.Told text ∧ ∃ (offset : Nat) (p : Position),
      namedOffset? false (Json.shownAround text (fault.offset text)) = some offset ∧
      text.IsAt (min offset text.length) p ∧
      place.line = .known (.natural p.line) ∧ place.column = .known (.natural p.column)) ∧
    (¬ fault.Told text → ¬ fault.Imitated text →
      place.line = .missing ∧ place.column = .missing) := by
  refine ⟨_, run_json_fault rejected name node limit handler t, rfl, ?_, ?_, ?_⟩
  · intro told
    obtain ⟨p, isAt, located⟩ := text.isAt_locate (fault.offset text)
    have inside : fault.offset text ≤ text.length := Nat.sub_le _ _
    rw [Nat.min_eq_left inside] at isAt
    rw [told.named, Option.map_some, located]
    exact ⟨p, isAt, rfl, rfl⟩
  · intro imitated
    obtain ⟨offset, found, named⟩ := imitated.named
    obtain ⟨p, isAt, located⟩ := text.isAt_locate offset
    rw [named, Option.map_some, located]
    exact ⟨imitated.untold, offset, p, found, isAt, rfl, rfl⟩
  · intro untold genuine
    rw [Json.Fault.unnamed untold genuine]
    exact ⟨rfl, rfl⟩

/-- The description of the fault of a text may quote the word and a number from the text itself. The
first unit cannot be read, and the report names the column after the third. -/
theorem run_json_place_imitated : ∃ (fault : Json.Fault) (place : Location),
    Json.read (lit "position 3") = .error fault ∧ ¬ fault.Told (lit "position 3") ∧
    fault.offset (lit "position 3") = 0 ∧
    ((Request.run ⟨.json, .text (lit "position 3"), none, defaultLimit⟩ (.natural 0)).perform
      (some Report.raise) new).reports =
      [⟨lit "Invalid JSON document: " ++
        lit "Unexpected token 'p', \"position 3\" is not valid JSON", some place⟩] ∧
    place.line = .known (.natural 1) ∧ place.column = .known (.natural 4) := by
  have rejected : Json.read (lit "position 3") = .error ⟨.unexpected, 10⟩ := rfl
  have message : Json.Fault.message ⟨.unexpected, 10⟩ (lit "position 3") =
      lit "Unexpected token 'p', \"position 3\" is not valid JSON" := by decide +kernel
  have imitated : Json.Fault.Imitated ⟨.unexpected, 10⟩ (lit "position 3") :=
    ⟨⟨unit 'p', by decide +kernel⟩, Text.namesOffset_iff.2 (by decide)⟩
  obtain ⟨place, reports, _, _, quoted, _⟩ :=
    run_json_place rejected none (.natural 0) defaultLimit Report.raise new
  rw [message] at reports
  obtain ⟨untold, offset, p, found, isAt, line, column⟩ := quoted imitated
  have third : offset = 3 := Option.some.inj (found.symm.trans (by decide))
  have first : p = ⟨1, 4⟩ := by
    rw [third] at isAt
    exact Text.IsAt.unique isAt ⟨[], lit "pos", nofun, by decide, rfl, rfl⟩
  rw [first] at line column
  exact ⟨_, place, rejected, untold, rfl, reports, line, column⟩

end Tree

end SpanTree
