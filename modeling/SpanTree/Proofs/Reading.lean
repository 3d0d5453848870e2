import Mathlib.Data.List.Forall2
import SpanTree.Proofs.Grammar

/-!
# Reading what the grammar spells

The reader takes every sentence of the grammar for the document that it spells.

* `Json.Taken`: a reader takes a text for a value wherever the value may end;
* `readList_eq`: a list of such texts is read as the list of the values;
* `readValue_eq`, `read_sentence`: so spellings are read, and whole texts.
-/

namespace SpanTree.Json

/-! ## Lists -/

/-- Nothing follows, or something that may follow a value. -/
def Ends (t : Text) : Prop :=
  ∀ u, t.head? = some u → isBlank u = true ∨ u = unit ',' ∨ u = unit ']' ∨ u = unit '\x7d'

theorem Ends.noMore {t : Text} (h : Ends t) : NoMore t := by
  intro u hu
  rcases h u hu with blank | rfl | rfl | rfl
  · simp only [isBlank, Bool.or_eq_true, decide_eq_true_eq] at blank
    rcases blank with ((rfl | rfl) | rfl) | rfl <;> decide
  · decide
  · decide
  · decide

theorem Ends.append {w rest : Text} (hw : Blank w) (h : Ends rest) : Ends (w ++ rest) := by
  cases w with
  | nil => exact h
  | cons u more =>
    intro v hv
    cases hv
    exact .inl (hw u List.mem_cons_self)

theorem ends_nil : Ends [] := nofun

theorem ends_of_mem {u : CodeUnit} (h : u = unit ',' ∨ u = unit ']' ∨ u = unit '\x7d')
    (rest : Text) : Ends (u :: rest) := by
  intro v hv
  cases hv
  exact .inr h

/-- A reader takes a text for a value where the value may end, leaving no more than white space of
the text, and the text does not look like the end of a list. -/
def Taken {α : Type} (entry : Text → Except Fault (α × Text)) (close : CodeUnit) (a : α)
    (s : Text) : Prop :=
  ∃ after, Blank after ∧ ∀ rest, Ends rest → entry (s ++ rest) = .ok (a, after ++ rest) ∧
    entry (skipBlanks (s ++ rest)) = .ok (a, after ++ rest) ∧
    (skipBlanks (s ++ rest)).head? ≠ some close

/-- The texts of a list after the first, each behind its comma. -/
def laterTexts (texts : List Text) : Text := texts.flatMap (unit ',' :: ·)

theorem join_cons (s : Text) (texts : List Text) :
    Text.join [unit ','] (s :: texts) = s ++ laterTexts texts := by
  induction texts generalizing s with
  | nil => exact (List.append_nil s).symm
  | cons s' texts ih =>
    rw [Text.join, ih, laterTexts, laterTexts, List.flatMap_cons, List.append_assoc]
    · rfl
    · exact List.cons_ne_nil _ _

theorem length_laterTexts (texts : List Text) : texts.length ≤ (laterTexts texts).length := by
  induction texts with
  | nil => exact Nat.le_refl 0
  | cons s texts ih =>
    simp only [laterTexts, List.flatMap_cons, List.length_append, List.length_cons] at ih ⊢
    omega

section Lists

variable {α : Type} {first later : Text → Except Fault (α × Text)} {close : CodeUnit}
  {unclosed : Cause} {values : List α} {texts : List Text}

theorem ends_later (hc : close = unit ']' ∨ close = unit '\x7d') (texts : List Text) {v : Text}
    (hv : Blank v) (rest : Text) : Ends (laterTexts texts ++ (v ++ close :: rest)) := by
  cases texts with
  | nil =>
    change Ends (v ++ close :: rest)
    exact .append hv (ends_of_mem (.inr hc) rest)
  | cons s texts => exact ends_of_mem (.inl rfl) _

theorem readMore_eq (hc : close = unit ']' ∨ close = unit '\x7d')
    (h : List.Forall₂ (Taken later close) values texts) {fuel after v : Text} (ha : Blank after)
    (hv : Blank v) (enough : texts.length < fuel.length) (rest : Text) :
    readMore later close unclosed fuel (after ++ (laterTexts texts ++ (v ++ close :: rest))) =
      .ok (values, rest) := by
  have comma : close ≠ unit ',' := by
    rcases hc with rfl | rfl <;> decide
  have blank : isBlank close = false := by
    rcases hc with rfl | rfl <;> rfl
  induction h generalizing fuel after with
  | nil =>
    cases fuel with
    | nil => exact absurd enough (Nat.not_lt_zero _)
    | cons u fuel =>
      have skip : skipBlanks (after ++ (laterTexts [] ++ (v ++ close :: rest))) =
          close :: rest := by
        rw [skipBlanks_append ha]
        exact (skipBlanks_append hv _).trans (skipBlanks_cons blank rest)
      rw [readMore, skip]
      dsimp only
      rw [if_neg comma, if_pos rfl]
      rfl
  | @cons a s values texts head _ ih =>
    cases fuel with
    | nil => exact absurd enough (Nat.not_lt_zero _)
    | cons u fuel =>
      have skip : skipBlanks (after ++ (laterTexts (s :: texts) ++ (v ++ close :: rest))) =
          unit ',' :: (s ++ (laterTexts texts ++ (v ++ close :: rest))) := by
        rw [skipBlanks_append ha, laterTexts, List.flatMap_cons, List.append_assoc]
        exact skipBlanks_cons rfl _
      obtain ⟨after', ha', taken⟩ := head
      have entry := (taken _ (ends_later hc texts hv rest)).1
      have more := ih ha' (Nat.lt_of_succ_lt_succ enough)
      rw [readMore, skip]
      dsimp only
      rw [if_pos rfl, entry]
      dsimp only [bind, Except.bind]
      rw [more]
      rfl

/-- A bracketed list of texts that are taken for values is read as the list of these. -/
theorem readList_eq (hc : close = unit ']' ∨ close = unit '\x7d')
    (hf : List.Forall₂ (Taken first close) values texts)
    (hl : List.Forall₂ (Taken later close) values texts) {w v : Text} (hw : Blank w)
    (hv : Blank v) (rest : Text) :
    readList first later close unclosed
      (w ++ (Text.join [unit ','] texts ++ (v ++ close :: rest))) = .ok (values, rest) := by
  have blank : isBlank close = false := by
    rcases hc with rfl | rfl <;> rfl
  cases hf with
  | nil =>
    have skip : skipBlanks (w ++ (Text.join [unit ','] [] ++ (v ++ close :: rest))) =
        close :: rest := by
      rw [skipBlanks_append hw]
      exact (skipBlanks_append hv _).trans (skipBlanks_cons blank rest)
    rw [readList, skip]
    exact if_pos rfl
  | @cons a s values texts head _ =>
    cases hl with
    | cons _ hl =>
      obtain ⟨after, ha, taken⟩ := head
      obtain ⟨_, entry, inside⟩ := taken _ (ends_later hc texts hv rest)
      have enough :
          texts.length < (after ++ (laterTexts texts ++ (v ++ close :: rest))).length := by
        have := length_laterTexts texts
        simp only [List.length_append, List.length_cons]
        omega
      have more := @readMore_eq _ _ _ unclosed _ _ hc hl _ _ _ ha hv enough rest
      rw [join_cons, List.append_assoc, readList, skipBlanks_append hw]
      dsimp only
      rw [if_neg inside, entry]
      dsimp only [bind, Except.bind]
      rw [more]
      rfl

end Lists

theorem length_le_join {s : Text} {texts : List Text} (h : s ∈ texts) :
    s.length ≤ (Text.join [unit ','] texts).length := by
  cases texts with
  | nil => cases h
  | cons first more =>
    rw [join_cons, List.length_append]
    rcases List.mem_cons.1 h with rfl | h
    · omega
    · have := (List.sublist_flatten_of_mem (List.mem_map_of_mem (f := (unit ',' :: ·)) h)).length_le
      rw [← List.flatMap_def] at this
      simp only [List.length_cons] at this
      unfold laterTexts
      omega

/-- A text between two brackets is shorter than all of it. -/
theorem length_lt_enclosed {s : Text} {texts : List Text} (h : s ∈ texts) (start stop : CodeUnit)
    (w v : Text) :
    s.length < (start :: (w ++ (Text.join [unit ','] texts ++ (v ++ [stop])))).length := by
  have inside := length_le_join h
  simp only [List.length_cons, List.length_append]
  omega

/-- A spelling begins like a value. -/
theorem Spells.head {j : Json} {t : Text} (h : Spells j t) :
    ∃ u more, t = u :: more ∧ isBlank u = false ∧ u ≠ unit ']' ∧ u ≠ unit '\x7d' := by
  cases j with
  | null =>
    rw [show t = _ from h]
    exact ⟨_, _, rfl, by decide⟩
  | boolean b =>
    rw [show t = _ from h]
    cases b <;> exact ⟨_, _, rfl, by decide⟩
  | number digits =>
    obtain ⟨rfl, sign, whole, f, x, hs, hw, _, _, rfl⟩ := h
    obtain ⟨u, more, rfl, hu⟩ := hw.head
    rcases hs with rfl | rfl
    · refine ⟨u, _, rfl, ?_, digit_ne hu rfl, digit_ne hu rfl⟩
      apply Bool.eq_false_iff.2
      intro blank
      simp only [isBlank, Bool.or_eq_true, decide_eq_true_eq] at blank
      rcases blank with ((rfl | rfl) | rfl) | rfl <;> cases hu
    · exact ⟨_, _, rfl, by decide⟩
  | string s =>
    obtain ⟨body, _, rfl⟩ := h
    exact ⟨_, _, rfl, by decide⟩
  | array items =>
    obtain ⟨w, texts, v, _, _, _, rfl⟩ := h
    exact ⟨_, _, rfl, by decide⟩
  | object members =>
    obtain ⟨w, texts, v, _, _, _, rfl⟩ := h
    exact ⟨_, _, rfl, by decide⟩

/-! ## Documents -/

theorem readWord_eq (word rest : Text) : readWord word (word ++ rest) = .ok rest := by
  induction word with
  | nil => rw [List.nil_append, readWord]
  | cons u word ih => rw [List.cons_append, readWord, if_pos rfl, ih]

mutual

/-- A spelling of a value is read as it, up to its end. The fuel may be any number above the length
of the spelling, since each bracket is a part of it. -/
theorem readValue_eq : ∀ (j : Json) {t : Text} (fuel : Nat), Spells j t → t.length < fuel →
    ∀ {before rest : Text}, Blank before → Ends rest →
      readValue fuel (before ++ (t ++ rest)) = .ok (j, rest)
  | _, _, 0, _, short, _, _, _, _ => absurd short (Nat.not_lt_zero _)
  | j, t, fuel + 1, h, short, before, rest, hb, hr => by
    obtain ⟨u, more, rfl, blank, _⟩ := h.head
    have skip : skipBlanks (before ++ (u :: more ++ rest)) = u :: (more ++ rest) := by
      rw [skipBlanks_append hb]
      exact skipBlanks_cons blank _
    rw [readValue, skip]
    dsimp only
    cases j with
    | null =>
      cases show u :: more = _ from h
      have word := readWord_eq (lit "null") rest
      exact (congrArg (fun r : Except Fault Text => do return (null, ← r)) word : _)
    | boolean b =>
      cases b with
      | false =>
        cases show u :: more = _ from h
        have word := readWord_eq (lit "false") rest
        exact (congrArg (fun r : Except Fault Text => do return (boolean false, ← r)) word : _)
      | true =>
        cases show u :: more = _ from h
        have word := readWord_eq (lit "true") rest
        exact (congrArg (fun r : Except Fault Text => do return (boolean true, ← r)) word : _)
    | number digits =>
      obtain ⟨rfl, numeral⟩ := h
      have scan := scanNumber_eq numeral hr.noMore
      have first : (decide (u = unit '-') || u.isDigit) = true := by
        obtain ⟨sign, whole, f, x, hs, hw, _, _, same⟩ := numeral
        obtain ⟨v, more', rfl, hv⟩ := hw.head
        rcases hs with rfl | rfl
        · cases same
          rw [hv, Bool.or_true]
        · cases same
          rfl
      have quote : u ≠ unit '"' := by
        rintro rfl
        cases first
      rw [if_neg quote, if_pos first, ← List.cons_append, scan]
      rfl
    | string s =>
      obtain ⟨body, units, same⟩ := h
      cases same
      have string := readString_eq units rest
      rw [if_pos rfl, List.append_assoc, List.singleton_append, string]
      rfl
    | array items =>
      obtain ⟨w, texts, v, hw, spelled, hv, same⟩ := h
      cases same
      have bound : ∀ s ∈ texts, s.length < fuel := fun s hs =>
        Nat.lt_of_lt_of_le (length_lt_enclosed hs _ _ w v) (Nat.le_of_lt_succ short)
      have taken := items_taken items fuel spelled bound
      have list := @readList_eq _ _ _ _ .unclosedArray _ _ (.inl rfl) taken taken _ _ hw hv rest
      simp only [List.append_assoc, List.singleton_append]
      exact (congrArg (fun r : Except Fault (List Json × Text) => do
        let (items, rest) ← r
        return (array items, rest)) list : _)
    | object members =>
      obtain ⟨w, texts, v, hw, spelled, hv, same⟩ := h
      cases same
      have bound : ∀ s ∈ texts, s.length < fuel := fun s hs =>
        Nat.lt_of_lt_of_le (length_lt_enclosed hs _ _ w v) (Nat.le_of_lt_succ short)
      have taken (missing : Cause) := members_taken members fuel missing spelled bound
      have list := @readList_eq _ _ _ _ .unclosedObject _ _ (.inr rfl) (taken .missingName)
        (taken .missingLaterName) _ _ hw hv rest
      simp only [List.append_assoc, List.singleton_append]
      exact (congrArg (fun r : Except Fault (List (Text × Json) × Text) => do
        let (members, rest) ← r
        return (object members, rest)) list : _)

theorem items_taken : ∀ (items : List Json) {texts : List Text} (fuel : Nat),
    SpellsItems items texts → (∀ s ∈ texts, s.length < fuel) →
      List.Forall₂ (Taken (readValue fuel) (unit ']')) items texts
  | [], _, _, h, _ => by
    rw [show _ = [] from h]
    exact .nil
  | item :: items, _, fuel, h, short => by
    obtain ⟨before, text, after, more, hb, spelled, ha, later, rfl⟩ := h
    refine .cons ?_ (items_taken items fuel later fun s hs => short s (List.mem_cons_of_mem _ hs))
    have enough : text.length < fuel := by
      have := short _ List.mem_cons_self
      simp only [List.length_append] at this
      omega
    obtain ⟨u, tail, rfl, blank, close, _⟩ := spelled.head
    refine ⟨after, ha, fun rest hr => ?_⟩
    have skip : skipBlanks (before ++ u :: tail ++ after ++ rest) =
        u :: tail ++ (after ++ rest) := by
      simp only [List.append_assoc]
      rw [skipBlanks_append hb]
      exact skipBlanks_cons blank _
    refine ⟨?_, ?_, ?_⟩
    · simp only [List.append_assoc]
      exact readValue_eq item fuel spelled enough hb (.append ha hr)
    · rw [skip]
      exact readValue_eq item fuel spelled enough blank_nil (.append ha hr)
    · rw [skip]
      intro same
      exact close (Option.some.inj same)

theorem members_taken : ∀ (members : List (Text × Json)) {texts : List Text} (fuel : Nat)
    (missing : Cause), SpellsMembers members texts → (∀ s ∈ texts, s.length < fuel) →
      List.Forall₂ (Taken (readMember (readValue fuel) missing) (unit '\x7d')) members texts
  | [], _, _, _, h, _ => by
    rw [show _ = [] from h]
    exact .nil
  | (key, value) :: members, _, fuel, missing, h, short => by
    obtain ⟨before, name, between, body, text, after, more, hb, units, hm, hv, spelled, ha,
      later, rfl⟩ := h
    refine .cons ?_ (members_taken members fuel missing later
      fun s hs => short s (List.mem_cons_of_mem _ hs))
    have enough : text.length < fuel := by
      have := short _ List.mem_cons_self
      simp only [List.length_append, List.length_cons] at this
      omega
    refine ⟨after, ha, fun rest hr => ?_⟩
    let tail : Text :=
      name ++ unit '"' :: (between ++ unit ':' :: (body ++ (text ++ (after ++ rest))))
    have skip : skipBlanks (before ++ unit '"' :: (name ++ unit '"' :: (between ++ unit ':' ::
        (body ++ text ++ after))) ++ rest) = unit '"' :: tail := by
      simp only [List.append_assoc, List.cons_append, tail]
      rw [skipBlanks_append hb]
      exact skipBlanks_cons rfl _
    have colon : skipBlanks (between ++ unit ':' :: (body ++ (text ++ (after ++ rest)))) =
        unit ':' :: (body ++ (text ++ (after ++ rest))) := by
      rw [skipBlanks_append hm]
      exact skipBlanks_cons rfl _
    have read (t : Text) (ht : skipBlanks t = unit '"' :: tail) :
        readMember (readValue fuel) missing t = .ok ((key, value), after ++ rest) := by
      rw [readMember, ht]
      refine (if_pos rfl).trans ?_
      rw [List.tail_cons, show readString tail = _ from readString_eq units _]
      change (if (skipBlanks (between ++ unit ':' :: (body ++ (text ++ (after ++ rest))))).head? =
        some (unit ':') then _ else _ : Except Fault ((Text × Json) × Text)) = _
      rw [colon]
      refine (if_pos rfl).trans ?_
      rw [List.tail_cons, readValue_eq value fuel spelled enough hv (.append ha hr)]
      rfl
    refine ⟨read _ skip, read _ ?_, ?_⟩
    · rw [skipBlanks_idem, skip]
    · rw [skip]
      exact fun same => absurd (Option.some.inj same) (by decide)

end

/-- A sentence of the grammar is read as the document that it spells. -/
theorem read_sentence {j : Json} {t : Text} (h : Sentence j t) : read t = .ok j := by
  obtain ⟨before, text, after, hb, spelled, ha, rfl⟩ := h
  have ends : Ends after := by
    have := Ends.append ha ends_nil
    rwa [List.append_nil] at this
  have enough : text.length < (before ++ text ++ after).length + 1 := by
    simp only [List.length_append]
    omega
  have value := readValue_eq j _ spelled enough hb ends
  rw [← List.append_assoc] at value
  rw [read, value]
  dsimp only [bind, Except.bind]
  rw [skipBlanks_blank ha]
  rfl

end SpanTree.Json
