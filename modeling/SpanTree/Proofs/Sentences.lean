import SpanTree.Proofs.Reading

/-!
# What is read is spelled

The reader accepts no text but the sentences of the grammar.

* `Json.Takes`: what a reader takes from the front of a text is a spelling of what it answers;
* `readString_ok`, `readList_ok`, `readMember_ok`: strings, lists and members;
* `readValue_ok`: values, by induction on how deep they may nest;
* `read_iff`: a text is read as a document exactly if it is a sentence of it.
-/

namespace SpanTree.Json

/-! ## Strings and words -/

/-- The white space in front of a text. -/
theorem skipBlanks_split (t : Text) : ∃ w, Blank w ∧ t = w ++ skipBlanks t :=
  ⟨t.takeWhile isBlank, fun _ hu => List.all_eq_true.1 List.all_takeWhile _ hu,
    List.takeWhile_append_dropWhile.symm⟩

theorem mem_escapes {e v : CodeUnit} (h : shortEscape? e = some v) : (e, v) ∈ escapes := by
  unfold shortEscape? at h
  split at h
  · next itself =>
    cases h
    simp only [Bool.or_eq_true, decide_eq_true_eq] at itself
    rcases itself with (rfl | rfl) | rfl <;> decide
  split at h
  · next hb => cases h; rw [hb]; decide
  split at h
  · next hf => cases h; rw [hf]; decide
  split at h
  · next hn => cases h; rw [hn]; decide
  split at h
  · next hr => cases h; rw [hr]; decide
  split at h
  · next ht => cases h; rw [ht]; decide
  · cases h

theorem consUnit_ok {u : CodeUnit} {r : Except Fault (Text × Text)} {s rest : Text}
    (h : consUnit u r = .ok (s, rest)) : ∃ more, s = u :: more ∧ r = .ok (more, rest) := by
  cases r with
  | error f => cases h
  | ok found =>
    cases h
    exact ⟨_, rfl, rfl⟩

theorem hexUnit?_some {a b c d v : CodeUnit} (h : hexUnit? a b c d = some v) :
    ∃ p q r o, a.hexValue? = some p ∧ b.hexValue? = some q ∧ c.hexValue? = some r ∧
      d.hexValue? = some o ∧ v = (((p * 16 + q) * 16 + r) * 16 + o).toUInt16 := by
  unfold hexUnit? at h
  obtain ⟨p, hp, h⟩ := Option.bind_eq_some_iff.1 h
  obtain ⟨q, hq, h⟩ := Option.bind_eq_some_iff.1 h
  obtain ⟨r, hr, h⟩ := Option.bind_eq_some_iff.1 h
  obtain ⟨o, ho, h⟩ := Option.bind_eq_some_iff.1 h
  cases h
  exact ⟨p, q, r, o, hp, hq, hr, ho, rfl⟩

/-- What is read as a string are its units up to the closing quote. -/
theorem readString_ok {t s rest : Text} (h : readString t = .ok (s, rest)) :
    ∃ body, Units body s ∧ t = body ++ unit '"' :: rest := by
  fun_induction readString t generalizing s with
  | case1 | case3 | case4 | case5 | case7 | case8 | case10 => cases h
  | case2 =>
    cases h
    exact ⟨[], .nil, rfl⟩
  | case6 a b c d after v hex _ _ _ ih =>
    obtain ⟨more, rfl, inside⟩ := consUnit_ok h
    obtain ⟨body, units, rfl⟩ := ih inside
    obtain ⟨p, q, r, o, ha, hb, hc, hd, rfl⟩ := hexUnit?_some hex
    exact ⟨_, .code ha hb hc hd units, rfl⟩
  | case9 e after _ _ v short _ _ ih =>
    obtain ⟨more, rfl, inside⟩ := consUnit_ok h
    obtain ⟨body, units, rfl⟩ := ih inside
    exact ⟨_, .short (mem_escapes short) units, rfl⟩
  | case11 u after quote control backslash ih =>
    obtain ⟨more, rfl, inside⟩ := consUnit_ok h
    obtain ⟨body, units, rfl⟩ := ih inside
    exact ⟨_, .plain control quote backslash units, rfl⟩

theorem readWord_ok {word t rest : Text} (h : readWord word t = .ok rest) : t = word ++ rest := by
  induction word generalizing t with
  | nil =>
    cases h
    rfl
  | cons w word ih =>
    cases t with
    | nil => cases h
    | cons u t =>
      rw [readWord] at h
      split at h
      · next same => rw [same, ih h, List.cons_append]
      · cases h

/-! ## Lists -/

theorem bind_ok_inv {α β : Type} {x : Except Fault α} {f : α → Except Fault β} {b : β}
    (h : (x >>= f) = .ok b) : ∃ a, x = .ok a ∧ f a = .ok b := by
  cases x with
  | error e => cases h
  | ok a => exact ⟨a, rfl, h⟩

/-- What a reader takes from the front of a text is a spelling of what it answers, behind white
space. -/
def Takes {α : Type} (spells : α → Text → Prop) (entry : Text → Except Fault (α × Text)) : Prop :=
  ∀ t a rest, entry t = .ok (a, rest) →
    ∃ before text, Blank before ∧ spells a text ∧ t = before ++ (text ++ rest)

/-- A spelling with white space around it. -/
def Padded {α : Type} (spells : α → Text → Prop) (a : α) (s : Text) : Prop :=
  ∃ before text after, Blank before ∧ spells a text ∧ Blank after ∧ s = before ++ text ++ after

section Lists

variable {α : Type} {spells : α → Text → Prop} {first later : Text → Except Fault (α × Text)}
  {close : CodeUnit} {unclosed : Cause} {values : List α}

/-- The white space before a comma or the end belongs to the entry before it. -/
theorem readMore_ok (takes : Takes spells later) {fuel t rest : Text}
    (h : readMore later close unclosed fuel t = .ok (values, rest)) :
    ∃ after texts, Blank after ∧ List.Forall₂ (Padded spells) values texts ∧
      t = after ++ (laterTexts texts ++ close :: rest) := by
  induction fuel generalizing t values with
  | nil => cases h
  | cons _ fuel ih =>
    obtain ⟨after, blank, split⟩ := skipBlanks_split t
    rw [readMore] at h
    cases hs : skipBlanks t with
    | nil =>
      rw [hs] at h
      cases h
    | cons u more =>
      rw [hs] at h split
      dsimp only at h
      split at h
      · next comma =>
        obtain ⟨⟨a, rest₁⟩, entry, h⟩ := bind_ok_inv h
        obtain ⟨⟨values, rest₂⟩, following, h⟩ := bind_ok_inv h
        cases h
        obtain ⟨before, text, hb, spelled, rfl⟩ := takes _ _ _ entry
        obtain ⟨after', texts, ha, padded, rfl⟩ := ih following
        refine ⟨after, (before ++ text ++ after') :: texts, blank,
          .cons ⟨before, text, after', hb, spelled, ha, rfl⟩ padded, ?_⟩
        rw [split, comma]
        simp only [laterTexts, List.flatMap_cons, List.cons_append, List.append_assoc]
      · split at h
        · next same =>
          cases h
          exact ⟨after, [], blank, .nil, by rw [split, same]; rfl⟩
        · cases h

/-- What is read as a list are spellings between commas. -/
theorem readList_ok (takesFirst : Takes spells first) (takesLater : Takes spells later)
    {t rest : Text} (h : readList first later close unclosed t = .ok (values, rest)) :
    ∃ w texts, Blank w ∧ List.Forall₂ (Padded spells) values texts ∧
      t = w ++ (Text.join [unit ','] texts ++ close :: rest) := by
  obtain ⟨w, blank, split⟩ := skipBlanks_split t
  unfold readList at h
  dsimp only at h
  split at h
  · next closed =>
    cases h
    refine ⟨w, [], blank, .nil, split.trans ?_⟩
    rw [← List.cons_head?_tail closed]
    rfl
  · obtain ⟨⟨a, rest₁⟩, entry, h⟩ := bind_ok_inv h
    obtain ⟨⟨values, rest₂⟩, following, h⟩ := bind_ok_inv h
    cases h
    obtain ⟨before, text, hb, spelled, front⟩ := takesFirst _ _ _ entry
    obtain ⟨after, texts, ha, padded, rfl⟩ := readMore_ok takesLater following
    refine ⟨w, (before ++ text ++ after) :: texts, blank,
      .cons ⟨before, text, after, hb, spelled, ha, rfl⟩ padded, ?_⟩
    rw [split, front, join_cons]
    simp only [List.append_assoc]

end Lists

/-! ## Values -/

/-- A member: a string, a colon and a value, with white space before and after the colon. -/
def SpellsMember (m : Text × Json) (s : Text) : Prop :=
  ∃ name between body text, Units name m.1 ∧ Blank between ∧ Blank body ∧ Spells m.2 text ∧
    s = unit '"' :: (name ++ unit '"' :: (between ++ unit ':' :: (body ++ text)))

theorem spellsItems_of_padded {items : List Json} {texts : List Text}
    (h : List.Forall₂ (Padded Spells) items texts) : SpellsItems items texts := by
  induction h with
  | nil => rfl
  | cons padded _ ih =>
    obtain ⟨before, text, after, hb, spelled, ha, rfl⟩ := padded
    exact ⟨before, text, after, _, hb, spelled, ha, ih, rfl⟩

theorem spellsMembers_of_padded {members : List (Text × Json)} {texts : List Text}
    (h : List.Forall₂ (Padded SpellsMember) members texts) : SpellsMembers members texts := by
  induction h with
  | nil => rfl
  | cons padded _ ih =>
    obtain ⟨before, _, after, hb, ⟨name, between, body, text, hn, hm, hv, spelled, rfl⟩, ha, rfl⟩ :=
      padded
    refine ⟨before, name, between, body, text, after, _, hb, hn, hm, hv, spelled, ha, ih, ?_⟩
    simp only [List.cons_append, List.append_assoc]

theorem readMember_ok {value : Text → Except Fault (Json × Text)} (takes : Takes Spells value)
    (missing : Cause) : Takes SpellsMember (readMember value missing) := by
  intro t m rest h
  obtain ⟨before, hb, split⟩ := skipBlanks_split t
  unfold readMember at h
  dsimp only at h
  split at h
  · next quoted =>
    obtain ⟨⟨key, rest₁⟩, string, h⟩ := bind_ok_inv h
    obtain ⟨name, units, inside⟩ := readString_ok string
    obtain ⟨between, hm, split'⟩ := skipBlanks_split rest₁
    dsimp only at h
    split at h
    · next colon =>
      obtain ⟨⟨v, rest₂⟩, read, h⟩ := bind_ok_inv h
      cases h
      obtain ⟨body, text, hv, spelled, after⟩ := takes _ _ _ read
      refine ⟨before, _, hb, ⟨name, between, body, text, units, hm, hv, spelled, rfl⟩, ?_⟩
      rw [split, ← List.cons_head?_tail quoted, inside, split', ← List.cons_head?_tail colon, after]
      simp only [List.cons_append, List.append_assoc]
    · cases h
  · cases h

/-- What is read as a value is a spelling of it, however deep it may nest. -/
theorem readValue_ok (fuel : Nat) : Takes Spells (readValue fuel) := by
  induction fuel with
  | zero => nofun
  | succ fuel ih =>
    intro t j rest h
    obtain ⟨before, hb, split⟩ := skipBlanks_split t
    rw [readValue] at h
    cases hs : skipBlanks t with
    | nil =>
      rw [hs] at h
      cases h
    | cons u more =>
      rw [hs] at h split
      dsimp only at h
      refine ⟨before, ?_⟩
      split at h
      · next quote =>
        obtain ⟨⟨s, rest⟩, string, h⟩ := bind_ok_inv h
        cases h
        obtain ⟨body, units, rfl⟩ := readString_ok string
        refine ⟨_, hb, ⟨body, units, rfl⟩, ?_⟩
        rw [split, quote]
        simp only [List.cons_append, List.append_assoc, List.nil_append]
      split at h
      · obtain ⟨⟨digits, rest⟩, scanned, h⟩ := bind_ok_inv h
        cases h
        obtain ⟨numeral, same⟩ := scanNumber_ok scanned
        exact ⟨digits, hb, ⟨rfl, numeral⟩, by rw [split, same]⟩
      split at h
      · obtain ⟨rest, word, h⟩ := bind_ok_inv h
        cases h
        exact ⟨_, hb, rfl, by rw [split, readWord_ok word]; rfl⟩
      split at h
      · obtain ⟨rest, word, h⟩ := bind_ok_inv h
        cases h
        exact ⟨_, hb, rfl, by rw [split, readWord_ok word]; rfl⟩
      split at h
      · obtain ⟨rest, word, h⟩ := bind_ok_inv h
        cases h
        exact ⟨_, hb, rfl, by rw [split, readWord_ok word]⟩
      split at h
      · next brace =>
        obtain ⟨⟨members, rest⟩, list, h⟩ := bind_ok_inv h
        cases h
        obtain ⟨w, texts, hw, padded, rfl⟩ :=
          readList_ok (readMember_ok ih _) (readMember_ok ih _) list
        refine ⟨_, hb, ⟨w, texts, [], hw, spellsMembers_of_padded padded, blank_nil, rfl⟩, ?_⟩
        rw [split, brace]
        simp only [List.cons_append, List.append_assoc, List.nil_append]
      split at h
      · next bracket =>
        obtain ⟨⟨items, rest⟩, list, h⟩ := bind_ok_inv h
        cases h
        obtain ⟨w, texts, hw, padded, rfl⟩ := readList_ok ih ih list
        refine ⟨_, hb, ⟨w, texts, [], hw, spellsItems_of_padded padded, blank_nil, rfl⟩, ?_⟩
        rw [split, bracket]
        simp only [List.cons_append, List.append_assoc, List.nil_append]
      · cases h

/-- A text is read as a document exactly if it is a sentence of it. -/
theorem read_iff {j : Json} {t : Text} : read t = .ok j ↔ Sentence j t := by
  refine ⟨fun h => ?_, read_sentence⟩
  obtain ⟨⟨j', rest⟩, value, ending⟩ := bind_ok_inv h
  obtain ⟨before, text, hb, spelled, same⟩ := readValue_ok _ _ _ _ value
  obtain ⟨after, ha, split⟩ := skipBlanks_split rest
  dsimp only at ending
  split at ending
  · next ended =>
    cases ending
    rw [ended, List.append_nil] at split
    rw [split] at same
    exact ⟨before, text, after, hb, spelled, ha, same.trans (List.append_assoc _ _ _).symm⟩
  · cases ending

end SpanTree.Json
