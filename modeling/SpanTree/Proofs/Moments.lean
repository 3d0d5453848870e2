import SpanTree.Calendar.Moment
import SpanTree.Proofs.Presenting

/-!
# The texts of dates

The text of a date or of a time is written as such, whatever its instant.

* `dateOfDays_bounds`, `isoText_form`: the form of an instant within reach, which has a year of four
  or six digits and two digits for each of the other parts;
* `instant?_inReach`: every instant that a text names is within reach;
* `Within.written`: so the text of a moment is that of a date, whatever its shape.
-/

namespace SpanTree

open Json (Digits)

/-! ## The form of an instant -/

namespace Calendar

/-- Within reach, a year has at most six digits, a month two and a day two. -/
theorem dateOfDays_bounds (days : Int) (h : days.natAbs ≤ 100000001) :
    (dateOfDays days).1.natAbs < 10 ^ 6 ∧ (dateOfDays days).2.1 < 10 ^ 2 ∧
      (dateOfDays days).2.2 < 10 ^ 2 := by
  unfold dateOfDays
  dsimp only
  rw [Int.fdiv_eq_ediv_of_nonneg _ (by decide)]
  generalize hera : (days + 719468) / 146097 = era
  have bound : -1000 ≤ era ∧ era ≤ 1000 := by omega
  have low : 0 ≤ days + 719468 - era * 146097 := by omega
  have high : days + 719468 - era * 146097 < 146097 := by omega
  generalize days + 719468 - era * 146097 = dayOfEra at low high ⊢
  generalize hyear : (dayOfEra - dayOfEra / 1460 + dayOfEra / 36524 - dayOfEra / 146096) / 365 =
    yearOfEra
  have years : 0 ≤ yearOfEra ∧ yearOfEra ≤ 400 := by omega
  have days_ : -1000 ≤ dayOfEra - (365 * yearOfEra + yearOfEra / 4 - yearOfEra / 100) ∧
      dayOfEra - (365 * yearOfEra + yearOfEra / 4 - yearOfEra / 100) ≤ 1000 := by omega
  generalize dayOfEra - (365 * yearOfEra + yearOfEra / 4 - yearOfEra / 100) = dayOfYear at days_ ⊢
  generalize hmonth : (5 * dayOfYear + 2) / 153 = monthOfYear
  have months : -40 ≤ monthOfYear ∧ monthOfYear ≤ 40 := by omega
  refine ⟨?_, ?_, ?_⟩
  · split <;> split <;> omega
  · split <;> omega
  · omega

theorem digits_padded (width n : Nat) : Digits (padded width n) := by
  have digits := digits_ofNat n
  constructor
  · intro none
    exact digits.1 (List.append_eq_nil_iff.1 none).2
  · intro u hu
    rcases List.mem_append.1 hu with zero | digit
    · rw [List.eq_of_mem_replicate zero]
      rfl
    · exact digits.2 u digit

theorem length_padded {width n : Nat} (pos : 0 < width) (h : n < 10 ^ width) :
    (padded width n).length = width := by
  have short : (Text.ofNat n).length ≤ width := by
    rw [ofNat_eq, length_ofChars (isDigit_toDigits n)]
    exact (Nat.length_toDigits_le_iff (by decide) pos).2 h
  unfold padded
  rw [List.length_append, List.length_replicate]
  omega

/-- The parts of an instant in its text, up to the minutes. -/
structure Form (t sign year month day hour rest : Text) : Prop where
  text : t = sign ++ (year ++ unit '-' :: (month ++ unit '-' :: (day ++ unit 'T' ::
    (hour ++ unit ':' :: rest))))
  digits : Digits year
  years : (sign = [] ∧ year.length = 4) ∨
    ((sign = [unit '-'] ∨ sign = [unit '+']) ∧ year.length = 6)
  months : month.length = 2
  days : day.length = 2
  hours : hour.length = 2
  ascii : t.Ascii
  more : rest ≠ []

theorem yearText_eq {year : Int} (h : year.natAbs < 10 ^ 6) : ∃ sign ds,
    yearText year = sign ++ ds ∧ Digits ds ∧ ((sign = [] ∧ ds.length = 4) ∨
      ((sign = [unit '-'] ∨ sign = [unit '+']) ∧ ds.length = 6)) := by
  unfold yearText
  split
  · exact ⟨[], _, rfl, digits_padded _ _, .inl ⟨rfl, length_padded (by decide) (by omega)⟩⟩
  · split
    · exact ⟨[unit '-'], _, rfl, digits_padded _ _,
        .inr ⟨.inl rfl, length_padded (by decide) h⟩⟩
    · exact ⟨[unit '+'], _, rfl, digits_padded _ _,
        .inr ⟨.inr rfl, length_padded (by decide) h⟩⟩

/-- The text of an instant within reach has its form. -/
theorem isoText_form {time : Int} (h : time.natAbs ≤ reach.natAbs) :
    ∃ sign year month day hour rest, Form (isoText time) sign year month day hour rest := by
  have reach_ : reach.natAbs = 8640000000000000 := rfl
  have fdiv : time.fdiv dayLength = time / 86400000 := Int.fdiv_eq_ediv_of_nonneg _ (by decide)
  obtain ⟨years, months, days⟩ := dateOfDays_bounds (time.fdiv dayLength) (by omega)
  obtain ⟨sign, year, yearEq, digits, form⟩ := yearText_eq years
  have hours : (time - time.fdiv dayLength * dayLength).toNat / 3600000 < 10 ^ 2 := by
    rw [fdiv, dayLength]
    omega
  obtain ⟨minute, second, thousandth, text⟩ : ∃ minute second thousandth : Nat, isoText time =
      sign ++ (year ++ unit '-' :: (padded 2 (dateOfDays (time.fdiv dayLength)).2.1 ++ unit '-' ::
        (padded 2 (dateOfDays (time.fdiv dayLength)).2.2 ++ unit 'T' ::
          (padded 2 ((time - time.fdiv dayLength * dayLength).toNat / 3600000) ++ unit ':' ::
            (padded 2 minute ++ (lit ":" ++ (padded 2 second ++ (lit "." ++
              (padded 3 thousandth ++ lit "Z"))))))))) := by
    have dash : lit "-" = [unit '-'] := rfl
    have letter : lit "T" = [unit 'T'] := rfl
    have colon : lit ":" = [unit ':'] := rfl
    refine ⟨(time - time.fdiv dayLength * dayLength).toNat / 60000 % 60,
      (time - time.fdiv dayLength * dayLength).toNat / 1000 % 60,
      (time - time.fdiv dayLength * dayLength).toNat % 1000, ?_⟩
    unfold isoText
    dsimp only
    rw [yearEq, dash, letter, colon]
    simp only [List.append_assoc, List.cons_append, List.nil_append]
  refine ⟨sign, year, _, _, _, _, text, digits, form, length_padded (by decide) months,
    length_padded (by decide) days, length_padded (by decide) hours, ?_,
    List.append_ne_nil_of_left_ne_nil (digits_padded _ _).1 _⟩
  have number (width n : Nat) : (padded width n).Ascii := (digits_padded width n).ascii
  have colon : (lit ":").Ascii := Text.ascii_of_all rfl
  have point : (lit ".").Ascii := Text.ascii_of_all rfl
  have zone : (lit "Z").Ascii := Text.ascii_of_all rfl
  have cons {c : Char} (hc : unit c < 0x80) {t : Text} (ht : t.Ascii) :
      Text.Ascii (unit c :: t) := by
    intro u hu
    rcases List.mem_cons.1 hu with rfl | hu
    · exact hc
    · exact ht u hu
  have signs : sign.Ascii := by
    rcases form with ⟨rfl, _⟩ | ⟨rfl | rfl, _⟩
    · nofun
    · exact cons (by decide) nofun
    · exact cons (by decide) nofun
  rw [text]
  refine signs.append (digits.ascii.append (cons (by decide) ((number _ _).append
    (cons (by decide) ((number _ _).append (cons (by decide) ((number _ _).append
      (cons (by decide) ((number _ _).append ?_)))))))))
  exact colon.append ((number _ _).append (point.append ((number _ _).append zone)))

/-- The colon behind the hour is not the last unit. -/
theorem Form.colon {t sign year month day hour rest : Text}
    (h : Form t sign year month day hour rest) : unit ':' ∈ t.dropLast := by
  have text : t =
      (sign ++ (year ++ unit '-' :: (month ++ unit '-' :: (day ++ unit 'T' :: hour)))) ++
        unit ':' :: rest := by
    rw [h.text]
    simp only [List.append_assoc, List.cons_append]
  rw [text, List.dropLast_append_cons, List.dropLast_cons_of_ne_nil h.more]
  exact List.mem_append_right _ List.mem_cons_self

/-- The first ten units of an instant have a dash behind the digits of the year. -/
theorem Form.date {t sign year month day hour rest : Text}
    (h : Form t sign year month day hour rest) :
    ∃ more, t.take 10 = sign ++ (year ++ unit '-' :: more) := by
  have short : (sign ++ year).length < 10 := by
    rw [List.length_append]
    rcases h.years with ⟨rfl, years⟩ | ⟨rfl | rfl, years⟩
    · rw [years]
      decide
    · rw [years]
      decide
    · rw [years]
      decide
  obtain ⟨n, hn⟩ : ∃ n, 10 - (sign ++ year).length = n + 1 := ⟨9 - (sign ++ year).length, by omega⟩
  rw [h.text, ← List.append_assoc, List.take_append, List.take_of_length_le (by omega), hn,
    List.take_succ_cons, List.append_assoc]
  exact ⟨_, rfl⟩

theorem mem_window {front middle rest : Text} (hf : front.length = 11) (hm : middle.length = 2)
    (u : CodeUnit) : u ∈ ((front ++ (middle ++ u :: rest)).drop 11).take 12 := by
  rw [← hf, List.drop_left, List.take_append, hm]
  exact List.mem_append_right _ List.mem_cons_self

/-- Where the time of day stands, there is a colon, or a letter behind a year of six digits. -/
theorem Form.time {t sign year month day hour rest : Text}
    (h : Form t sign year month day hour rest) :
    ∃ u ∈ (t.drop 11).take 12, u = unit ':' ∨ u = unit 'T' := by
  rcases h.years with ⟨rfl, years⟩ | ⟨one, years⟩
  · have text : t = (year ++ unit '-' :: (month ++ unit '-' :: (day ++ [unit 'T']))) ++
        (hour ++ unit ':' :: rest) := by
      rw [h.text]
      simp only [List.append_assoc, List.cons_append, List.nil_append]
    refine ⟨unit ':', ?_, .inl rfl⟩
    rw [text]
    apply mem_window _ h.hours
    simp only [List.length_append, List.length_cons, List.length_nil, years, h.months, h.days]
  · have text : t = (sign ++ (year ++ unit '-' :: (month ++ [unit '-']))) ++
        (day ++ unit 'T' :: (hour ++ unit ':' :: rest)) := by
      rw [h.text]
      simp only [List.append_assoc, List.cons_append, List.nil_append]
    have single : sign.length = 1 := by
      rcases one with rfl | rfl
      · rfl
      · rfl
    refine ⟨unit 'T', ?_, .inr rfl⟩
    rw [text]
    apply mem_window _ h.days
    simp only [List.length_append, List.length_cons, List.length_nil, single, years, h.months]

/-! ## Instants within reach -/

theorem inReach_ok {n time : Int} (h : inReach n = some time) : time.natAbs ≤ reach.natAbs := by
  unfold inReach at h
  split at h
  · next near =>
    cases h
    exact near
  · cases h

theorem Draft.instant?_inReach {d : Draft} {time : Int} (h : d.instant? = some time) :
    time.natAbs ≤ reach.natAbs := by
  obtain ⟨day, _, h⟩ := Option.bind_eq_some_iff.1 h
  obtain ⟨clock, _, h⟩ := Option.bind_eq_some_iff.1 h
  exact inReach_ok h

/-- Every instant that a text names is within reach. -/
theorem instant?_inReach {t : Text} {time : Int} (h : instant? t = some time) :
    time.natAbs ≤ reach.natAbs := by
  unfold instant? at h
  split at h
  · next year tokens _ =>
    generalize standardDate tokens = parts at h
    obtain ⟨numbers, rest, kept⟩ := parts
    dsimp only at h
    have loose
        (h : (Draft.read { numbers := year :: numbers } rest).bind Draft.instant? = some time) :
        time.natAbs ≤ reach.natAbs := by
      obtain ⟨draft, _, h⟩ := Option.bind_eq_some_iff.1 h
      exact Draft.instant?_inReach h
    split at h
    · split at h
      · obtain ⟨day, _, h⟩ := Option.bind_eq_some_iff.1 h
        exact inReach_ok h
      · obtain ⟨clock, _, h⟩ := Option.bind_eq_some_iff.1 h
        obtain ⟨day, _, h⟩ := Option.bind_eq_some_iff.1 h
        exact inReach_ok h
      · exact loose h
    · exact loose h
  · cases h

end Calendar

namespace Moment

open Calendar

/-- The instant of a moment is within reach, if it has one. -/
def Within (m : Moment) : Prop := ∀ time, m.time = some time → time.natAbs ≤ reach.natAbs

theorem withinDay?_inReach {hour whole : Text} {time : Int}
    (h : withinDay? hour whole = some time) : time.natAbs ≤ reach.natAbs := by
  unfold withinDay? at h
  split at h
  · cases h
  · exact instant?_inReach h

theorem ofDate_within (t : Text) : (ofDate t).Within := fun _ h => instant?_inReach h

theorem ofTime_within (t : Text) : (ofTime t).Within := by
  intro time h
  unfold ofTime at h
  dsimp only at h
  exact withinDay?_inReach h

theorem ofLocal_within (t : Text) : (ofLocal t).Within := by
  intro time h
  unfold ofLocal at h
  dsimp only at h
  exact withinDay?_inReach h

theorem ofZoned_within (t : Text) : (ofZoned t).Within := by
  intro time h
  unfold ofZoned at h
  dsimp only at h
  exact withinDay?_inReach h

/-- The text of a moment within reach is written as that of a date. -/
theorem Within.written {m : Moment} (h : m.Within) : m.value.Written := by
  intro t ht
  obtain ⟨time, hm, ht⟩ := Option.bind_eq_some_iff.1 ht
  obtain ⟨sign, year, month, day, hour, rest, form⟩ := isoText_form (h time hm)
  -- With a colon, only the beginning of the text matters.
  have marked {u : CodeUnit} {front back : Text} (hu : u = unit ':' ∨ u = unit 'T')
      (inside : u ∈ front) (ascii : front.Ascii) (same : front ++ back = t) : t.Temporal := by
    subst same
    refine ⟨?_, .inl ⟨u, List.mem_append_left _ inside, hu⟩⟩
    cases front with
    | nil => cases inside
    | cons first more => exact ascii.unmarked
  have ascii {part : Text} (sub : part ⊆ isoText time) : part.Ascii :=
    fun u hu => form.ascii u (sub hu)
  have whole (same : isoText time = t) : t.Temporal :=
    marked (.inl rfl) (List.dropLast_subset _ form.colon) form.ascii
      ((List.append_nil _).trans same)
  dsimp only at ht
  split at ht
  · exact whole (Option.some.inj ht)
  · have cut := Option.some.inj ht
    have plain : t.Ascii := by
      rw [← cut]
      exact ascii (List.take_subset _ _)
    obtain ⟨more, dashed⟩ := form.date
    rw [cut] at dashed
    have signs : sign = [] ∨ sign = [unit '-'] ∨ sign = [unit '+'] := by
      rcases form.years with ⟨none, _⟩ | ⟨minus | plus, _⟩
      · exact .inl none
      · exact .inr (.inl minus)
      · exact .inr (.inr plus)
    exact ⟨plain.unmarked, .inr ⟨plain, sign, year, more, signs, form.digits, dashed⟩⟩
  · obtain ⟨u, inside, hu⟩ := form.time
    refine marked hu inside (ascii ?_) ((List.append_nil _).trans (Option.some.inj ht))
    exact fun v hv => List.drop_subset _ _ (List.take_subset _ _ hv)
  · exact marked (.inl rfl) form.colon (ascii (List.dropLast_subset _))
      ((List.append_nil _).trans (Option.some.inj ht))
  · split at ht
    · exact whole (Option.some.inj ht)
    · next offset _ =>
      obtain ⟨shifted, near, ht⟩ := Option.bind_eq_some_iff.1 ht
      obtain ⟨_, _, near⟩ := Option.bind_eq_some_iff.1 near
      obtain ⟨sign, year, month, day, hour, rest, form⟩ := isoText_form (inReach_ok near)
      refine marked (.inl rfl) form.colon ?_ (Option.some.inj ht)
      exact fun u hu => form.ascii u (List.dropLast_subset _ hu)

end Moment

end SpanTree
