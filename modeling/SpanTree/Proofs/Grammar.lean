import SpanTree.Json.Reader
import SpanTree.Text.Quoted

/-!
# The grammar of JSON

The productions of RFC 8259, as relations between documents and texts.

* `Json.Numeral`: the texts of numbers, and `isNumber_iff`: these are what `isNumber` recognises;
* `Json.Units`: how a text is spelled between its quotes, and `units_escape`: every text has a
  spelling there;
* `Json.Spells`, `Json.Sentence`: how a document is spelled, without and with white space around it.
-/

namespace SpanTree.Json

/-! ## White space -/

def Blank (w : Text) : Prop := ∀ u ∈ w, isBlank u = true

theorem blank_nil : Blank [] := nofun

theorem Blank.append {w v : Text} (hw : Blank w) (hv : Blank v) : Blank (w ++ v) := by
  intro u hu
  rcases List.mem_append.1 hu with h | h
  · exact hw u h
  · exact hv u h

theorem skipBlanks_append {w : Text} (h : Blank w) (t : Text) :
    skipBlanks (w ++ t) = skipBlanks t := List.dropWhile_append_of_pos h

theorem skipBlanks_cons {u : CodeUnit} (h : isBlank u = false) (t : Text) :
    skipBlanks (u :: t) = u :: t := by
  unfold skipBlanks
  rw [List.dropWhile_cons, if_neg (by rw [h]; decide)]

theorem skipBlanks_blank {w : Text} (h : Blank w) : skipBlanks w = [] := by
  have := skipBlanks_append h []
  rwa [List.append_nil] at this

theorem skipBlanks_idem (t : Text) : skipBlanks (skipBlanks t) = skipBlanks t := by
  unfold skipBlanks
  induction t with
  | nil => rfl
  | cons u rest ih =>
    rw [List.dropWhile_cons]
    split
    · exact ih
    · next h => rw [List.dropWhile_cons, if_neg h]

/-! ## Numbers -/

def Digits (t : Text) : Prop := t ≠ [] ∧ ∀ u ∈ t, u.isDigit = true

/-- A zero, or digits that do not begin with one. -/
def Whole (t : Text) : Prop := t = [unit '0'] ∨ (Digits t ∧ t.head? ≠ some (unit '0'))

/-- Nothing, or a point and digits. -/
def Fraction (t : Text) : Prop := t = [] ∨ ∃ d, Digits d ∧ t = unit '.' :: d

/-- Nothing, or a letter of either case, a sign if there is one, and digits. -/
def Exponent (t : Text) : Prop :=
  t = [] ∨ ∃ e s d, (e = unit 'e' ∨ e = unit 'E') ∧
    (s = [] ∨ s = [unit '+'] ∨ s = [unit '-']) ∧ Digits d ∧ t = e :: (s ++ d)

/-- A number: a minus sign if there is one, a whole part, a fraction and an exponent. -/
def Numeral (t : Text) : Prop :=
  ∃ sign whole fraction exponent, (sign = [] ∨ sign = [unit '-']) ∧ Whole whole ∧
    Fraction fraction ∧ Exponent exponent ∧ t = sign ++ (whole ++ (fraction ++ exponent))

/-- No number goes on in a text. -/
def NoMore (t : Text) : Prop :=
  ∀ u, t.head? = some u →
    u.isDigit = false ∧ u ≠ unit '.' ∧ u ≠ unit 'e' ∧ u ≠ unit 'E'

theorem noMore_nil : NoMore [] := nofun

/-- Digits end where no digit follows. -/
theorem span_digits {d rest : Text} (hd : ∀ u ∈ d, u.isDigit = true)
    (stop : ∀ u, rest.head? = some u → u.isDigit = false) :
    (d ++ rest).takeWhile CodeUnit.isDigit = d ∧ (d ++ rest).dropWhile CodeUnit.isDigit = rest := by
  have none : rest.takeWhile CodeUnit.isDigit = [] ∧ rest.dropWhile CodeUnit.isDigit = rest := by
    cases rest with
    | nil => exact ⟨rfl, rfl⟩
    | cons u more =>
      have hu : u.isDigit = false := stop u rfl
      rw [List.takeWhile_cons, List.dropWhile_cons, hu]
      exact ⟨rfl, rfl⟩
  rw [List.takeWhile_append_of_pos hd, List.dropWhile_append_of_pos hd, none.1, none.2,
    List.append_nil]
  exact ⟨rfl, rfl⟩

theorem Digits.head {d : Text} (h : Digits d) (rest : Text) :
    (d ++ rest).head?.any CodeUnit.isDigit = true := by
  cases d with
  | nil => exact absurd rfl h.1
  | cons u more => exact h.2 u List.mem_cons_self

theorem scanDigits_eq (cause : Cause) (lead : Text) {d rest : Text} (h : Digits d)
    (stop : ∀ u, rest.head? = some u → u.isDigit = false) :
    scanDigits cause lead (d ++ rest) = .ok (lead ++ d, rest) := by
  obtain ⟨take, drop⟩ := span_digits h.2 stop
  unfold scanDigits
  rw [if_pos (h.head rest), take, drop]

theorem digit_ne {u v : CodeUnit} (hu : u.isDigit = true) (hv : v.isDigit = false) : u ≠ v := by
  rintro rfl
  rw [hu] at hv
  cases hv

theorem scanWhole_eq {w rest : Text} (h : Whole w)
    (stop : ∀ u, rest.head? = some u → u.isDigit = false) :
    scanWhole (w ++ rest) = .ok (w, rest) := by
  rcases h with rfl | ⟨hd, nonzero⟩
  · have none : rest.head?.any CodeUnit.isDigit = false := by
      cases rest with
      | nil => rfl
      | cons u more => exact stop u rfl
    change (if rest.head?.any CodeUnit.isDigit then _ else _) = _
    rw [none]
    rfl
  · cases w with
    | nil => exact absurd rfl hd.1
    | cons u more =>
      have hu : u.isDigit = true := hd.2 u List.mem_cons_self
      have hz : u ≠ unit '0' := fun h => nonzero (by rw [h]; rfl)
      obtain ⟨take, drop⟩ := span_digits (fun v hv => hd.2 v (List.mem_cons_of_mem _ hv)) stop
      simp only [List.cons_append, scanWhole, hu, hz, if_false, Bool.not_true, Bool.false_eq_true,
        take, drop]

theorem scanFraction_eq {f rest : Text} (h : Fraction f)
    (stop : ∀ u, rest.head? = some u → u.isDigit = false ∧ u ≠ unit '.') :
    scanFraction (f ++ rest) = .ok (f, rest) := by
  rcases h with rfl | ⟨d, hd, rfl⟩
  · cases rest with
    | nil => rfl
    | cons u more =>
      rw [List.nil_append, scanFraction, if_neg (stop u rfl).2]
  · rw [List.cons_append, scanFraction, if_pos rfl,
      scanDigits_eq _ _ hd fun u hu => (stop u hu).1]
    rfl

theorem scanExponent_eq {x rest : Text} (h : Exponent x) (stop : NoMore rest) :
    scanExponent (x ++ rest) = .ok (x, rest) := by
  have digits : ∀ u, rest.head? = some u → u.isDigit = false := fun u hu => (stop u hu).1
  rcases h with rfl | ⟨e, s, d, he, hs, hd, rfl⟩
  · cases rest with
    | nil => rfl
    | cons u more =>
      obtain ⟨_, _, ne, nE⟩ := stop u rfl
      simp only [List.nil_append, scanExponent, ne, nE, decide_false, Bool.or_self,
        Bool.false_eq_true, if_false]
  · have letter : (decide (e = unit 'e') || decide (e = unit 'E')) = true := by
      rcases he with rfl | rfl <;> decide
    rcases hs with rfl | rfl | rfl
    · cases d with
      | nil => exact absurd rfl hd.1
      | cons u more =>
        have hu : u.isDigit = true := hd.2 u List.mem_cons_self
        have sign : (decide (u = unit '+') || decide (u = unit '-')) = false := by
          rw [decide_eq_false (digit_ne hu rfl), decide_eq_false (digit_ne hu rfl)]
          rfl
        have scan := scanDigits_eq .missingExponent [e] hd digits
        simp only [List.cons_append, List.nil_append] at scan ⊢
        simp only [scanExponent, letter, sign, if_true, Bool.false_eq_true, if_false, scan]
    · have scan := scanDigits_eq .missingExponent [e, unit '+'] hd digits
      simp only [List.cons_append, List.nil_append] at scan ⊢
      simp only [scanExponent, letter, if_true, decide_true, Bool.true_or, scan]
    · have scan := scanDigits_eq .missingExponent [e, unit '-'] hd digits
      simp only [List.cons_append, List.nil_append] at scan ⊢
      simp only [scanExponent, letter, if_true, decide_true, Bool.or_true, scan]

theorem Fraction.head {f rest : Text} (h : Fraction f)
    (stop : ∀ u, rest.head? = some u → u.isDigit = false) :
    ∀ u, (f ++ rest).head? = some u → u.isDigit = false := by
  rcases h with rfl | ⟨d, _, rfl⟩
  · exact stop
  · intro u hu
    cases hu
    rfl

theorem Exponent.head {x rest : Text} (h : Exponent x) (stop : NoMore rest) :
    ∀ u, (x ++ rest).head? = some u → u.isDigit = false ∧ u ≠ unit '.' := by
  rcases h with rfl | ⟨e, s, d, he, _, _, rfl⟩
  · intro u hu
    obtain ⟨digit, point, _⟩ := stop u hu
    exact ⟨digit, point⟩
  · intro u hu
    cases hu
    rcases he with rfl | rfl
    · exact ⟨rfl, by decide⟩
    · exact ⟨rfl, by decide⟩

theorem Whole.digits {w : Text} (h : Whole w) : Digits w := by
  rcases h with rfl | ⟨digits, _⟩
  · exact ⟨nofun, by simp [CodeUnit.isDigit]⟩
  · exact digits

theorem Whole.head {w : Text} (h : Whole w) :
    ∃ u more, w = u :: more ∧ u.isDigit = true := by
  obtain ⟨u, more, rfl⟩ := List.exists_cons_of_ne_nil h.digits.1
  exact ⟨u, more, rfl, h.digits.2 u List.mem_cons_self⟩

/-- A number is read to its end where no number goes on. -/
theorem scanNumber_eq {t rest : Text} (h : Numeral t) (stop : NoMore rest) :
    scanNumber (t ++ rest) = .ok (t, rest) := by
  obtain ⟨sign, whole, fraction, exponent, hs, hw, hf, hx, rfl⟩ := h
  have after := Exponent.head hx stop
  have whole_eq := scanWhole_eq hw (Fraction.head hf fun u hu => (after u hu).1)
  have unsigned : scanUnsigned (whole ++ (fraction ++ (exponent ++ rest))) =
      .ok (whole ++ fraction ++ exponent, rest) := by
    rw [scanUnsigned, whole_eq]
    dsimp only [bind, Except.bind]
    rw [scanFraction_eq hf after]
    dsimp only
    rw [scanExponent_eq hx stop]
    rfl
  simp only [List.append_assoc] at unsigned ⊢
  obtain ⟨u, more, hwhole, hu⟩ := hw.head
  rcases hs with rfl | rfl
  · rw [List.nil_append, List.nil_append, hwhole, List.cons_append, scanNumber,
      if_neg (digit_ne hu rfl), ← List.cons_append, ← hwhole, unsigned]
  · have head : (whole ++ (fraction ++ (exponent ++ rest))).head?.any CodeUnit.isDigit = true := by
      rw [hwhole]
      exact hu
    rw [List.cons_append, List.nil_append, scanNumber, if_pos rfl, if_pos head, unsigned]
    rfl

theorem isNumber_of_numeral {t : Text} (h : Numeral t) : isNumber t = true := by
  have scan := scanNumber_eq h noMore_nil
  rw [List.append_nil] at scan
  rw [isNumber, scan]

theorem scanDigits_ok {cause : Cause} {lead t d rest : Text}
    (h : scanDigits cause lead t = .ok (d, rest)) :
    ∃ digits, Digits digits ∧ d = lead ++ digits ∧ t = digits ++ rest := by
  unfold scanDigits at h
  split at h
  · next first =>
    cases h
    refine ⟨t.takeWhile CodeUnit.isDigit, ⟨?_, ?_⟩, rfl, List.takeWhile_append_dropWhile.symm⟩
    · cases t with
      | nil => cases first
      | cons u more =>
        have hu : u.isDigit = true := first
        rw [List.takeWhile_cons, if_pos hu]
        exact List.cons_ne_nil _ _
    · intro u hu
      exact List.all_eq_true.1 List.all_takeWhile u hu
  · cases h

theorem scanWhole_ok {t w rest : Text} (h : scanWhole t = .ok (w, rest)) :
    Whole w ∧ t = w ++ rest := by
  cases t with
  | nil => cases h
  | cons u more =>
    by_cases hu : u.isDigit = true
    · by_cases hz : u = unit '0'
      · simp only [scanWhole, hu, Bool.not_true, Bool.false_eq_true, if_false, if_pos hz] at h
        split at h
        · cases h
        · cases h
          exact ⟨.inl (by rw [hz]), rfl⟩
      · simp only [scanWhole, hu, Bool.not_true, Bool.false_eq_true, if_false, if_neg hz] at h
        cases h
        refine ⟨.inr ⟨⟨List.cons_ne_nil _ _, ?_⟩, ?_⟩, ?_⟩
        · intro v hv
          rcases List.mem_cons.1 hv with rfl | hv
          · exact hu
          · exact List.all_eq_true.1 List.all_takeWhile v hv
        · intro zero
          exact hz (Option.some.inj zero)
        · rw [List.cons_append, List.takeWhile_append_dropWhile]
    · simp only [scanWhole, hu, Bool.not_false, if_true] at h
      cases h

theorem scanFraction_ok {t f rest : Text} (h : scanFraction t = .ok (f, rest)) :
    Fraction f ∧ t = f ++ rest := by
  cases t with
  | nil =>
    cases h
    exact ⟨.inl rfl, rfl⟩
  | cons u more =>
    by_cases hu : u = unit '.'
    · rw [scanFraction, if_pos hu] at h
      obtain ⟨d, hd, rfl, rfl⟩ := scanDigits_ok h
      exact ⟨.inr ⟨d, hd, by rw [hu]; rfl⟩, rfl⟩
    · rw [scanFraction, if_neg hu] at h
      cases h
      exact ⟨.inl rfl, rfl⟩

theorem scanExponent_ok {t x rest : Text} (h : scanExponent t = .ok (x, rest)) :
    Exponent x ∧ t = x ++ rest := by
  cases t with
  | nil =>
    cases h
    exact ⟨.inl rfl, rfl⟩
  | cons u more =>
    rw [scanExponent.eq_def] at h
    dsimp only at h
    split at h
    · next letter =>
      have he : u = unit 'e' ∨ u = unit 'E' := by simpa using letter
      split at h
      · obtain ⟨d, hd, _, none⟩ := scanDigits_ok h
        exact absurd (List.append_eq_nil_iff.1 none.symm).1 hd.1
      · next v after =>
        split at h
        · next sign =>
          have hs : v = unit '+' ∨ v = unit '-' := by simpa using sign
          obtain ⟨d, hd, rfl, rfl⟩ := scanDigits_ok h
          refine ⟨.inr ⟨u, [v], d, he, ?_, hd, rfl⟩, rfl⟩
          rcases hs with rfl | rfl
          · exact .inr (.inl rfl)
          · exact .inr (.inr rfl)
        · obtain ⟨d, hd, rfl, hrest⟩ := scanDigits_ok h
          refine ⟨.inr ⟨u, [], d, he, .inl rfl, hd, rfl⟩, ?_⟩
          rw [hrest]
          rfl
    · cases h
      exact ⟨.inl rfl, rfl⟩

theorem scanUnsigned_ok {t n rest : Text} (h : scanUnsigned t = .ok (n, rest)) :
    ∃ whole fraction exponent, Whole whole ∧ Fraction fraction ∧ Exponent exponent ∧
      n = whole ++ (fraction ++ exponent) ∧ t = n ++ rest := by
  unfold scanUnsigned at h
  cases hw : scanWhole t with
  | error f =>
    rw [hw] at h
    cases h
  | ok r =>
    obtain ⟨whole, rest₁⟩ := r
    cases hf : scanFraction rest₁ with
    | error f =>
      simp only [hw, hf, bind, Except.bind] at h
      cases h
    | ok r =>
      obtain ⟨fraction, rest₂⟩ := r
      cases hx : scanExponent rest₂ with
      | error f =>
        simp only [hw, hf, hx, bind, Except.bind] at h
        cases h
      | ok r =>
        obtain ⟨exponent, rest₃⟩ := r
        simp only [hw, hf, hx, bind, Except.bind] at h
        cases h
        obtain ⟨whole_ok, rfl⟩ := scanWhole_ok hw
        obtain ⟨fraction_ok, rfl⟩ := scanFraction_ok hf
        obtain ⟨exponent_ok, rfl⟩ := scanExponent_ok hx
        refine ⟨whole, fraction, exponent, whole_ok, fraction_ok, exponent_ok, ?_, ?_⟩
        · rw [List.append_assoc]
        · simp only [List.append_assoc]

theorem scanNumber_ok {t n rest : Text} (h : scanNumber t = .ok (n, rest)) :
    Numeral n ∧ t = n ++ rest := by
  cases t with
  | nil => cases h
  | cons u more =>
    by_cases hu : u = unit '-'
    · rw [scanNumber, if_pos hu] at h
      split at h
      · cases hs : scanUnsigned more with
        | error f =>
          rw [hs] at h
          cases h
        | ok r =>
          obtain ⟨n', rest'⟩ := r
          rw [hs] at h
          cases h
          obtain ⟨w, f, x, hw, hf, hx, rfl, rfl⟩ := scanUnsigned_ok hs
          exact ⟨⟨[u], w, f, x, .inr (by rw [hu]), hw, hf, hx, rfl⟩, rfl⟩
      · cases h
    · rw [scanNumber, if_neg hu] at h
      obtain ⟨w, f, x, hw, hf, hx, rfl, same⟩ := scanUnsigned_ok h
      exact ⟨⟨[], w, f, x, .inl rfl, hw, hf, hx, rfl⟩, same⟩

/-- The texts that are taken for numbers are the numbers of the grammar. -/
theorem isNumber_iff {t : Text} : isNumber t = true ↔ Numeral t := by
  constructor
  · intro h
    unfold isNumber at h
    split at h
    · next n hn =>
      obtain ⟨hnum, same⟩ := scanNumber_ok hn
      rw [List.append_nil] at same
      rw [same]
      exact hnum
    · cases h
  · exact isNumber_of_numeral

instance (t : Text) : Decidable (Numeral t) := decidable_of_iff (isNumber t = true) isNumber_iff

/-! ## Strings -/

/-- The letters of the short escapes, and the units that they stand for. -/
def escapes : List (CodeUnit × CodeUnit) :=
  [(unit '"', unit '"'), (unit '\\', unit '\\'), (unit '/', unit '/'), (unit 'b', 8),
    (unit 'f', 12), (unit 'n', 10), (unit 'r', 13), (unit 't', 9)]

/-- How units are spelled between quotes: a unit stands for itself unless it is a control, a quote
or a backslash, and any unit may be escaped. -/
inductive Units : Text → Text → Prop
  | nil : Units [] []
  | plain {u : CodeUnit} {s t : Text} (control : ¬ u < 0x20) (quote : u ≠ unit '"')
      (backslash : u ≠ unit '\\') (h : Units s t) : Units (u :: s) (u :: t)
  | short {e v : CodeUnit} {s t : Text} (escape : (e, v) ∈ escapes) (h : Units s t) :
      Units (unit '\\' :: e :: s) (v :: t)
  | code {a b c d : CodeUnit} {p q r o : Nat} {s t : Text} (ha : a.hexValue? = some p)
      (hb : b.hexValue? = some q) (hc : c.hexValue? = some r) (hd : d.hexValue? = some o)
      (h : Units s t) :
      Units (unit '\\' :: unit 'u' :: a :: b :: c :: d :: s)
        ((((p * 16 + q) * 16 + r) * 16 + o).toUInt16 :: t)

theorem shortEscape_of_mem {e v : CodeUnit} (h : (e, v) ∈ escapes) :
    ¬ 0xFF < e ∧ e ≠ unit 'u' ∧ shortEscape? e = some v := by
  simp only [escapes, List.mem_cons, Prod.mk.injEq, List.not_mem_nil, or_false] at h
  rcases h with ⟨rfl, rfl⟩ | ⟨rfl, rfl⟩ | ⟨rfl, rfl⟩ | ⟨rfl, rfl⟩ | ⟨rfl, rfl⟩ | ⟨rfl, rfl⟩ |
    ⟨rfl, rfl⟩ | ⟨rfl, rfl⟩ <;> decide

/-- Spelled units are read up to the closing quote. -/
theorem readString_eq {s t : Text} (h : Units s t) (rest : Text) :
    readString (s ++ unit '"' :: rest) = .ok (t, rest) := by
  have quote : unit '\\' ≠ unit '"' := by decide
  have control : ¬ unit '\\' < 0x20 := by decide
  induction h with
  | nil =>
    rw [List.nil_append, readString.eq_def]
    exact if_pos rfl
  | plain control quote backslash _ ih =>
    rw [List.cons_append, readString.eq_def]
    dsimp only
    rw [if_neg quote, if_neg control, if_neg backslash, ih]
    rfl
  | short escape _ ih =>
    obtain ⟨low, letter, short⟩ := shortEscape_of_mem escape
    rw [List.cons_append, List.cons_append, readString.eq_def]
    dsimp only
    rw [if_neg quote, if_neg control, if_pos rfl, if_neg low, if_neg letter, short, ih]
    rfl
  | @code a b c d p q r o s t ha hb hc hd _ ih =>
    have letter : ¬ 0xFF < unit 'u' := by decide
    have hex : hexUnit? a b c d = some (((p * 16 + q) * 16 + r) * 16 + o).toUInt16 := by
      rw [hexUnit?, ha, hb, hc, hd]
      rfl
    rw [readString.eq_def]
    simp only [List.cons_append]
    rw [if_neg quote, if_neg control, if_pos trivial, if_neg letter, if_pos trivial, hex, ih]
    rfl

theorem hexValue_digitChar {n : Nat} (h : n < 16) :
    (unit (Nat.digitChar n)).hexValue? = some n := by
  have all : ∀ m : Fin 16, (unit (Nat.digitChar m.val)).hexValue? = some m.val := by decide
  exact all ⟨n, h⟩

/-- A unit is spelled by its four hexadecimal digits. -/
theorem units_hexEscape (u : CodeUnit) {s t : Text} (h : Units s t) :
    Units (Quoted.hexEscape u ++ s) (u :: t) := by
  have hu : u.toNat < 65536 := u.toNat_lt
  have high : (u.toNat / 256).toUInt8.toNat = u.toNat / 256 := by
    rw [Nat.toUInt8_eq, UInt8.toNat_ofNat']
    omega
  have low : u.toUInt8.toNat = u.toNat % 256 := UInt16.toNat_toUInt8 u
  have code := Units.code (s := s) (t := t)
    (hexValue_digitChar (n := u.toNat / 256 / 16) (by omega))
    (hexValue_digitChar (n := u.toNat / 256 % 16) (by omega))
    (hexValue_digitChar (n := u.toNat % 256 / 16) (by omega))
    (hexValue_digitChar (n := u.toNat % 256 % 16) (by omega)) h
  have value : ((u.toNat / 256 / 16 * 16 + u.toNat / 256 % 16) * 16 + u.toNat % 256 / 16) * 16 +
      u.toNat % 256 % 16 = u.toNat := by omega
  rw [value, Nat.toUInt16_eq, UInt16.ofNat_toNat] at code
  simp only [Quoted.hexEscape, Text.ofByte, high, low]
  exact code

/-- A unit outside a pair is escaped by a letter or by its digits, or it stands for itself. -/
theorem escapeUnit_cases (u : CodeUnit) :
    (∃ e, (e, u) ∈ escapes ∧ Quoted.escapeUnit u = [unit '\\', e]) ∨
      Quoted.escapeUnit u = Quoted.hexEscape u ∨
      (Quoted.escapeUnit u = [u] ∧ u ≠ unit '"' ∧ u ≠ unit '\\' ∧ ¬ u < 0x20 ∧
        u.isHigh = false ∧ u.isLow = false) := by
  by_cases named : ∃ e, (e, u) ∈ escapes ∧ Quoted.escapeUnit u = [unit '\\', e]
  · exact .inl named
  have letter {v e : CodeUnit} (h : (e, v) ∈ escapes ∧ Quoted.escapeUnit v = [unit '\\', e]) :
      u ≠ v := by
    rintro rfl
    exact named ⟨e, h⟩
  have quote : u ≠ unit '"' := letter ⟨by decide, rfl⟩
  have backslash : u ≠ unit '\\' := letter ⟨by decide, rfl⟩
  refine .inr ?_
  rw [Quoted.escapeUnit, if_neg quote, if_neg backslash,
    if_neg (letter (v := 8) (e := unit 'b') ⟨by decide, rfl⟩),
    if_neg (letter (v := 12) (e := unit 'f') ⟨by decide, rfl⟩),
    if_neg (letter (v := 10) (e := unit 'n') ⟨by decide, rfl⟩),
    if_neg (letter (v := 13) (e := unit 'r') ⟨by decide, rfl⟩),
    if_neg (letter (v := 9) (e := unit 't') ⟨by decide, rfl⟩)]
  split
  · exact .inl rfl
  · next plain =>
    simp only [Bool.or_eq_true, decide_eq_true_eq, not_or, Bool.not_eq_true] at plain
    exact .inr ⟨rfl, quote, backslash, plain.1.1, plain.1.2, plain.2⟩

/-- A unit outside a pair is spelled by its escape. -/
theorem units_escapeUnit (u : CodeUnit) {s t : Text} (h : Units s t) :
    Units (Quoted.escapeUnit u ++ s) (u :: t) := by
  rcases escapeUnit_cases u with ⟨e, escape, same⟩ | same | ⟨same, quote, backslash, control, _⟩
  · rw [same]
    exact .short escape h
  · rw [same]
    exact units_hexEscape u h
  · rw [same]
    exact .plain control quote backslash h

/-- Every text has a spelling between quotes. -/
theorem units_escape (t : Text) : Units (Quoted.escape t) t := by
  have surrogate {u : CodeUnit} (hu : u.isHigh = true ∨ u.isLow = true) :
      ¬ u < 0x20 ∧ u ≠ unit '"' ∧ u ≠ unit '\\' := by
    have least : 0xD800 ≤ u := by
      rcases hu with h | h
      · simp only [CodeUnit.isHigh, Bool.and_eq_true, decide_eq_true_eq] at h
        exact h.1
      · simp only [CodeUnit.isLow, Bool.and_eq_true, decide_eq_true_eq] at h
        exact UInt16.le_trans (by decide) h.1
    refine ⟨?_, ?_, ?_⟩
    · intro h
      exact absurd (UInt16.lt_of_le_of_lt least h) (by decide)
    · rintro rfl
      exact absurd least (by decide)
    · rintro rfl
      exact absurd least (by decide)
  fun_induction Quoted.escape t with
  | case1 => exact .nil
  | case2 u =>
    have h := units_escapeUnit u .nil
    rwa [List.append_nil] at h
  | case3 u v rest pair ih =>
    rw [Bool.and_eq_true] at pair
    obtain ⟨c, q, b⟩ := surrogate (.inl pair.1)
    obtain ⟨c', q', b'⟩ := surrogate (.inr pair.2)
    exact .plain c q b (.plain c' q' b' ih)
  | case4 u v rest _ ih => exact units_escapeUnit u ih

/-! ## Values -/

mutual

/-- How a document is spelled, without white space around it. -/
def Spells : Json → Text → Prop
  | .null, t => t = lit "null"
  | .boolean b, t => t = if b then lit "true" else lit "false"
  | .number digits, t => t = digits ∧ Numeral digits
  | .string s, t => ∃ body, Units body s ∧ t = unit '"' :: (body ++ [unit '"'])
  | .array items, t => ∃ w texts v, Blank w ∧ SpellsItems items texts ∧ Blank v ∧
      t = unit '[' :: (w ++ (Text.join [unit ','] texts ++ (v ++ [unit ']'])))
  | .object members, t => ∃ w texts v, Blank w ∧ SpellsMembers members texts ∧ Blank v ∧
      t = unit '\x7b' :: (w ++ (Text.join [unit ','] texts ++ (v ++ [unit '\x7d'])))

/-- How the items of an array are spelled, with white space around each. -/
def SpellsItems : List Json → List Text → Prop
  | [], texts => texts = []
  | item :: rest, texts => ∃ before text after more, Blank before ∧ Spells item text ∧
      Blank after ∧ SpellsItems rest more ∧ texts = (before ++ text ++ after) :: more

/-- How the members of an object are spelled: a string, a colon and a value, with white space
around each of them. -/
def SpellsMembers : List (Text × Json) → List Text → Prop
  | [], texts => texts = []
  | (key, value) :: rest, texts => ∃ before name between body text after more,
      Blank before ∧ Units name key ∧ Blank between ∧ Blank body ∧ Spells value text ∧
      Blank after ∧ SpellsMembers rest more ∧
      texts = (before ++ unit '"' :: (name ++ unit '"' :: (between ++ unit ':' ::
        (body ++ text ++ after)))) :: more

end

/-- A text is a JSON text of a document: a spelling with white space around it. -/
def Sentence (document : Json) (t : Text) : Prop :=
  ∃ before text after, Blank before ∧ Spells document text ∧ Blank after ∧
    t = before ++ text ++ after

end SpanTree.Json
