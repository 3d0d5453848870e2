import SpanTree.Source
import SpanTree.Value
import SpanTree.Proofs.Decimals
import SpanTree.Proofs.Grammar

/-!
# Numerals and the doubles that they denote

The stored texts of numbers are numbers of the JSON grammar, and they are read as the doubles that
they were written for.

* `denoted_eq`, `ofNumeral_eq`: what a numeral denotes, and its value, by its parts;
* `numeral_ofInt`, `ofNumeral_ofInt`: the text of an integer is read as the double nearest to it;
* `layOut_parts`: laid out digits are a numeral of the value that they stand for;
* `numeral_signedText`, `ofNumeral_signedText`: the text of a finite double is read as it;
* `exactInteger?_iff`: the doubles that stand for an integer are those nearest to a small one;
* `toInt?_ofNat`, `lt_whole`: small natural numbers are doubles, and whole doubles of any size are
  in the order of their values.
-/

namespace SpanTree

open Json (Digits Whole Fraction Exponent Numeral)

/-! ## Digits -/

theorem toNat_of_isDigit {c : Char} (h : c.isDigit = true) : 48 ≤ c.toNat ∧ c.toNat ≤ 57 := by
  simp only [Char.isDigit, ge_iff_le, Bool.and_eq_true, decide_eq_true_eq] at h
  exact ⟨UInt32.le_iff_toNat_le.1 h.1, UInt32.le_iff_toNat_le.1 h.2⟩

theorem toNat_unit {c : Char} (h : c.isDigit = true) : (unit c).toNat = c.toNat := by
  have := toNat_of_isDigit h
  rw [unit, Nat.toUInt16_eq, UInt16.toNat_ofNat']
  omega

theorem isDigit_unit {c : Char} (h : c.isDigit = true) : (unit c).isDigit = true := by
  have bounds := toNat_of_isDigit h
  have same := toNat_unit h
  simp only [CodeUnit.isDigit, Bool.and_eq_true, decide_eq_true_eq, UInt16.le_iff_toNat_le, same]
  exact bounds

theorem ofChars_digits {cs : List Char} (h : ∀ c ∈ cs, c.isDigit = true) :
    Text.ofChars cs = cs.map unit := by
  induction cs with
  | nil => rfl
  | cons c cs ih =>
    have small : c.toNat < 0x10000 := by
      have := toNat_of_isDigit (h c List.mem_cons_self)
      omega
    have rest := ih fun other ho => h other (List.mem_cons_of_mem _ ho)
    rw [Text.ofChars] at rest
    rw [Text.ofChars, List.flatMap_cons, rest, Text.ofChar, if_pos small]
    rfl

theorem isDigit_ofChars {cs : List Char} (h : ∀ c ∈ cs, c.isDigit = true) :
    ∀ u ∈ Text.ofChars cs, u.isDigit = true := by
  intro u hu
  rw [ofChars_digits h] at hu
  obtain ⟨c, hc, rfl⟩ := List.mem_map.1 hu
  exact isDigit_unit (h c hc)

theorem length_ofChars {cs : List Char} (h : ∀ c ∈ cs, c.isDigit = true) :
    (Text.ofChars cs).length = cs.length := by
  rw [ofChars_digits h, List.length_map]

theorem digits_ofChars {cs : List Char} (h : ∀ c ∈ cs, c.isDigit = true) (some : cs ≠ []) :
    Digits (Text.ofChars cs) := by
  refine ⟨?_, isDigit_ofChars h⟩
  rw [ofChars_digits h]
  exact fun none => some (List.map_eq_nil_iff.1 none)

/-- Digits are read by their value. -/
theorem digitsValue_ofChars {cs : List Char} (h : ∀ c ∈ cs, c.isDigit = true) :
    Text.digitsValue (Text.ofChars cs) = Nat.ofDigitChars 10 cs 0 := by
  have step (n : Nat) : ((Text.ofChars cs).map fun u => u.toNat - 48).foldl
      (fun n digit => n * 10 + digit) n = Nat.ofDigitChars 10 cs n := by
    rw [ofChars_digits h]
    induction cs generalizing n with
    | nil => rfl
    | cons c cs ih =>
      rw [Nat.ofDigitChars_cons, List.map_cons, List.map_cons, List.foldl_cons,
        ih fun other ho => h other (List.mem_cons_of_mem _ ho)]
      rw [toNat_unit (h c List.mem_cons_self), Nat.mul_comm]
      rfl
  rw [Text.digitsValue, Text.valueIn_eq, step]

theorem ofChars_append (a b : List Char) :
    Text.ofChars (a ++ b) = Text.ofChars a ++ Text.ofChars b := List.flatMap_append

theorem isDigit_toDigits (n : Nat) : ∀ c ∈ Nat.toDigits 10 n, c.isDigit = true :=
  fun _ hc => Nat.isDigit_of_mem_toDigits (by decide) (by decide) hc

/-- The first digit of a number is zero for zero alone. -/
theorem head_toDigits {n : Nat} (pos : n ≠ 0) : (Nat.toDigits 10 n).head? ≠ some '0' := by
  induction n using Nat.strongRecOn with
  | ind n ih =>
    by_cases small : n < 10
    · rw [Nat.toDigits_of_lt_base small]
      intro zero
      exact pos (Nat.digitChar_eq_zero.1 (Option.some.inj zero))
    · rw [Text.toDigits_split n (by omega), List.head?_append]
      have head := ih (n / 10) (by omega) (by omega)
      cases hd : (Nat.toDigits 10 (n / 10)).head? with
      | none => exact absurd (List.head?_eq_none_iff.1 hd) Nat.toDigits_ne_nil
      | some c =>
        rw [hd] at head
        exact head

/-! ## The parts of a numeral -/

def signOf (negative : Bool) : Text := if negative then [unit '-'] else []

/-- The exponent that a text behind the digits of a numeral shows. -/
def exponentOf (tail : Text) : Int :=
  let size := Text.digitsValue (tail.tail.dropWhile fun u => u = unit '-' || u = unit '+')
  if tail.tail.head? = some (unit '-') then - size else size

/-- The digits of a fraction behind their point; without digits there is none. -/
def pointed (fraction : Text) : Text := if fraction = [] then [] else unit '.' :: fraction

/-- The sign and the decimal that a text is read as, taken for a numeral. -/
def denoted (t : Text) : Bool × Decimal :=
  let body := t.dropWhile fun u => u = unit '-' || u = unit '+'
  let rest := body.dropWhile CodeUnit.isDigit
  let fraction :=
    if rest.head? = some (unit '.') then rest.tail.takeWhile CodeUnit.isDigit else []
  let tail := if rest.head? = some (unit '.') then rest.tail.dropWhile CodeUnit.isDigit else rest
  (t.head? = some (unit '-'), ⟨Text.digitsValue (body.takeWhile CodeUnit.isDigit ++ fraction),
    exponentOf tail - fraction.length⟩)

theorem ofNumeral_denoted (t : Text) :
    Binary64.ofNumeral t = Binary64.ofDecimal (denoted t).1 (denoted t).2 := rfl

/-- A numeral denotes its digits, of which the fraction moves the point. -/
theorem denoted_eq (negative : Bool) {whole fraction tail : Text} (hw : Digits whole)
    (hf : ∀ u ∈ fraction, u.isDigit = true)
    (stop : ∀ u, tail.head? = some u → u.isDigit = false ∧ u ≠ unit '.') :
    denoted (signOf negative ++ (whole ++ (pointed fraction ++ tail))) =
      (negative, ⟨Text.digitsValue (whole ++ fraction), exponentOf tail - fraction.length⟩) := by
  obtain ⟨first, more, rfl⟩ := List.exists_cons_of_ne_nil hw.1
  have digit : first.isDigit = true := hw.2 first List.mem_cons_self
  have minus : first ≠ unit '-' := Json.digit_ne digit rfl
  have plus : first ≠ unit '+' := Json.digit_ne digit rfl
  have afterWhole : ∀ u, (pointed fraction ++ tail).head? = some u → u.isDigit = false := by
    intro u hu
    unfold pointed at hu
    split at hu
    · exact (stop u hu).1
    · cases hu
      rfl
  obtain ⟨takeWhole, dropWhole⟩ := Json.span_digits hw.2 afterWhole
  obtain ⟨takeFraction, dropFraction⟩ := Json.span_digits hf fun u hu => (stop u hu).1
  generalize hbody : first :: more ++ (pointed fraction ++ tail) = body at takeWhole dropWhole ⊢
  have head : body.head? = some first := by rw [← hbody]; rfl
  have sign : ((signOf negative ++ body).head? = some (unit '-')) = (negative = true) := by
    cases negative with
    | false => simp only [signOf, Bool.false_eq_true, if_false, List.nil_append, head,
        Option.some.injEq, minus]
    | true => simp only [signOf, if_true, List.singleton_append, List.head?_cons]
  have stay : body.dropWhile (fun u => u = unit '-' || u = unit '+') = body := by
    rw [← hbody, List.cons_append, List.dropWhile_cons, if_neg]
    simp only [minus, plus, decide_false, Bool.or_false, Bool.false_eq_true, not_false_eq_true]
  have unsigned : (signOf negative ++ body).dropWhile (fun u => u = unit '-' || u = unit '+') =
      body := by
    cases negative with
    | false => exact stay
    | true =>
      rw [signOf, if_pos rfl, List.singleton_append, List.dropWhile_cons, if_pos (by decide)]
      exact stay
  unfold denoted
  simp only [unsigned, takeWhole, dropWhole, sign, Bool.decide_eq_true]
  by_cases none : fraction = []
  · have point : tail.head? ≠ some (unit '.') := fun h => (stop _ h).2 rfl
    simp only [pointed, none, if_true, List.nil_append, if_neg point]
  · simp only [pointed, none, if_false, List.cons_append, List.head?_cons, if_true,
      List.tail_cons, takeFraction, dropFraction]

/-- A numeral has the value that it denotes. -/
theorem ofNumeral_eq (negative : Bool) {whole fraction tail : Text} (hw : Digits whole)
    (hf : ∀ u ∈ fraction, u.isDigit = true)
    (stop : ∀ u, tail.head? = some u → u.isDigit = false ∧ u ≠ unit '.') :
    Binary64.ofNumeral (signOf negative ++ (whole ++ (pointed fraction ++ tail))) =
      Binary64.ofDecimal negative
        ⟨Text.digitsValue (whole ++ fraction), exponentOf tail - fraction.length⟩ := by
  rw [ofNumeral_denoted, denoted_eq negative hw hf stop]

theorem exponentOf_nil : exponentOf [] = 0 := rfl

/-! ## Integers -/

theorem ofNat_eq (n : Nat) : Text.ofNat n = Text.ofChars (Nat.toDigits 10 n) := by
  rw [Text.ofNat, Text.decimalDigits_eq]

theorem ofInt_eq (n : Int) : Text.ofInt n = signOf (decide (n < 0)) ++ Text.ofNat n.natAbs := by
  unfold Text.ofInt signOf
  by_cases h : n < 0
  · simp [h]
  · simp [h]

theorem digits_ofNat (n : Nat) : Digits (Text.ofNat n) := by
  rw [ofNat_eq]
  exact digits_ofChars (isDigit_toDigits n) Nat.toDigits_ne_nil

theorem whole_toDigits {cs : List Char} (h : ∀ c ∈ cs, c.isDigit = true) (some : cs ≠ [])
    (head : cs.head? ≠ Option.some '0') : Whole (Text.ofChars cs) := by
  refine .inr ⟨digits_ofChars h some, ?_⟩
  cases cs with
  | nil => exact absurd rfl some
  | cons c cs =>
    rw [ofChars_digits h]
    intro zero
    have hc : c.isDigit = true := h c List.mem_cons_self
    have same : c.toNat = '0'.toNat := by
      rw [← toNat_unit hc, ← toNat_unit (show '0'.isDigit = true by decide)]
      exact congrArg UInt16.toNat (Option.some.inj zero)
    exact head (congrArg Option.some (Char.toNat_inj.1 same))

theorem whole_ofNat (n : Nat) : Whole (Text.ofNat n) := by
  rw [ofNat_eq]
  by_cases zero : n = 0
  · subst zero
    exact .inl rfl
  · exact whole_toDigits (isDigit_toDigits n) Nat.toDigits_ne_nil (head_toDigits zero)

theorem sign_signOf (negative : Bool) :
    signOf negative = [] ∨ signOf negative = [unit '-'] := by
  cases negative
  · exact .inl rfl
  · exact .inr rfl

/-- The text of an integer is a number. -/
theorem numeral_ofInt (n : Int) : Numeral (Text.ofInt n) := by
  refine ⟨signOf (decide (n < 0)), Text.ofNat n.natAbs, [], [], sign_signOf _, whole_ofNat _,
    .inl rfl, .inl rfl, ?_⟩
  rw [List.append_nil, List.append_nil, ofInt_eq]

theorem digitsValue_ofNat (n : Nat) : Text.digitsValue (Text.ofNat n) = n := by
  rw [ofNat_eq, digitsValue_ofChars (isDigit_toDigits n), Nat.ofDigitChars_ten_toDigits]

/-- The text of an integer is read as the double nearest to it. -/
theorem ofNumeral_ofInt (n : Int) : Binary64.ofNumeral (Text.ofInt n) = Binary64.ofInt n := by
  have parts := @ofNumeral_eq (decide (n < 0)) _ [] [] (digits_ofNat n.natAbs) nofun nofun
  rw [pointed, if_pos rfl, List.append_nil, List.append_nil, ← ofInt_eq, digitsValue_ofNat,
    exponentOf_nil, List.length_nil, Int.natCast_zero, Int.sub_zero] at parts
  rw [parts, Binary64.ofDecimal_eq, Decimal.rank_whole, Binary64.ofInt, Binary64.ofRatio]

/-! ## Laid out digits -/

/-- A number in parts: digits, a fraction and an exponent that are a numeral together, of the value
of a decimal. -/
structure Parts (t : Text) (d : Decimal) (whole fraction tail : Text) : Prop where
  text : t = whole ++ (pointed fraction ++ tail)
  front : Whole whole
  digits : ∀ u ∈ fraction, u.isDigit = true
  back : Exponent tail
  same : Decimal.rank ⟨Text.digitsValue (whole ++ fraction), exponentOf tail - fraction.length⟩ =
    d.rank

theorem Parts.numeral {t whole fraction tail : Text} {d : Decimal}
    (h : Parts t d whole fraction tail) (negative : Bool) : Numeral (signOf negative ++ t) := by
  refine ⟨signOf negative, whole, pointed fraction, tail, sign_signOf negative, h.front, ?_, h.back,
    by rw [h.text]⟩
  unfold pointed
  split
  · exact .inl rfl
  · next some => exact .inr ⟨fraction, ⟨some, h.digits⟩, rfl⟩

theorem Parts.ofNumeral {t whole fraction tail : Text} {d : Decimal}
    (h : Parts t d whole fraction tail) (negative : Bool) :
    Binary64.ofNumeral (signOf negative ++ t) = Binary64.ofRank negative d.rank := by
  have stop := Exponent.head h.back Json.noMore_nil
  rw [List.append_nil] at stop
  rw [h.text, ofNumeral_eq negative h.front.digits h.digits stop, Binary64.ofDecimal_eq, h.same]

theorem isDigit_zeros (n : Nat) : ∀ c ∈ List.replicate n '0', c.isDigit = true := by
  intro c hc
  rw [List.eq_of_mem_replicate hc]
  rfl

theorem isDigit_append {a b : List Char} (ha : ∀ c ∈ a, c.isDigit = true)
    (hb : ∀ c ∈ b, c.isDigit = true) : ∀ c ∈ a ++ b, c.isDigit = true := by
  intro c hc
  rcases List.mem_append.1 hc with h | h
  · exact ha c h
  · exact hb c h

def exponentChars (e : Int) : List Char :=
  'e' :: (if e < 0 then '-' else '+') :: Nat.toDigits 10 e.natAbs

theorem ofChars_cons {c : Char} (h : c.toNat < 0x10000) (cs : List Char) :
    Text.ofChars (c :: cs) = unit c :: Text.ofChars cs := by
  rw [Text.ofChars, List.flatMap_cons, Text.ofChar, if_pos h]
  rfl

theorem exponentText_eq (e : Int) : Text.ofChars (exponentChars e) =
    unit 'e' :: ((if e < 0 then [unit '-'] else [unit '+']) ++ Text.ofNat e.natAbs) := by
  rw [exponentChars, ofChars_cons (by decide), ofNat_eq]
  split
  · rw [ofChars_cons (by decide)]
    rfl
  · rw [ofChars_cons (by decide)]
    rfl

theorem exponent_exponentText (e : Int) : Exponent (Text.ofChars (exponentChars e)) := by
  refine .inr ⟨unit 'e', if e < 0 then [unit '-'] else [unit '+'], Text.ofNat e.natAbs, .inl rfl,
    ?_, digits_ofNat _, exponentText_eq e⟩
  split
  · exact .inr (.inr rfl)
  · exact .inr (.inl rfl)

theorem exponentOf_exponentText (e : Int) :
    exponentOf (Text.ofChars (exponentChars e)) = e := by
  have digits := digits_ofNat e.natAbs
  have value := digitsValue_ofNat e.natAbs
  have stay : (Text.ofNat e.natAbs).dropWhile (fun u => u = unit '-' || u = unit '+') =
      Text.ofNat e.natAbs := by
    obtain ⟨u, rest, same⟩ := List.exists_cons_of_ne_nil digits.1
    rw [same] at digits ⊢
    have digit := digits.2 u List.mem_cons_self
    have minus : u ≠ unit '-' := Json.digit_ne digit rfl
    have plus : u ≠ unit '+' := Json.digit_ne digit rfl
    rw [List.dropWhile_cons, if_neg]
    simp only [minus, plus, decide_false, Bool.or_false, Bool.false_eq_true, not_false_eq_true]
  have drop (u : CodeUnit) (hu : u = unit '-' ∨ u = unit '+') :
      (u :: Text.ofNat e.natAbs).dropWhile (fun u => u = unit '-' || u = unit '+') =
        Text.ofNat e.natAbs := by
    rw [List.dropWhile_cons, if_pos (by simpa only [Bool.or_eq_true, decide_eq_true_eq] using hu)]
    exact stay
  rw [exponentText_eq]
  by_cases below : e < 0
  · rw [if_pos below, List.singleton_append]
    simp only [exponentOf, List.tail_cons, List.head?_cons, if_true, drop _ (.inl rfl), value]
    omega
  · have plus : ¬ some (unit '+') = some (unit '-') := by decide
    rw [if_neg below, List.singleton_append]
    simp only [exponentOf, List.tail_cons, List.head?_cons, if_neg plus, drop _ (.inr rfl), value]
    omega

section LayOut

variable {ds : List Char} (h : ∀ c ∈ ds, c.isDigit = true)

include h

/-- All digits stand before the point, with zeros up to it. -/
theorem padded_parts (some : ds ≠ []) (head : ds.head? ≠ Option.some '0') (k : Nat) :
    Parts (Text.ofChars (ds ++ List.replicate k '0')) ⟨Nat.ofDigitChars 10 ds 0, k⟩
      (Text.ofChars (ds ++ List.replicate k '0')) [] [] := by
  have all := isDigit_append h (isDigit_zeros k)
  refine ⟨?_, ?_, nofun, .inl rfl, ?_⟩
  · simp [pointed]
  · refine whole_toDigits all (by simp [some]) ?_
    obtain ⟨first, more, rfl⟩ := List.exists_cons_of_ne_nil some
    exact head
  · rw [List.append_nil, digitsValue_ofChars all, Nat.ofDigitChars_append,
      Nat.ofDigitChars_replicate_zero, exponentOf_nil, List.length_nil, Nat.mul_comm,
      Decimal.rank_scale]
    congr 2
    omega

/-- The point stands among the digits. -/
theorem split_parts (head : ds.head? ≠ Option.some '0') {n : Nat} (positive : 0 < n)
    (less : n < ds.length) :
    Parts (Text.ofChars (ds.take n ++ '.' :: ds.drop n))
      ⟨Nat.ofDigitChars 10 ds 0, n - ds.length⟩ (Text.ofChars (ds.take n))
      (Text.ofChars (ds.drop n)) [] := by
  have take : ∀ c ∈ ds.take n, c.isDigit = true := fun c hc => h c (List.mem_of_mem_take hc)
  have drop : ∀ c ∈ ds.drop n, c.isDigit = true := fun c hc => h c (List.mem_of_mem_drop hc)
  have front : ds.take n ≠ [] := by
    rw [Ne, List.take_eq_nil_iff]
    rintro (zero | none)
    · omega
    · simp [none] at less
  have back : Text.ofChars (ds.drop n) ≠ [] := by
    rw [← List.length_pos_iff, length_ofChars drop, List.length_drop]
    omega
  refine ⟨?_, ?_, isDigit_ofChars drop, .inl rfl, ?_⟩
  · rw [ofChars_append, pointed, if_neg back, List.append_nil]
    rfl
  · refine whole_toDigits take front ?_
    rw [List.head?_take, if_neg (by omega)]
    exact head
  · rw [← ofChars_append, List.take_append_drop, digitsValue_ofChars h, exponentOf_nil,
      length_ofChars drop, List.length_drop]
    congr 2
    omega

/-- Zeros stand between the point and the digits. -/
theorem small_parts (some : ds ≠ []) (k : Nat) :
    Parts (Text.ofChars ('0' :: '.' :: (List.replicate k '0' ++ ds)))
      ⟨Nat.ofDigitChars 10 ds 0, -k - ds.length⟩ [unit '0']
      (Text.ofChars (List.replicate k '0' ++ ds)) [] := by
  have positive : 0 < ds.length := List.length_pos_iff.2 some
  have all := isDigit_append (isDigit_zeros k) h
  have back : Text.ofChars (List.replicate k '0' ++ ds) ≠ [] := by
    rw [← List.length_pos_iff, length_ofChars all, List.length_append]
    omega
  refine ⟨?_, .inl rfl, isDigit_ofChars all, .inl rfl, ?_⟩
  · rw [pointed, if_neg back, List.append_nil]
    rfl
  · have whole : [unit '0'] ++ Text.ofChars (List.replicate k '0' ++ ds) =
        Text.ofChars (List.replicate (k + 1) '0' ++ ds) := rfl
    rw [whole, digitsValue_ofChars (isDigit_append (isDigit_zeros _) h),
      Nat.ofDigitChars_append, Nat.ofDigitChars_replicate_zero, Nat.mul_zero, exponentOf_nil,
      length_ofChars all, List.length_append, List.length_replicate]
    congr 2
    omega

end LayOut

/-- One digit stands before the point, and the exponent tells where it belongs. -/
theorem scaled_parts {first : Char} {more : List Char} (h : ∀ c ∈ first :: more, c.isDigit = true)
    (head : first ≠ '0') (e : Int) :
    Parts (Text.ofChars ([first] ++ (if (first :: more).length = 1 then [] else '.' :: more) ++
        exponentChars e))
      ⟨Nat.ofDigitChars 10 (first :: more) 0, e - more.length⟩ (Text.ofChars [first])
      (Text.ofChars more) (Text.ofChars (exponentChars e)) := by
  obtain ⟨digit, rest⟩ := List.forall_mem_cons.1 h
  refine ⟨?_, ?_, isDigit_ofChars rest, exponent_exponentText _, ?_⟩
  · have digits : (first :: more).length = 1 ↔ Text.ofChars more = [] := by
      rw [← List.length_eq_zero_iff, length_ofChars rest, List.length_cons]
      omega
    have point : Text.ofChars (if (first :: more).length = 1 then [] else '.' :: more) =
        pointed (Text.ofChars more) := by
      unfold pointed
      by_cases none : Text.ofChars more = []
      · rw [if_pos none, if_pos (digits.2 none)]
        rfl
      · rw [if_neg none, if_neg fun one => none (digits.1 one), ofChars_cons (by decide)]
    rw [← point, ← List.append_assoc, ← ofChars_append, ← ofChars_append]
  · refine whole_toDigits (List.forall_mem_singleton.2 digit) nofun ?_
    intro zero
    exact head (Option.some.inj zero)
  · rw [← ofChars_append, List.singleton_append, digitsValue_ofChars h, exponentOf_exponentText,
      length_ofChars rest]

/-- Digits whose first is not zero are a numeral of the decimal `0.d₁d₂… · 10 ^ point` in each of
the ways to lay them out. -/
theorem layOut_parts {ds : List Char} (h : ∀ c ∈ ds, c.isDigit = true) (some : ds ≠ [])
    (head : ds.head? ≠ Option.some '0') (point : Int) :
    ∃ whole fraction tail, Parts (Text.ofChars (layOut ds point))
      ⟨Nat.ofDigitChars 10 ds 0, point - ds.length⟩ whole fraction tail := by
  unfold layOut
  dsimp only
  split
  · next range =>
    have parts := padded_parts h some head (point - ds.length).toNat
    rw [Int.toNat_of_nonneg (by omega)] at parts
    exact ⟨_, _, _, parts⟩
  · split
    · next range =>
      obtain ⟨n, rfl⟩ : ∃ n : Nat, point = n := ⟨point.toNat, by omega⟩
      rw [Int.toNat_natCast]
      exact ⟨_, _, _, split_parts h head (by omega) (by omega)⟩
    · split
      · next range =>
        have parts := small_parts h some point.natAbs
        have same : -(point.natAbs : Int) = point := by omega
        rw [same] at parts
        exact ⟨_, _, _, parts⟩
      · obtain ⟨first, more, rfl⟩ := List.exists_cons_of_ne_nil some
        have parts := scaled_parts h (fun zero => head (congrArg Option.some zero)) (point - 1)
        have same : point - 1 - more.length = point - (first :: more).length := by
          rw [List.length_cons]
          omega
        rw [same] at parts
        exact ⟨_, _, _, parts⟩

/-! ## The texts of doubles -/

theorem dropTrailingZeros_append (ds : List Char) :
    ∃ z, ds = dropTrailingZeros ds ++ List.replicate z '0' := by
  have zeros : ds.reverse.takeWhile (· = '0') =
      List.replicate (ds.reverse.takeWhile (· = '0')).length '0' := by
    apply List.eq_replicate_of_mem
    intro c hc
    have := List.all_eq_true.1 List.all_takeWhile c hc
    simpa using this
  refine ⟨(ds.reverse.takeWhile (· = '0')).length, ?_⟩
  rw [dropTrailingZeros, ← List.reverse_replicate, ← zeros, ← List.reverse_append,
    List.takeWhile_append_dropWhile, List.reverse_reverse]

/-- The text of a decimal is a numeral of it. -/
theorem chars_parts {d : Decimal} (some : d.coefficient ≠ 0) :
    ∃ whole fraction tail, Parts (Text.ofChars d.chars) d whole fraction tail := by
  obtain ⟨z, split⟩ := dropTrailingZeros_append (Nat.toDigits 10 d.coefficient)
  have all := isDigit_toDigits d.coefficient
  have first := head_toDigits some
  have value := @Nat.ofDigitChars_ten_toDigits d.coefficient
  have length := congrArg List.length split
  rw [split, Nat.ofDigitChars_append, Nat.ofDigitChars_replicate_zero, Nat.mul_comm] at value
  unfold Decimal.chars
  dsimp only
  generalize dropTrailingZeros (Nat.toDigits 10 d.coefficient) = ds at split value length ⊢
  rw [List.length_append, List.length_replicate] at length
  rw [split] at all first
  have nonempty : ds ≠ [] := by
    rintro rfl
    cases z with
    | zero => exact Nat.toDigits_ne_nil split
    | succ z => exact first rfl
  have head : ds.head? ≠ Option.some '0' := by
    obtain ⟨c, more, rfl⟩ := List.exists_cons_of_ne_nil nonempty
    exact first
  obtain ⟨whole, fraction, tail, parts⟩ := layOut_parts
    (fun c hc => all c (List.mem_append_left _ hc)) nonempty head
    ((Nat.toDigits 10 d.coefficient).length + d.exponent)
  refine ⟨whole, fraction, tail, parts.text, parts.front, parts.digits, parts.back, ?_⟩
  have exponent : ((Nat.toDigits 10 d.coefficient).length : Int) + d.exponent - ds.length =
      d.exponent + z := by omega
  rw [parts.same, exponent, ← Decimal.rank_scale, value]

theorem zero_parts : Parts [unit '0'] ⟨0, 0⟩ [unit '0'] [] [] where
  text := rfl
  front := .inl rfl
  digits := nofun
  back := .inl rfl
  same := by
    have value : Text.digitsValue ([unit '0'] ++ []) = 0 := rfl
    rw [value, exponentOf_nil, List.length_nil, Int.natCast_zero, Int.sub_zero]

/-- The text of a finite double is a numeral of its rank, behind its sign. -/
theorem signedText_parts (negative : Bool) (r : Fin rankCount) :
    ∃ t d whole fraction tail, (Binary64.finite negative r).signedText = signOf negative ++ t ∧
      d.rank = r.val ∧ Parts t d whole fraction tail := by
  by_cases zero : r.val = 0
  · refine ⟨_, _, _, _, _, ?_, ?_, zero_parts⟩
    · cases negative <;> simp [Binary64.signedText, Binary64.isNegativeZero, Binary64.text, zero,
        signOf] <;> rfl
    · rw [Decimal.rank_zero, zero]
  · have same := rank_shortest r.isLt
    have some : (shortest r).coefficient ≠ 0 := by
      intro none
      rw [← same] at zero
      cases hd : shortest r with | mk c e =>
      rw [hd] at none zero
      dsimp only at none
      rw [none] at zero
      exact zero (Decimal.rank_zero e)
    obtain ⟨whole, fraction, tail, parts⟩ := chars_parts some
    refine ⟨_, _, _, _, _, ?_, same, parts⟩
    rw [Binary64.signedText, Binary64.isNegativeZero, decide_eq_false zero, Bool.and_false,
      if_neg Bool.false_ne_true, Binary64.text, if_neg zero, signOf]

/-- The text of a finite double is a number. -/
theorem numeral_signedText (negative : Bool) (r : Fin rankCount) :
    Numeral (Binary64.finite negative r).signedText := by
  obtain ⟨t, d, whole, fraction, tail, text, _, parts⟩ := signedText_parts negative r
  rw [text]
  exact parts.numeral negative

/-- The text of a finite double is read as this double. -/
theorem ofNumeral_signedText (negative : Bool) (r : Fin rankCount) :
    Binary64.ofNumeral (Binary64.finite negative r).signedText = .finite negative r := by
  obtain ⟨t, d, whole, fraction, tail, text, rank, parts⟩ := signedText_parts negative r
  rw [text, parts.ofNumeral, rank, Binary64.ofRank, dif_pos r.isLt]

/-! ## Exact integers -/

/-- An integer that a double stands for has this double for its nearest. -/
theorem ofInt_of_exactInteger? {x : Binary64} {n : Int} (h : Value.exactInteger? x = some n) :
    Binary64.ofInt n = x := by
  unfold Value.exactInteger? at h
  split at h
  · next exact =>
    have positive : x.isNegativeZero = false := by
      cases hz : x.isNegativeZero with
      | false => rfl
      | true => simp [hz] at exact
    cases x with
    | nan | infinite s => cases h
    | finite s r =>
      by_cases whole : units r % Binary64.one = 0
      · rw [Binary64.toInt?, if_pos whole] at h
        have product : units r / Binary64.one * Binary64.one = units r :=
          Nat.div_mul_cancel (Nat.dvd_of_mod_eq_zero whole)
        have value : n = if s then - ((units r / Binary64.one : Nat) : Int)
            else ((units r / Binary64.one : Nat) : Int) := by
          rw [← Option.some.inj h, Binary64.signedUnits]
          cases s with
          | false => exact (Int.ofNat_tdiv _ _).symm
          | true => rw [if_pos rfl, if_pos rfl, Int.neg_tdiv, Int.ofNat_tdiv]
        have size : n.natAbs = units r / Binary64.one := by
          rw [value]
          split
          · exact Int.natAbs_neg _
          · rfl
        have sign : decide (n < 0) = s := by
          cases s with
          | false =>
            rw [value, if_neg Bool.false_ne_true, decide_eq_false]
            omega
          | true =>
            have some : r.val ≠ 0 := by
              intro zero
              rw [Binary64.isNegativeZero, zero] at positive
              cases positive
            have pos : units r / Binary64.one ≠ 0 := by
              intro zero
              rw [zero, Nat.zero_mul] at product
              have less := @units_lt_iff 0 r
              have : units 0 = 0 := units_of_lt (by decide)
              omega
            rw [value, if_pos rfl, decide_eq_true]
            omega
        rw [Binary64.ofInt, Binary64.ofRatio, sign, size, product, nearestRank_units,
          Binary64.ofRank, dif_pos r.isLt]
      · rw [Binary64.toInt?, if_neg whole] at h
        cases h
  · cases h

/-- The double nearest to a small integer stands for it. -/
theorem exactInteger?_ofInt {n : Int} (small : n.natAbs < 2 ^ 53) :
    Value.exactInteger? (.ofInt n) = some n := by
  obtain ⟨e, power⟩ := Binary64.exists_one
  obtain ⟨rank, same⟩ := exists_units small e
  rw [← power] at same
  have bound : rank < rankCount := by
    rw [← units_lt_iff, same]
    have top : 2 ^ 53 * Binary64.one ≤ units rankCount := by decide +kernel
    exact Nat.lt_of_lt_of_le (Nat.mul_lt_mul_of_pos_right small Binary64.one_pos) top
  have double : Binary64.ofInt n = .finite (decide (n < 0)) ⟨rank, bound⟩ := by
    rw [Binary64.ofInt, Binary64.ofRatio, ← same, nearestRank_units, Binary64.ofRank, dif_pos bound]
  have whole : units rank % Binary64.one = 0 := by rw [same, Nat.mul_mod_left]
  have quotient : units rank / Binary64.one = n.natAbs := by
    rw [same, Nat.mul_div_cancel _ Binary64.one_pos]
  have value : (Binary64.ofInt n).toInt? = some n := by
    rw [double, Binary64.toInt?, if_pos whole, Binary64.signedUnits]
    by_cases negative : n < 0
    · rw [if_pos (decide_eq_true negative), Int.neg_tdiv, ← Int.ofNat_tdiv, quotient]
      exact congrArg some (by omega)
    · rw [if_neg (by rw [decide_eq_true_eq]; exact negative), ← Int.ofNat_tdiv, quotient]
      exact congrArg some (by omega)
  have positive : (Binary64.ofInt n).isNegativeZero = false := by
    rw [double, Binary64.isNegativeZero]
    by_cases zero : rank = 0
    · have none : n.natAbs = 0 := by
        rw [← quotient, zero, units_of_lt (by decide), Nat.zero_div]
      have : ¬n < 0 := by omega
      simp [this]
    · simp [zero]
  have exact : (Binary64.ofInt n).isExactInteger = true := by
    rw [Binary64.isExactInteger, value]
    exact decide_eq_true small
  rw [Value.exactInteger?, exact, positive, value]
  rfl

/-- The doubles that stand alone for an integer are those of the small integers. -/
theorem exactInteger?_iff {x : Binary64} {n : Int} :
    Value.exactInteger? x = some n ↔ n.natAbs < 2 ^ 53 ∧ x = .ofInt n := by
  constructor
  · intro h
    refine ⟨?_, (ofInt_of_exactInteger? h).symm⟩
    unfold Value.exactInteger? at h
    split at h
    · next exact =>
      rw [Bool.and_eq_true, Binary64.isExactInteger, h] at exact
      exact of_decide_eq_true exact.1
    · cases h
  · rintro ⟨small, rfl⟩
    exact exactInteger?_ofInt small

namespace Binary64

/-- The units of a double that is whole. -/
theorem signedUnits_of_toInt? {x : Binary64} {n : Int} (h : x.toInt? = some n) :
    ∃ s r, x = finite s r ∧ signedUnits s r = n * one := by
  cases x with
  | nan | infinite => cases h
  | finite s r =>
    refine ⟨s, r, rfl, ?_⟩
    by_cases whole : units r % one = 0
    · have divides : (one : Int) ∣ signedUnits s r := by
        have divides := Int.natCast_dvd_natCast.2 (Nat.dvd_of_mod_eq_zero whole)
        unfold signedUnits
        split
        · exact Int.dvd_neg.2 divides
        · exact divides
      rw [toInt?, if_pos whole] at h
      rw [← Option.some.inj h, Int.tdiv_mul_cancel divides]
    · rw [toInt?, if_neg whole] at h
      cases h

/-- A small natural number is a double. -/
theorem toInt?_ofNat {n : Nat} (small : n < 2 ^ 53) : (ofNat n).toInt? = some (n : Int) := by
  have exact : Value.exactInteger? (ofNat n) = some (n : Int) :=
    exactInteger?_ofInt (n := (n : Int)) small
  unfold Value.exactInteger? at exact
  split at exact
  · exact exact
  · cases exact

theorem ofNat_zero : ofNat 0 = zero := by
  have none : nearestRank 0 1 = 0 := by decide
  rw [ofNat, ofRatio, Nat.zero_mul, none, zero]

/-- Whole doubles are in the order of their values. -/
theorem lt_whole {x y : Binary64} {k j : Int} (hx : x.toInt? = some k) (hy : y.toInt? = some j) :
    x.lt y = decide (k < j) := by
  obtain ⟨s, r, rfl, units⟩ := signedUnits_of_toInt? hx
  obtain ⟨s', r', rfl, units'⟩ := signedUnits_of_toInt? hy
  have pos : (0 : Int) < one := Int.natCast_pos.2 one_pos
  rw [lt, units, units', decide_eq_decide]
  exact Int.mul_lt_mul_right pos

end Binary64

end SpanTree
