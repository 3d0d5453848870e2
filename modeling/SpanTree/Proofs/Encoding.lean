import SpanTree.Proofs.Storage

/-!
# Texts and their bytes

A text that is written to an arena and read again has its lone surrogates replaced, and it has lost
a byte order mark in front of it.

* `Utf8.decodeChars_encodeChar`, `Utf8.decode_encode`: bytes are read back as they were written;
* `Text.Lone`, `Text.getElem?_wellFormed`: the surrogates that are replaced, unit by unit;
* `Text.wellFormed_plain`, `Text.mem_wellFormed`, `Text.wellFormed_wellFormed`: which texts have
  lone surrogates;
* `Text.kept`, `Text.Clean`, `Text.kept_iff`: what an arena gives back of a text, and the texts that
  it gives back as they are;
* `Arena.Spells.kept`: the text of a span that spells a text.
-/

namespace SpanTree

/-! ## Bytes -/

namespace Utf8

variable {a b c d : UInt8} {rest : List UInt8}

theorem decodeChars_one (ha : a.toNat < 0x80) :
    decodeChars (a :: rest) = Char.ofNat a.toNat :: decodeChars rest := by
  have first : a < 0x80 := UInt8.lt_iff_toNat_lt.2 ha
  rw [decodeChars.eq_def]
  exact if_pos first

theorem not_ascii (h : 0x80 ≤ a.toNat) : ¬ a < 0x80 := by
  rw [UInt8.lt_iff_toNat_lt]
  exact Nat.not_lt.2 h

theorem not_lead_two (h : 0xE0 ≤ a.toNat) : ¬ (0xC2 ≤ a && a ≤ 0xDF) = true := by
  simp [UInt8.le_iff_toNat_le]
  omega

theorem decodeChars_two (low : 0xC2 ≤ a.toNat) (high : a.toNat ≤ 0xDF)
    (hb : isContinuation b = true) :
    decodeChars (a :: b :: rest) =
      Char.ofNat (a.toNat % 32 * 64 + payload b) :: decodeChars rest := by
  have two : (0xC2 ≤ a && a ≤ 0xDF) = true := by
    simp [UInt8.le_iff_toNat_le, low, high]
  rw [decodeChars.eq_def]
  dsimp only
  rw [if_neg (not_ascii (by omega)), if_pos two, if_pos hb]

theorem decodeChars_three (low : 0xE0 ≤ a.toNat) (high : a.toNat ≤ 0xEF)
    (hb : isSecondOfThree a b = true) (hc : isContinuation c = true) :
    decodeChars (a :: b :: c :: rest) =
      Char.ofNat ((a.toNat % 16 * 64 + payload b) * 64 + payload c) :: decodeChars rest := by
  have three : (0xE0 ≤ a && a ≤ 0xEF) = true := by
    simp [UInt8.le_iff_toNat_le, low, high]
  rw [decodeChars.eq_def]
  dsimp only
  rw [if_neg (not_ascii (by omega)), if_neg (not_lead_two low), if_pos three, if_pos hb,
    if_pos hc]

theorem decodeChars_four (low : 0xF0 ≤ a.toNat) (high : a.toNat ≤ 0xF4)
    (hb : isSecondOfFour a b = true) (hc : isContinuation c = true)
    (hd : isContinuation d = true) :
    decodeChars (a :: b :: c :: d :: rest) =
      Char.ofNat (((a.toNat % 8 * 64 + payload b) * 64 + payload c) * 64 + payload d) ::
        decodeChars rest := by
  have three : ¬ (0xE0 ≤ a && a ≤ 0xEF) = true := by
    simp [UInt8.le_iff_toNat_le]
    omega
  have four : (0xF0 ≤ a && a ≤ 0xF4) = true := by
    simp [UInt8.le_iff_toNat_le, low, high]
  rw [decodeChars.eq_def]
  dsimp only
  rw [if_neg (not_ascii (by omega)), if_neg (not_lead_two (by omega)), if_neg three, if_pos four,
    if_pos hb, if_pos hc, if_pos hd]

theorem toNat_byte {n : Nat} (h : n < 256) : (UInt8.ofNat n).toNat = n := by
  rw [UInt8.toNat_ofNat']
  omega

theorem isContinuation_byte (n : Nat) : isContinuation (UInt8.ofNat (n % 64 + 0x80)) = true := by
  simp [isContinuation, UInt8.le_iff_toNat_le]
  omega

theorem payload_byte (n : Nat) : payload (UInt8.ofNat (n % 64 + 0x80)) = n % 64 := by
  rw [payload, toNat_byte (by omega)]
  omega

/-- The second of three bytes is neither that of a shorter spelling nor that of a surrogate. -/
theorem isSecondOfThree_byte {v : Nat} (low : 0x800 ≤ v) (high : v < 0x10000)
    (valid : v < 0xD800 ∨ 0xDFFF < v) : isSecondOfThree (UInt8.ofNat (v / 4096 % 0x10 + 0xE0))
      (UInt8.ofNat (v / 64 % 64 + 0x80)) = true := by
  have first : (UInt8.ofNat (v / 4096 % 0x10 + 0xE0)).toNat = v / 4096 % 0x10 + 0xE0 :=
    toNat_byte (by omega)
  have other : (UInt8.ofNat (v / 64 % 64 + 0x80)).toNat = v / 64 % 64 + 0x80 :=
    toNat_byte (by omega)
  simp only [isSecondOfThree, Bool.and_eq_true, decide_eq_true_eq, UInt8.le_iff_toNat_le, other,
    ← UInt8.toNat_inj, first, UInt8.reduceToNat]
  constructor
  · split
    · simp
      omega
    · simp
  · split
    · simp
      omega
    · simp
      omega

/-- The second of four bytes is neither that of a shorter spelling nor beyond all characters. -/
theorem isSecondOfFour_byte {v : Nat} (low : 0x10000 ≤ v) (high : v < 0x110000) :
    isSecondOfFour (UInt8.ofNat (v / 262144 % 8 + 0xF0)) (UInt8.ofNat (v / 4096 % 64 + 0x80)) =
      true := by
  have first : (UInt8.ofNat (v / 262144 % 8 + 0xF0)).toNat = v / 262144 % 8 + 0xF0 :=
    toNat_byte (by omega)
  have other : (UInt8.ofNat (v / 4096 % 64 + 0x80)).toNat = v / 4096 % 64 + 0x80 :=
    toNat_byte (by omega)
  simp only [isSecondOfFour, Bool.and_eq_true, decide_eq_true_eq, UInt8.le_iff_toNat_le, other,
    ← UInt8.toNat_inj, first, UInt8.reduceToNat]
  constructor
  · split
    · simp
      omega
    · simp
  · split
    · simp
      omega
    · simp
      omega

/-- Every character is read back from its bytes. -/
theorem decodeChars_encodeChar (c : Char) (rest : List UInt8) :
    decodeChars (String.utf8EncodeChar c ++ rest) = c :: decodeChars rest := by
  have valid : c.val.toNat < 0xD800 ∨ (0xDFFF < c.val.toNat ∧ c.val.toNat < 0x110000) := c.valid
  have back : Char.ofNat c.val.toNat = c := Char.ofNat_toNat c
  unfold String.utf8EncodeChar
  dsimp only
  generalize c.val.toNat = v at valid back ⊢
  split
  · rw [List.singleton_append, decodeChars_one (by rw [toNat_byte] <;> omega),
      toNat_byte (by omega), back]
  split
  · have first : (UInt8.ofNat (v / 64 % 0x20 + 0xC0)).toNat = v / 64 % 0x20 + 0xC0 :=
      toNat_byte (by omega)
    have value : (v / 64 % 0x20 + 0xC0) % 32 * 64 + v % 64 = v := by omega
    simp only [List.cons_append, List.nil_append]
    rw [decodeChars_two (by omega) (by omega) (isContinuation_byte v), payload_byte, first, value,
      back]
  split
  · have first : (UInt8.ofNat (v / 4096 % 0x10 + 0xE0)).toNat = v / 4096 % 0x10 + 0xE0 :=
      toNat_byte (by omega)
    have value : ((v / 4096 % 0x10 + 0xE0) % 16 * 64 + v / 64 % 64) * 64 + v % 64 = v := by omega
    simp only [List.cons_append, List.nil_append]
    rw [decodeChars_three (by omega) (by omega)
      (isSecondOfThree_byte (by omega) (by omega) (by omega)) (isContinuation_byte v), payload_byte,
      payload_byte, first, value, back]
  · have first : (UInt8.ofNat (v / 262144 % 8 + 0xF0)).toNat = v / 262144 % 8 + 0xF0 :=
      toNat_byte (by omega)
    have value : (((v / 262144 % 8 + 0xF0) % 8 * 64 + v / 4096 % 64) * 64 + v / 64 % 64) * 64 +
        v % 64 = v := by omega
    simp only [List.cons_append, List.nil_append]
    rw [decodeChars_four (by omega) (by omega) (isSecondOfFour_byte (by omega) (by omega))
      (isContinuation_byte _) (isContinuation_byte v), payload_byte, payload_byte, payload_byte,
      first, value, back]

theorem decodeChars_encode (cs : List Char) :
    decodeChars (cs.flatMap String.utf8EncodeChar) = cs := by
  induction cs with
  | nil => rfl
  | cons c cs ih => rw [List.flatMap_cons, decodeChars_encodeChar, ih]

/-- The bytes of a text are read as the text with its lone surrogates replaced. -/
theorem decode_encode (t : Text) : decode (encode t) = t.wellFormed := by
  rw [decode, encode, decodeChars_encode, Text.wellFormed]

end Utf8

namespace Text

/-! ## Surrogates -/

def Ascii (t : Text) : Prop := ∀ u ∈ t, u < 0x80

def Plain (t : Text) : Prop := ∀ u ∈ t, u.isHigh = false ∧ u.isLow = false

/-- Texts that an arena gives back as they are: each surrogate has its other half, and there is no
byte order mark in front. -/
structure Clean (t : Text) : Prop where
  paired : t.wellFormed = t
  unmarked : t.head? ≠ some 0xFEFF

theorem isHigh_iff (u : CodeUnit) :
    u.isHigh = true ↔ 0xD800 ≤ u.toNat ∧ u.toNat ≤ 0xDBFF := by
  simp [CodeUnit.isHigh, UInt16.le_iff_toNat_le]

theorem isLow_iff (u : CodeUnit) : u.isLow = true ↔ 0xDC00 ≤ u.toNat ∧ u.toNat ≤ 0xDFFF := by
  simp [CodeUnit.isLow, UInt16.le_iff_toNat_le]

theorem ascii_of_all {t : Text} (h : t.all (· < 0x80) = true) : Ascii t := fun u hu =>
  of_decide_eq_true (List.all_eq_true.1 h u hu)

theorem Ascii.plain {t : Text} (h : Ascii t) : Plain t := by
  intro u hu
  have small : u.toNat < 0x80 := UInt16.lt_iff_toNat_lt.1 (h u hu)
  constructor
  · rw [Bool.eq_false_iff, Ne, isHigh_iff]
    omega
  · rw [Bool.eq_false_iff, Ne, isLow_iff]
    omega

theorem Ascii.unmarked {t : Text} (h : Ascii t) : t.head? ≠ some 0xFEFF := by
  intro mark
  exact absurd (h _ (List.mem_of_head? mark)) (by decide)

theorem Ascii.append {a b : Text} (ha : Ascii a) (hb : Ascii b) : Ascii (a ++ b) := by
  intro u hu
  rcases List.mem_append.1 hu with h | h
  · exact ha u h
  · exact hb u h

theorem ascii_digit {u : CodeUnit} (h : u.isDigit = true) : u < 0x80 := by
  simp [CodeUnit.isDigit, UInt16.le_iff_toNat_le] at h
  rw [UInt16.lt_iff_toNat_lt]
  simp
  omega

theorem toNat_unitChar {u : CodeUnit} (high : u.isHigh = false) (low : u.isLow = false) :
    (unitChar u).toNat = u.toNat := by
  have size : u.toNat < 65536 := u.toNat_lt
  have valid : u.toNat.isValidChar := by
    rw [Bool.eq_false_iff, Ne, isHigh_iff] at high
    rw [Bool.eq_false_iff, Ne, isLow_iff] at low
    unfold Nat.isValidChar
    omega
  rw [unitChar, high, low, Bool.or_false, if_neg Bool.false_ne_true, Char.ofNat, dif_pos valid]
  rfl

theorem ofChar_unitChar {u : CodeUnit} (high : u.isHigh = false) (low : u.isLow = false) :
    ofChar (unitChar u) = [u] := by
  have size : u.toNat < 65536 := u.toNat_lt
  rw [ofChar, toNat_unitChar high low, if_pos size, Nat.toUInt16_eq, UInt16.ofNat_toNat]

theorem toNat_pairChar {u v : CodeUnit} (high : u.isHigh = true) (low : v.isLow = true) :
    (pairChar u v).toNat = 0x10000 + (u.toNat - 0xD800) * 0x400 + (v.toNat - 0xDC00) := by
  rw [isHigh_iff] at high
  rw [isLow_iff] at low
  have valid : (0x10000 + (u.toNat - 0xD800) * 0x400 + (v.toNat - 0xDC00)).isValidChar := by
    unfold Nat.isValidChar
    omega
  rw [pairChar, Char.ofNat, dif_pos valid]
  rfl

theorem ofChars_cons_char (c : Char) (cs : List Char) :
    ofChars (c :: cs) = ofChar c ++ ofChars cs :=
  List.flatMap_cons

theorem toChars_cons {u : CodeUnit} (high : u.isHigh = false) (t : Text) :
    toChars (u :: t) = unitChar u :: toChars t := by
  cases t with
  | nil => rfl
  | cons v rest => simp [toChars, high]

/-- A character is read back from its units. -/
theorem toChars_ofChar (c : Char) (t : Text) : toChars (ofChar c ++ t) = c :: toChars t := by
  have valid : c.toNat < 0xD800 ∨ (0xDFFF < c.toNat ∧ c.toNat < 0x110000) := c.valid
  have back : Char.ofNat c.toNat = c := Char.ofNat_toNat c
  have size {n : Nat} (h : n < 65536) : n.toUInt16.toNat = n := by
    rw [Nat.toUInt16_eq, UInt16.toNat_ofNat']
    omega
  unfold ofChar
  split
  · next basic =>
    have same := size basic
    have high : CodeUnit.isHigh c.toNat.toUInt16 = false := by
      rw [Bool.eq_false_iff, Ne, isHigh_iff]
      omega
    have low : CodeUnit.isLow c.toNat.toUInt16 = false := by
      rw [Bool.eq_false_iff, Ne, isLow_iff]
      omega
    rw [List.singleton_append, toChars_cons high, unitChar, high, low, Bool.or_false,
      if_neg Bool.false_ne_true, same, back]
  · next wide =>
    have first := size (show 0xD800 + (c.toNat - 0x10000) / 0x400 < 65536 by omega)
    have second := size (show 0xDC00 + (c.toNat - 0x10000) % 0x400 < 65536 by omega)
    have high := (isHigh_iff (0xD800 + (c.toNat - 0x10000) / 0x400).toUInt16).2 (by omega)
    have low := (isLow_iff (0xDC00 + (c.toNat - 0x10000) % 0x400).toUInt16).2 (by omega)
    have value : 0x10000 + (0xD800 + (c.toNat - 0x10000) / 0x400 - 0xD800) * 0x400 +
        (0xDC00 + (c.toNat - 0x10000) % 0x400 - 0xDC00) = c.toNat := by omega
    rw [List.cons_append, List.singleton_append, toChars, high, low, Bool.and_self, if_pos rfl,
      pairChar, first, second, value, back]

theorem toChars_ofChars (cs : List Char) : toChars (ofChars cs) = cs := by
  induction cs with
  | nil => rfl
  | cons c cs ih => rw [ofChars_cons_char, toChars_ofChar, ih]

theorem ofChar_pairChar {u v : CodeUnit} (high : u.isHigh = true) (low : v.isLow = true) :
    ofChar (pairChar u v) = [u, v] := by
  have value := toNat_pairChar high low
  rw [isHigh_iff] at high
  rw [isLow_iff] at low
  have back {n : Nat} {w : CodeUnit} (h : n = w.toNat) : n.toUInt16 = w := by
    rw [h, Nat.toUInt16_eq, UInt16.ofNat_toNat]
  rw [ofChar, if_neg (by omega), back (w := u) (by omega), back (w := v) (by omega)]

/-- A surrogate without its other half beside it. -/
def Lone (t : Text) (i : Nat) : Prop :=
  ∃ u, t[i]? = some u ∧
    (u.isHigh = true ∧ (∀ v, t[i + 1]? = some v → v.isLow = false) ∨
      u.isLow = true ∧ ∀ j v, i = j + 1 → t[j]? = some v → v.isHigh = false)

theorem lone_succ {u : CodeUnit} {t : Text} {i : Nat}
    (apart : i = 0 → ∀ v, t[0]? = some v → v.isLow = true → u.isHigh = false) :
    Lone (u :: t) (i + 1) ↔ Lone t i := by
  unfold Lone
  simp only [List.getElem?_cons_succ]
  refine exists_congr fun w => and_congr_right fun here => or_congr_right ?_
  refine and_congr_right fun low => ?_
  cases i with
  | zero =>
    refine ⟨fun _ j v next => absurd next (Nat.succ_ne_zero j).symm, fun _ j v next before => ?_⟩
    obtain rfl : 0 = j := Nat.succ.inj next
    cases before
    exact apart rfl w here low
  | succ i =>
    constructor
    · intro h j v next before
      exact h (j + 1) v (congrArg Nat.succ next) before
    · intro h j v next before
      obtain rfl : i + 1 = j := Nat.succ.inj next
      exact h i v rfl before

theorem wellFormed_pair {u v : CodeUnit} (high : u.isHigh = true) (low : v.isLow = true)
    (rest : Text) : wellFormed (u :: v :: rest) = u :: v :: rest.wellFormed := by
  have pair : (u.isHigh && v.isLow) = true := by rw [high, low, Bool.and_self]
  rw [wellFormed, toChars, if_pos pair, ofChars_cons_char, ofChar_pairChar high low]
  rfl

/-- A unit that begins no pair is replaced if it is a surrogate. -/
theorem wellFormed_single {u : CodeUnit} {t : Text}
    (apart : ∀ v, t[0]? = some v → v.isLow = true → u.isHigh = false) :
    wellFormed (u :: t) =
      (if u.isHigh || u.isLow then 0xFFFD else u) :: t.wellFormed := by
  have first : ofChar (unitChar u) = [if u.isHigh || u.isLow then 0xFFFD else u] := by
    split
    · next surrogate =>
      rw [unitChar, if_pos surrogate]
      rfl
    · next plain =>
      rw [Bool.not_eq_true, Bool.or_eq_false_iff] at plain
      exact ofChar_unitChar plain.1 plain.2
  have step : toChars (u :: t) = unitChar u :: toChars t := by
    cases t with
    | nil => rfl
    | cons v rest =>
      rw [toChars, if_neg]
      intro pair
      rw [Bool.and_eq_true] at pair
      rw [apart v rfl pair.2] at pair
      exact Bool.false_ne_true pair.1
  rw [wellFormed, step, ofChars_cons_char, first]
  rfl

theorem not_lone_nil (i : Nat) : ¬ Lone [] i := by
  rintro ⟨u, here, _⟩
  cases here

/-- A unit in front that begins no pair is alone if it is a surrogate. -/
theorem lone_zero {u : CodeUnit} {t : Text}
    (apart : ∀ v, t[0]? = some v → v.isLow = true → u.isHigh = false) :
    Lone (u :: t) 0 ↔ (u.isHigh || u.isLow) = true := by
  rw [Bool.or_eq_true]
  constructor
  · rintro ⟨w, here, high | low⟩
    · cases here
      exact .inl high.1
    · cases here
      exact .inr low.1
  · rintro (high | low)
    · refine ⟨u, rfl, .inl ⟨high, fun v next => ?_⟩⟩
      cases hv : v.isLow with
      | false => rfl
      | true =>
        rw [apart v next hv] at high
        cases high
    · exact ⟨u, rfl, .inr ⟨low, fun j v next => absurd next (Nat.succ_ne_zero j).symm⟩⟩

theorem high_not_low {u : CodeUnit} (high : u.isHigh = true) : u.isLow = false := by
  rw [isHigh_iff] at high
  rw [Bool.eq_false_iff, Ne, isLow_iff]
  omega

/-- Neither half of a pair is alone, and behind it nothing changes. -/
theorem lone_pair {u v : CodeUnit} (high : u.isHigh = true) (low : v.isLow = true) (rest : Text) :
    ¬ Lone (u :: v :: rest) 0 ∧ ¬ Lone (u :: v :: rest) 1 ∧
      ∀ i, Lone (u :: v :: rest) (i + 2) ↔ Lone rest i := by
  have second : v.isHigh = false := by
    rw [Bool.eq_false_iff]
    intro both
    rw [high_not_low both] at low
    cases low
  refine ⟨?_, ?_, ?_⟩
  · rintro ⟨w, here, ⟨_, alone⟩ | ⟨half, _⟩⟩
    · rw [alone v rfl] at low
      cases low
    · cases here
      rw [high_not_low high] at half
      cases half
  · rintro ⟨w, here, ⟨half, _⟩ | ⟨_, alone⟩⟩
    · cases here
      rw [second] at half
      cases half
    · rw [alone 0 u rfl rfl] at high
      cases high
  · intro i
    rw [lone_succ fun next => absurd next (Nat.succ_ne_zero i), lone_succ]
    intro _ w _ _
    exact second

/-- The units of a text one by one: the surrogates that are alone are replaced, and no other. -/
theorem getElem?_wellFormed (t : Text) (i : Nat) :
    (t.Lone i → t.wellFormed[i]? = some 0xFFFD) ∧ (¬ t.Lone i → t.wellFormed[i]? = t[i]?) := by
  have single {u : CodeUnit} {t : Text}
      (apart : ∀ v, t[0]? = some v → v.isLow = true → u.isHigh = false)
      (ih : ∀ i, (t.Lone i → t.wellFormed[i]? = some 0xFFFD) ∧
        (¬ t.Lone i → t.wellFormed[i]? = t[i]?)) (i : Nat) :
      (Lone (u :: t) i → (wellFormed (u :: t))[i]? = some 0xFFFD) ∧
        (¬ Lone (u :: t) i → (wellFormed (u :: t))[i]? = (u :: t)[i]?) := by
    rw [wellFormed_single apart]
    cases i with
    | zero =>
      rw [lone_zero apart, List.getElem?_cons_zero, List.getElem?_cons_zero]
      exact ⟨fun lone => by rw [if_pos lone], fun paired => by rw [if_neg paired]⟩
    | succ i =>
      rw [lone_succ fun _ => apart]
      exact ih i
  fun_induction toChars t generalizing i with
  | case1 => exact ⟨fun lone => absurd lone (not_lone_nil i), fun _ => rfl⟩
  | case2 u =>
    refine single (t := []) ?_ ?_ i
    · intro v here
      cases here
    · exact fun i => ⟨fun lone => absurd lone (not_lone_nil i), fun _ => rfl⟩
  | case3 u v rest pair ih =>
    rw [Bool.and_eq_true] at pair
    obtain ⟨first, second, behind⟩ := lone_pair pair.1 pair.2 rest
    rw [wellFormed_pair pair.1 pair.2]
    match i with
    | 0 => exact ⟨fun lone => absurd lone first, fun _ => rfl⟩
    | 1 => exact ⟨fun lone => absurd lone second, fun _ => rfl⟩
    | i + 2 =>
      rw [behind]
      exact ih i
  | case4 u v rest pair ih =>
    refine single ?_ ih i
    intro w here low
    cases here
    simpa [low] using pair

theorem wellFormed_iff {t : Text} : t.wellFormed = t ↔ ∀ i, ¬ t.Lone i := by
  constructor
  · intro same i lone
    have replaced := (getElem?_wellFormed t i).1 lone
    rw [same] at replaced
    obtain ⟨u, here, half⟩ := lone
    rw [replaced] at here
    cases here
    rcases half with ⟨high, _⟩ | ⟨low, _⟩
    · exact absurd high (by decide)
    · exact absurd low (by decide)
  · intro paired
    apply List.ext_getElem?
    intro i
    exact (getElem?_wellFormed t i).2 (paired i)

theorem length_wellFormed (t : Text) : t.wellFormed.length = t.length := by
  fun_induction toChars t with
  | case1 => rfl
  | case2 u =>
    rw [wellFormed_single (t := []) fun v here => by cases here]
    rfl
  | case3 u v rest pair ih =>
    rw [Bool.and_eq_true] at pair
    rw [wellFormed_pair pair.1 pair.2, List.length_cons, List.length_cons, ih]
    rfl
  | case4 u v rest pair ih =>
    rw [wellFormed_single, List.length_cons, ih]
    · rfl
    · intro w here low
      cases here
      simpa [low] using pair

theorem not_lone_of_plain {t : Text} {u : CodeUnit} {i : Nat} (here : t[i]? = some u)
    (high : u.isHigh = false) (low : u.isLow = false) : ¬ t.Lone i := by
  rintro ⟨v, here', half⟩
  rw [here] at here'
  cases here'
  rcases half with ⟨high', _⟩ | ⟨low', _⟩
  · rw [high] at high'
    cases high'
  · rw [low] at low'
    cases low'

/-- A text without surrogates has nothing to be replaced. -/
theorem wellFormed_plain {t : Text} (h : Plain t) : t.wellFormed = t := by
  rw [wellFormed_iff]
  rintro i ⟨u, here, half⟩
  obtain ⟨high, low⟩ := h u (List.mem_of_getElem? here)
  exact not_lone_of_plain here high low ⟨u, here, half⟩

/-- A unit that is no surrogate is not replaced. -/
theorem mem_wellFormed {t : Text} {w : CodeUnit} (h : w ∈ t) (high : w.isHigh = false)
    (low : w.isLow = false) : w ∈ t.wellFormed := by
  obtain ⟨i, here⟩ := List.getElem?_of_mem h
  have stays := (getElem?_wellFormed t i).2 (not_lone_of_plain here high low)
  rw [here] at stays
  exact List.mem_of_getElem? stays

/-- Once replaced, no surrogate is alone. -/
theorem wellFormed_wellFormed (t : Text) : t.wellFormed.wellFormed = t.wellFormed := by
  rw [wellFormed, wellFormed, toChars_ofChars]

/-- Only the unit of the byte order mark stands for that character. -/
theorem head_toChars {t : Text} (h : t.toChars.head? = some (Char.ofNat 0xFEFF)) :
    t.head? = some 0xFEFF := by
  have mark : (Char.ofNat 0xFEFF).toNat = 0xFEFF := by decide
  have other {u : CodeUnit} (hu : unitChar u = Char.ofNat 0xFEFF) : u = 0xFEFF := by
    by_cases surrogate : (u.isHigh || u.isLow) = true
    · rw [unitChar, if_pos surrogate] at hu
      exact absurd hu (by decide)
    · rw [Bool.not_eq_true, Bool.or_eq_false_iff] at surrogate
      apply UInt16.toNat_inj.1
      rw [← toNat_unitChar surrogate.1 surrogate.2, hu, mark]
      rfl
  fun_cases toChars t with
  | case1 => cases h
  | case2 u => exact congrArg some (other (Option.some.inj h))
  | case3 u v rest pair =>
    rw [Bool.and_eq_true] at pair
    have value := toNat_pairChar pair.1 pair.2
    have same : pairChar u v = Char.ofNat 0xFEFF := by
      rw [toChars, if_pos (by simp [pair])] at h
      exact Option.some.inj h
    rw [same, mark] at value
    omega
  | case4 u v rest pair =>
    rw [toChars, if_neg pair] at h
    exact congrArg some (other (Option.some.inj h))

theorem unmarked_wellFormed {t : Text} (h : t.head? ≠ some 0xFEFF) :
    t.wellFormed.head? ≠ some 0xFEFF := by
  rw [List.head?_eq_getElem?] at h ⊢
  obtain ⟨replaced, stays⟩ := getElem?_wellFormed t 0
  by_cases lone : t.Lone 0
  · rw [replaced lone]
    decide
  · rw [stays lone]
    exact h

/-! ## What an arena gives back -/

/-- The text without one leading byte order mark. -/
def unmarked : Text → Text
  | [] => []
  | u :: rest => if u = 0xFEFF then rest else u :: rest

/-- What an arena gives back of a text that was copied into it. -/
def kept (t : Text) : Text := t.unmarked.wellFormed

theorem unmarked_mark (rest : Text) : unmarked (0xFEFF :: rest) = rest := by
  rw [unmarked, if_pos rfl]

theorem unmarked_eq {t : Text} (h : t.head? ≠ some 0xFEFF) : t.unmarked = t := by
  cases t with
  | nil => rfl
  | cons u rest =>
    refine if_neg ?_
    rintro rfl
    exact h rfl

theorem kept_mark (rest : Text) : kept (0xFEFF :: rest) = rest.wellFormed := by
  rw [kept, unmarked_mark]

theorem kept_eq {t : Text} (h : t.head? ≠ some 0xFEFF) : t.kept = t.wellFormed := by
  rw [kept, unmarked_eq h]

/-- The clean texts are those that an arena gives back as they are. -/
theorem kept_iff {t : Text} : t.kept = t ↔ t.Clean := by
  constructor
  · intro same
    have front : t.head? ≠ some 0xFEFF := by
      intro mark
      obtain ⟨rest, rfl⟩ := List.head?_eq_some_iff.1 mark
      have shorter := congrArg List.length same
      rw [kept_mark, length_wellFormed, List.length_cons] at shorter
      omega
    exact ⟨by rw [← kept_eq front, same], front⟩
  · intro clean
    rw [kept_eq clean.unmarked, clean.paired]

end Text

namespace Utf8

theorem dropMark_encode_mark (rest : Text) :
    dropMark (encode (0xFEFF :: rest)) = encode rest := by
  rw [encode, Text.toChars_cons (by decide)]
  rfl

theorem dropMark_encode {t : Text} (h : t.head? ≠ some 0xFEFF) :
    dropMark (encode t) = encode t := by
  unfold dropMark
  split
  · next rest marked =>
    have chars := decodeChars_encode t.toChars
    rw [← encode, marked, decodeChars_three (by decide) (by decide) rfl rfl] at chars
    refine absurd (Text.head_toChars ?_) h
    rw [← chars]
    rfl
  · rfl

/-- The bytes of a text are read as the text without a byte order mark in front and with its lone
surrogates replaced. -/
theorem decodeMarked_encode (t : Text) : decodeMarked (encode t) = t.kept := by
  by_cases h : t.head? = some 0xFEFF
  · obtain ⟨rest, rfl⟩ := List.head?_eq_some_iff.1 h
    rw [decodeMarked, dropMark_encode_mark, decode_encode, Text.kept_mark]
  · rw [decodeMarked, dropMark_encode h, decode_encode, Text.kept_eq h]

end Utf8

/-- A slot that spells a text has a span that is read as it, as far as an arena gives it back. -/
theorem Arena.Spells.kept {a : Arena} {slot : Slot Span} {t : Text} (hs : a.Spells slot t) :
    ∃ span, slot = .known span ∧ a.text span = .ok t.kept := by
  obtain ⟨offset, length, rfl, reads⟩ := hs
  refine ⟨_, rfl, ?_⟩
  rw [← Utf8.decodeMarked_encode]
  unfold Arena.text
  split
  · next empty =>
    cases empty
    rw [read_natural] at reads
    split at reads
    · rw [← Except.ok.inj reads, List.take_zero]
      rfl
    · cases reads
  · rw [reads]
    rfl

theorem Arena.Spells.text {a : Arena} {slot : Slot Span} {t : Text} (hs : a.Spells slot t)
    (unmarked : t.head? ≠ some 0xFEFF) :
    ∃ span, slot = .known span ∧ a.text span = .ok t.wellFormed := by
  rw [← Text.kept_eq unmarked]
  exact hs.kept

end SpanTree
