import SpanTree.Settings
import SpanTree.Proofs.Nearest
import SpanTree.Proofs.Recursion
import SpanTree.Proofs.RoundTrip
import SpanTree.Proofs.Serialization

/-!
# The texts of numbers

Which number the stored text of a number is, and what is rendered for it.

* `Json.Denotes`: the sign and the decimal that a numeral stands for, by the grammar;
* `Denotes.unique`, `isNumber_iff_denotes`: a number stands for one of them, and nothing else does;
* `number_texts`: an integer is stored as its digits, and a finite double as a numeral to which no
  other double is nearest; these are rendered as they are stored, and all else as a string;
* `present_number_text`: a presented double has one text, be it presented as an integer or not.
-/

namespace SpanTree

open Json (Whole Exponent)

/-! ## Denoting -/

/-- A numeral in parts, with the decimal that it stands for behind its sign: the digits of the whole
part and of the fraction, which moves the point against the exponent. -/
def Json.Denotes (t : Text) (negative : Bool) (d : Decimal) : Prop :=
  ∃ whole fraction tail, Whole whole ∧ (∀ u ∈ fraction, u.isDigit = true) ∧ Exponent tail ∧
    t = signOf negative ++ (whole ++ (pointed fraction ++ tail)) ∧
    d = ⟨Text.digitsValue (whole ++ fraction), exponentOf tail - fraction.length⟩

namespace Json.Denotes

variable {t : Text} {negative : Bool} {d : Decimal}

/-- What a numeral stands for is what it is read as. -/
theorem denoted (h : Denotes t negative d) : denoted t = (negative, d) := by
  obtain ⟨whole, fraction, tail, front, digits, back, rfl, rfl⟩ := h
  have stop := Exponent.head back noMore_nil
  rw [List.append_nil] at stop
  exact denoted_eq negative front.digits digits stop

theorem ofNumeral (h : Denotes t negative d) :
    Binary64.ofNumeral t = Binary64.ofDecimal negative d := by
  rw [ofNumeral_denoted, h.denoted]

/-- A numeral stands for one decimal. -/
theorem unique {negative' : Bool} {d' : Decimal} (h : Denotes t negative d)
    (h' : Denotes t negative' d') : negative' = negative ∧ d' = d :=
  Prod.mk.inj (h'.denoted.symm.trans h.denoted)

end Json.Denotes

/-- The numbers of the grammar are the texts that stand for a decimal. -/
theorem Json.isNumber_iff_denotes {t : Text} :
    isNumber t = true ↔ ∃ negative d, Denotes t negative d := by
  rw [isNumber_iff]
  constructor
  · rintro ⟨sign, whole, fraction, tail, minus, front, point, back, rfl⟩
    obtain ⟨negative, rfl⟩ : ∃ negative, sign = signOf negative := by
      rcases minus with rfl | rfl
      · exact ⟨false, rfl⟩
      · exact ⟨true, rfl⟩
    obtain ⟨digits, all, rfl⟩ : ∃ digits, (∀ u ∈ digits, u.isDigit = true) ∧
        fraction = pointed digits := by
      rcases point with rfl | ⟨digits, some, rfl⟩
      · exact ⟨[], nofun, rfl⟩
      · exact ⟨digits, some.2, by rw [pointed, if_neg some.1]⟩
    exact ⟨negative, _, whole, digits, tail, front, all, back, rfl, rfl⟩
  · rintro ⟨negative, d, whole, fraction, tail, front, digits, back, rfl, rfl⟩
    refine ⟨signOf negative, whole, pointed fraction, tail, sign_signOf negative, front, ?_, back,
      rfl⟩
    unfold pointed
    split
    · exact .inl rfl
    · next some => exact .inr ⟨fraction, ⟨some, digits⟩, rfl⟩

/-! ## Stored texts -/

def Decimal.signed (negative : Bool) (d : Decimal) : ℚ := if negative then - d.value else d.value

namespace Scalar

/-- An integer is stored as the digits of its magnitude behind its sign. -/
theorem integerText_denotes (n : Int) :
    Json.Denotes (integerText n) (decide (n < 0)) ⟨n.natAbs, 0⟩ := by
  refine ⟨.ofNat n.natAbs, [], [], whole_ofNat _, nofun, .inl rfl, ?_, ?_⟩
  · rw [pointed, if_pos rfl, List.append_nil, List.append_nil]
    exact ofInt_eq n
  · rw [List.append_nil, digitsValue_ofNat]
    rfl

theorem integerText_value (n : Int) :
    Decimal.signed (decide (n < 0)) ⟨n.natAbs, 0⟩ = n := by
  have value : Decimal.value ⟨n.natAbs, 0⟩ = (n.natAbs : Int) := by
    rw [Decimal.value, zpow_zero, mul_one, Int.cast_natCast]
  rw [Decimal.signed, value]
  by_cases negative : n < 0
  · rw [if_pos (decide_eq_true negative), ← Int.cast_neg, Int.ofNat_natAbs_of_nonpos (by omega),
      neg_neg]
  · rw [if_neg (by rwa [decide_eq_true_eq]), Int.natAbs_of_nonneg (by omega)]

/-- No plus sign stands in the text of an integer. -/
theorem plus_integerText (n : Int) : unit '+' ∉ integerText n := by
  rw [integerText, ofInt_eq]
  intro plus
  rcases List.mem_append.1 plus with sign | digit
  · rcases sign_signOf (decide (n < 0)) with none | minus
    · rw [none] at sign
      cases sign
    · rw [minus] at sign
      exact absurd (List.mem_singleton.1 sign) (by decide)
  · exact absurd ((digits_ofNat n.natAbs).2 _ digit) (by decide)

/-- The texts of the doubles that are not finite are no numbers. -/
theorem isNumber_floatText {x : Binary64} :
    Json.isNumber (floatText x) = true ↔ ∃ negative rank, x = .finite negative rank := by
  cases x with
  | nan => exact ⟨fun h => absurd h (by decide), by rintro ⟨_, _, same⟩; cases same⟩
  | infinite negative =>
    refine ⟨fun h => ?_, by rintro ⟨_, _, same⟩; cases same⟩
    cases negative <;> exact absurd h (by decide)
  | finite negative rank =>
    exact ⟨fun _ => ⟨negative, rank, rfl⟩,
      fun _ => Json.isNumber_of_numeral (numeral_signedText negative rank)⟩

/-- The text of a double is read as it, where it is a number. -/
theorem ofNumeral_floatText {x : Binary64} (h : Json.isNumber (floatText x) = true) :
    Binary64.ofNumeral (floatText x) = x := by
  obtain ⟨negative, rank, rfl⟩ := isNumber_floatText.1 h
  exact ofNumeral_signedText negative rank

theorem floatText_injective : Function.Injective floatText := by
  intro x y same
  by_cases number : Json.isNumber (floatText x) = true
  · rw [← ofNumeral_floatText number, same, ofNumeral_floatText (same ▸ number)]
  · have others : ¬ Json.isNumber (floatText y) = true := same ▸ number
    rw [isNumber_floatText] at number others
    cases x with
    | finite negative rank => exact absurd ⟨negative, rank, rfl⟩ number
    | nan =>
      cases y with
      | finite negative rank => exact absurd ⟨negative, rank, rfl⟩ others
      | nan => rfl
      | infinite negative => cases negative <;> exact absurd same (by decide)
    | infinite negative =>
      cases y with
      | finite negative rank => exact absurd ⟨negative, rank, rfl⟩ others
      | nan => cases negative <;> exact absurd same (by decide)
      | infinite negative' =>
        cases negative <;> cases negative' <;> first | rfl | exact absurd same (by decide)

/-- Integers, and the doubles that are finite. -/
def IsFinite (s : Scalar) : Prop :=
  (∃ n, s = integer n) ∨ ∃ negative rank, s = float (.finite negative rank)

def IsSpecial (s : Scalar) : Prop := s = float .nan ∨ ∃ negative, s = float (.infinite negative)

theorem IsFinite.document {s : Scalar} (h : s.IsFinite) : s.document = .number s.text := by
  rcases h with ⟨n, rfl⟩ | ⟨negative, rank, rfl⟩
  · exact document_numeral rfl (numeral_ofInt n)
  · exact document_numeral rfl (numeral_signedText negative rank)

theorem IsSpecial.document {s : Scalar} (h : s.IsSpecial) : s.document = .string s.text := by
  rcases h with rfl | ⟨negative, rfl⟩
  · rfl
  · cases negative <;> rfl

end Scalar

/-! ## Rendered texts -/

namespace Tree

variable {t : Tree} {id : Nat} {n : Node} {text : Text}

/-- A scalar is written with a text wherever it stands, and by itself that is the whole of what is
rendered for it, in any layout that admits so long a text. -/
def RendersAs (t : Tree) (id : Nat) (text : Text) : Prop :=
  (∃ n, t.nodes[id]? = some n ∧ n.kind = .scalar ∧ t.scalarText n = .ok text) ∧
  ∀ layout : Layout, t.render layout (.natural id) =
    if layout.admits text.length then .ok text else .error .overlong

theorem render_scalar (found : t.nodes[id]? = some n) (kind : n.kind = .scalar)
    (written : t.scalarText n = .ok text) : t.RendersAs id text := by
  refine ⟨⟨n, found, kind, written⟩, fun layout => ?_⟩
  have opens : t.expand layout (.natural id) 0 = .ok [.text { before := text }] := by
    rw [expand_eq found, kind]
    dsimp only
    rw [written]
    rfl
  have enough : 1 + 1 ≤ t.renderFuel := by
    have := lt_size found
    unfold renderFuel
    omega
  obtain ⟨parts, walk, whole⟩ := ((Writes.text _).node opens).walk enough
  rw [render_of_walk walk, whole, text_plain]

/-- The mirror of a scalar is written as its document is printed. -/
theorem Mirrors.rendersAs {s : Scalar} (legible : s.Legible) (h : t.Mirrors (.scalar s) id) :
    t.RendersAs id (Json.printed 0 s.document 0) := by
  have depicts := h.depicts (.scalar legible)
  obtain ⟨found, ⟨kind, _⟩, _⟩ := h
  have agrees := depicts.agrees found
  unfold Agrees at agrees
  rw [kind] at agrees
  exact render_scalar found kind (scalarText_of_reading agrees 0)

/-- A scalar is stored by its text and its mark alone. -/
theorem store_scalar_congr {s s' : Scalar} (same : s.text = s'.text)
    (marked : s.isQuoted = s'.isQuoted) (node limit : Quantity) :
    store (.scalar s) node limit = store (.scalar s') node limit := by
  have here : put node (.scalar s) = put node (.scalar s') := by
    rw [put_scalar, put_scalar, putScalar_def, putScalar_def, same, marked]
  rw [store_eq_plant, store_eq_plant, plant_eq, plant_eq, here]
  rfl

end Tree

/-! ## Numbers -/

namespace Scalar

/-- **Numbers keep their value and their type.**

* The text of an integer is a number of the grammar, digits behind a sign without a zero in front
  and without a plus, and what it stands for is the integer.
* The text of a double is a number of the grammar if and only if the double is finite, and then the
  double nearest to what the text stands for, its sign included where it is zero, is this double and
  no other.
* So different doubles have different texts.
* Wherever a node mirrors a number, as one does that it was stored in, an integer or a finite double
  is read as a number and rendered as its text, digit for digit, and any other double is rendered as
  a string. -/
theorem number_texts :
    (∀ n : Int, Json.isNumber (integerText n) = true ∧ unit '+' ∉ integerText n ∧
      (∃ digits, Whole digits ∧ integerText n = signOf (decide (n < 0)) ++ digits) ∧
      ∀ negative d, Json.Denotes (integerText n) negative d → d.signed negative = n) ∧
    (∀ x : Binary64,
      (Json.isNumber (floatText x) = true ↔ ∃ negative rank, x = .finite negative rank) ∧
      ∀ negative d, Json.Denotes (floatText x) negative d →
        ∀ y, Binary64.Nearest negative d.value y ↔ y = x) ∧
    Function.Injective floatText ∧
    ∀ (t : Tree) (id : Nat) (s : Scalar), t.Mirrors (.scalar s) id →
      (s.IsFinite → t.Depicts id (.number s.text) ∧ t.RendersAs id s.text) ∧
      (s.IsSpecial → t.Depicts id (.string s.text) ∧ t.RendersAs id (Quoted.quote s.text)) := by
  refine ⟨fun n => ?_, fun x => ⟨isNumber_floatText, ?_⟩, floatText_injective, ?_⟩
  · have denotes := integerText_denotes n
    refine ⟨Json.isNumber_iff_denotes.2 ⟨_, _, denotes⟩, plus_integerText n,
      ⟨_, whole_ofNat n.natAbs, ofInt_eq n⟩, ?_⟩
    intro negative d other
    obtain ⟨rfl, rfl⟩ := denotes.unique other
    exact integerText_value n
  · intro negative d denotes y
    have read := ofNumeral_floatText (Json.isNumber_iff_denotes.2 ⟨_, _, denotes⟩)
    rw [Binary64.nearest_iff, ← denotes.ofNumeral, read]
  · intro t id s mirrors
    have legible (h : s.IsFinite ∨ s.IsSpecial) : s.Legible := by
      apply legible_of_ascii
      · rintro text rfl
        rcases h with (⟨_, same⟩ | ⟨_, _, same⟩) | same | ⟨_, same⟩ <;> cases same
      · rintro kind text rfl
        rcases h with (⟨_, same⟩ | ⟨_, _, same⟩) | same | ⟨_, same⟩ <;> cases same
    constructor
    · intro finite
      have depicts := mirrors.depicts (.scalar (legible (.inl finite)))
      have renders := mirrors.rendersAs (legible (.inl finite))
      rw [Source.document, finite.document] at depicts
      rw [finite.document] at renders
      exact ⟨depicts, renders⟩
    · intro special
      have depicts := mirrors.depicts (.scalar (legible (.inr special)))
      have renders := mirrors.rendersAs (legible (.inr special))
      rw [Source.document, special.document] at depicts
      rw [special.document] at renders
      exact ⟨depicts, renders⟩

/-- Negative zero and a NaN, each stored in a new tree. -/
theorem number_texts_stored :
    (∃ t, Tree.store (.scalar (.float (.finite true ⟨0, by decide⟩))) (.natural 0) (.natural 0)
        .new = (.ok (), t) ∧ t.RendersAs 0 (lit "-0")) ∧
    ∃ t, Tree.store (.scalar (.float .nan)) (.natural 0) (.natural 0) .new = (.ok (), t) ∧
      t.RendersAs 0 (lit "\".nan\"") := by
  obtain ⟨_, _, _, rendered⟩ := number_texts
  have shallow (s : Scalar) : (Quantity.natural 0).exceededBy (Source.scalar s).height = false :=
    rfl
  constructor
  · obtain ⟨t, stored, mirrors, _⟩ := Tree.store_new
      (.scalar (.float (.finite true ⟨0, by decide⟩))) (shallow _)
    exact ⟨t, stored, ((rendered t 0 _ mirrors).1 (.inr ⟨_, _, rfl⟩)).2⟩
  · obtain ⟨t, stored, mirrors, _⟩ := Tree.store_new (.scalar (.float .nan)) (shallow _)
    exact ⟨t, stored, ((rendered t 0 _ mirrors).2 (.inl rfl)).2⟩

/-- **A double has one text.** Under any settings a double is presented as an integer where it is
one below 2⁵³ by magnitude, negative zero apart, and as a float everywhere else. In either case its
text is the one that it has as a float, it is not marked as quoted, and so the tree that results is
the one that results for the float, whatever the node and the limit are. -/
theorem present_number_text (settings : PresenterSettings) (x : Binary64) :
    ∃ s, settings.presenter.present (.number x) = .ok (.scalar s) ∧
      ((∃ n : Int, n.natAbs < 2 ^ 53 ∧ x = .ofInt n ∧ s = integer n) ∨
        (∀ n : Int, n.natAbs < 2 ^ 53 → x ≠ .ofInt n) ∧ s = float x) ∧
      s.text = floatText x ∧ s.isQuoted = false ∧
      ∀ node limit,
        Tree.store (.scalar s) node limit = Tree.store (.scalar (float x)) node limit := by
  have classified : (∃ n : Int, n.natAbs < 2 ^ 53 ∧ x = .ofInt n ∧ ofDouble x = integer n) ∨
      (∀ n : Int, n.natAbs < 2 ^ 53 → x ≠ .ofInt n) ∧ ofDouble x = float x := by
    cases exact : Value.exactInteger? x with
    | some n =>
      obtain ⟨small, same⟩ := exactInteger?_iff.1 exact
      exact .inl ⟨n, small, same, by rw [ofDouble, exact]⟩
    | none =>
      refine .inr ⟨fun n small same => ?_, by rw [ofDouble, exact]⟩
      rw [exactInteger?_iff.2 ⟨small, same⟩] at exact
      cases exact
  have text : (ofDouble x).text = floatText x := by
    cases x with
    | finite negative rank => exact text_ofDouble_finite negative rank
    | nan | infinite => rfl
  have bare : (ofDouble x).isQuoted = false := by
    rcases classified with ⟨n, _, _, same⟩ | ⟨_, same⟩ <;> rw [same] <;> rfl
  exact ⟨ofDouble x, present_number _ x, classified, text, bare,
    Tree.store_scalar_congr text bare⟩

end Scalar

end SpanTree
