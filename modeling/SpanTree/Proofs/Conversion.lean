import SpanTree.Proofs.RoundTrip
import SpanTree.Proofs.Likeness
import SpanTree.Proofs.Tables

/-!
# From TOML to JSON

A document of TOML that was loaded, rendered as JSON and loaded again. TOML has integers of any size
and JSON has doubles only, so an integer comes back with the digits of the double nearest to it.

* `Scalar.Kept`, `Value.Exact`: the integers whose digits come back, and values with no others;
* `kept_of_small`: integers that no other integer rounds to are among them;
* `present_proper`: no float of a presented value stands for another integer;
* `present_kept_iff`: the integers of a presented value;
* `load_toml_as_json`: the two trees differ in the digits of other integers, and in nothing else.
-/

namespace SpanTree

/-! ## Integers and doubles -/

/-- The double nearest to an integer has the same text. -/
def Scalar.Kept (n : Int) : Prop := (ofDouble (.ofInt n)).text = integerText n

/-- Two texts of values are the same, or they are no strings but texts of an integer whose digits do
not come back: its own, and that of the double nearest to it. -/
def Renumbered (quoted : Bool) (a b : Text) : Prop :=
  a = b ∨ quoted = false ∧ ∃ n, ¬Scalar.Kept n ∧ a = Scalar.integerText n ∧
    b = (Scalar.ofDouble (.ofInt n)).text

/-- Every integer has the text of the double nearest to it. -/
inductive Value.Exact : Value → Prop
  | null : Exact .null
  | boolean (b : Bool) : Exact (.boolean b)
  | number (x : Binary64) : Exact (.number x)
  | integer {n : Int} (h : Scalar.Kept n) : Exact (.integer n)
  | string (t : Text) : Exact (.string t)
  | date (d : DateValue) : Exact (.date d)
  | array {items : List Value} (h : ∀ item ∈ items, Exact item) : Exact (.array items)
  | object {bare : Bool} {members : List (Text × Value)} (h : ∀ m ∈ members, Exact m.2) :
      Exact (.object bare members)
  | foreign (f : Foreign) : Exact (.foreign f)

theorem Scalar.kept_of_small {n : Int} (small : n.natAbs < 2 ^ 53) : Kept n := by
  rw [Kept, ofDouble, exactInteger?_ofInt small]
  rfl

/-! ## Presented values -/

/-- A float does not stand for an integer. -/
def Scalar.Proper (s : Scalar) : Prop := ∀ x, s = float x → Value.exactInteger? x = none

theorem Scalar.proper_ofDouble (x : Binary64) : (ofDouble x).Proper := by
  unfold ofDouble
  split
  · nofun
  · next none =>
    rintro y ⟨⟩
    exact none

/-- A presented value has no floats that stand for integers. -/
theorem present_proper {p : Presenter} {v : Value} {src : Source} (h : p.Presents v src) :
    src.Every Scalar.Proper := by
  induction h with
  | number x => exact .scalar (Scalar.proper_ofDouble x)
  | null | boolean | integer | string | date => exact .scalar nofun
  | array same _ ih =>
    constructor
    intro part inside
    obtain ⟨item, hi, presented⟩ := of_presented_items same part inside
    exact ih item hi part inside presented
  | object same _ ih =>
    obtain ⟨_, _, origin⟩ := Members.of_listing same
    constructor
    intro part inside
    obtain ⟨m, hm, _, presented⟩ := origin part inside
    exact ih m hm part inside presented

/-- The integers of a presented value are those of the value, and those that its doubles stand
for. -/
theorem present_kept_iff {p : Presenter} {v : Value} {src : Source} (h : p.Presents v src) :
    (src.Every fun s => ∀ n, s = .integer n → Scalar.Kept n) ↔ v.Exact := by
  have other (s : Scalar) (none : ∀ n, s ≠ .integer n) {v : Value} (exact : v.Exact) :
      ((Source.scalar s).Every fun s => ∀ n, s = .integer n → Scalar.Kept n) ↔ v.Exact := by
    rw [Source.every_scalar]
    exact iff_of_true (fun n same => absurd same (none n)) exact
  induction h with
  | null => exact other _ (by nofun) .null
  | boolean b => exact other _ (by nofun) (.boolean b)
  | string t => exact other _ (by nofun) (.string t)
  | @date d _ _ _ => exact other _ (by nofun) (.date d)
  | number x =>
    rw [Source.every_scalar]
    refine iff_of_true ?_ (.number x)
    intro n same
    cases exact : Value.exactInteger? x with
    | none =>
      rw [Scalar.ofDouble, exact] at same
      cases same
    | some m =>
      have double : Scalar.ofDouble x = .integer m := by rw [Scalar.ofDouble, exact]
      cases double.symm.trans same
      rw [Scalar.Kept, ofInt_of_exactInteger? exact, double]
      rfl
  | integer n =>
    rw [Source.every_scalar]
    constructor
    · intro kept
      exact .integer (kept n rfl)
    · intro exact n same
      cases same
      cases exact with
      | integer kept => exact kept
  | array same _ ih =>
    rw [Source.every_ofItems, items_iff same ih]
    constructor
    · exact .array
    · intro exact
      cases exact with
      | array exact => exact exact
  | object same _ ih =>
    rw [Source.every_ofMembers, Members.listing_iff same ih]
    constructor
    · exact .object
    · intro exact
      cases exact with
      | object exact => exact exact

namespace Scalar

theorem text_integer (n : Int) : (integer n).text.wellFormed = integerText n :=
  Text.wellFormed_plain (numeral_ofInt n).ascii.plain

theorem text_ofDouble (x : Binary64) : (ofDouble x).text.wellFormed = (ofDouble x).text := by
  unfold ofDouble
  split
  · exact Text.wellFormed_plain (@ascii_text (integer _) nofun nofun).plain
  · exact Text.wellFormed_plain (@ascii_text (float _) nofun nofun).plain

theorem text_reread_integer (n : Int) :
    (integer n).reread.text.wellFormed = (ofDouble (.ofInt n)).text := by
  rw [reread, text_ofDouble]

/-- All texts but those of integers come back as they were. -/
theorem Proper.text_reread {s : Scalar} (h : s.Proper) (other : ∀ n, s ≠ integer n) :
    s.text.wellFormed = s.reread.text.wellFormed := by
  cases s with
  | string t => exact (Text.wellFormed_wellFormed t).symm
  | temporal kind t => exact (Text.wellFormed_wellFormed t).symm
  | integer n => exact absurd rfl (other n)
  | float x =>
    cases x with
    | finite s r => rw [reread_finite, ofDouble, h _ rfl]
    | infinite s => rfl
    | nan => rfl
  | boolean b => rfl
  | null => rfl

theorem Proper.renumbered {s : Scalar} (h : s.Proper) :
    Renumbered s.isQuoted s.text.wellFormed s.reread.text.wellFormed := by
  by_cases other : ∀ n, s ≠ integer n
  · exact .inl (h.text_reread other)
  · obtain ⟨n, rfl⟩ : ∃ n, s = integer n := by
      simpa using other
    rw [text_integer, text_reread_integer]
    by_cases kept : Kept n
    · exact .inl kept.symm
    · exact .inr ⟨rfl, n, kept, rfl, rfl⟩

theorem Proper.text_iff {s : Scalar} (h : s.Proper) :
    s.text.wellFormed = s.reread.text.wellFormed ↔ ∀ n, s = integer n → Kept n := by
  constructor
  · rintro same n rfl
    rw [text_integer, text_reread_integer] at same
    exact same.symm
  · intro kept
    by_cases other : ∀ n, s ≠ integer n
    · exact h.text_reread other
    · obtain ⟨n, rfl⟩ : ∃ n, s = integer n := by
        simpa using other
      rw [text_integer, text_reread_integer]
      exact (kept n rfl).symm

end Scalar

/-! ## There and back -/

namespace Tree

/-- **JSON is read as the same tree, but for integers that no double is.** With any reader of TOML,
a document whose keys and strings are clean was loaded into a new tree. With any whole number of
spaces that tree is rendered as a text, as far as that is not too long, and under the same depth
limit a new tree is loaded from that text. The two trees have one shape, the same keys, and the same
texts of values, except that an integer comes back with the text of the double nearest to it. So all
texts are the same just where every integer has the text of that double, as all integers below 2⁵³
have. -/
theorem load_toml_as_json {reader : Toml.Reader} (documented : reader.Documented) {text : Text}
    {name : Option Text} {limit : Quantity} {t : Tree} {v : Value}
    (parsed : reader.read text = .ok v) (clean : v.Clean)
    (loaded : load (.toml reader) text name (.natural 0) limit new = (.ok (), t)) (k : Nat) :
    ∃ again t', t.Emits 0 k again ∧
      (∀ name', load .json again name' (.natural 0) limit new = (.ok (), t')) ∧
      Alike Renumbered t t' 0 0 ∧ (Alike (fun _ => Eq) t t' 0 0 ↔ v.Exact) ∧
      ∀ n : Int, n.natAbs < 2 ^ 53 → Scalar.Kept n := by
  have read : (Format.toml reader).parse text = .ok v := parsed
  obtain ⟨wf, source, presented, plain, shallow, stored⟩ := load_inv read loaded
  obtain ⟨first, stored₁, mirrors, unnamed⟩ := store_new plain shallow
  cases (Prod.mk.inj (stored.symm.trans stored₁)).2
  have legible := present_legible (.toml reader) clean (documented.declared parsed).built presented
  have proper := present_proper presented
  obtain ⟨again, emits, reload⟩ := mirrors.reload wf legible k
  obtain ⟨t', stored', mirrors', unnamed'⟩ := @store_new limit source.reread plain.reread (by
    rwa [Source.height_reread plain])
  have keys : Likewise Eq (t.keyText (.natural 0)) (t'.keyText (.natural 0)) := by
    rw [unnamed, unnamed']
    exact .noKey _ _
  refine ⟨again, t', emits, ?_, ?_, ?_, fun _ small => Scalar.kept_of_small small⟩
  · intro name'
    rw [reload, stored']
  · exact (mirrors.alike_iff legible mirrors' keys).2 (proper.imp fun s => Scalar.Proper.renumbered)
  · rw [mirrors.alike_iff legible mirrors' keys, ← present_kept_iff presented]
    constructor
    · intro same
      exact (proper.and same).imp fun s h => h.1.text_iff.1 h.2
    · intro kept
      exact (proper.and kept).imp fun s h => h.1.text_iff.2 h.2

/-- The first integer that no double is. -/
theorem load_toml_as_json_inexact : ∃ t again t',
    load .toml (lit "a = 9007199254740993") none (.natural 0) (.natural 1) new = (.ok (), t) ∧
      t.Emits 0 0 again ∧
      load .json again none (.natural 0) (.natural 1) new = (.ok (), t') ∧
      Alike Renumbered t t' 0 0 ∧ ¬Alike (fun _ => Eq) t t' 0 0 := by
  have parsed : Toml.Reader.standard.read (lit "a = 9007199254740993") =
      .ok (.object true [(lit "a", .integer 9007199254740993)]) := by
    have filler : Toml.skipLines (lit "a = 9007199254740993") =
        .ok (lit "a = 9007199254740993") := rfl
    have lines : Toml.readLines 21 ⟨[], []⟩ (lit "a = 9007199254740993") =
        .ok [(lit "a", .value (.integer 9007199254740993))] := rfl
    have length : (lit "a = 9007199254740993").length = 20 := rfl
    have unmarked : (lit "a = 9007199254740993").head? ≠ some 0xFEFF := by decide
    have document : Toml.read (lit "a = 9007199254740993") =
        .ok (.object true [(lit "a", .integer 9007199254740993)]) := by
      unfold Toml.read
      dsimp only
      rw [if_neg unmarked, filler]
      change (do return (← Toml.readLines ((lit "a = 9007199254740993").length + 1) ⟨[], []⟩
        (lit "a = 9007199254740993")).toValue : Except Toml.Fault Value) = _
      rw [length, lines]
      rfl
    unfold Toml.Reader.standard
    dsimp only
    rw [document]
    rfl
  have presented : Format.toml.presenter.present
      (.object true [(lit "a", .integer 9007199254740993)]) =
      .ok (.ofMembers [(lit "a", .scalar (.integer 9007199254740993))]) := rfl
  have clean : (Value.object true [(lit "a", .integer 9007199254740993)]).Clean := by
    apply Value.Clean.object
    · intro m hm
      rw [List.mem_singleton.1 hm]
      exact ⟨rfl, by decide⟩
    · intro m hm
      rw [List.mem_singleton.1 hm]
      exact .integer _
  have plain : (Source.ofMembers [(lit "a", .scalar (.integer 9007199254740993))]).Plain := by
    apply Source.Plain.table
    intro m hm
    rw [List.mem_singleton.1 hm]
    exact .scalar _
  have lost : ¬Scalar.Kept 9007199254740993 := by
    unfold Scalar.Kept
    decide +kernel
  obtain ⟨t, stored, _⟩ := store_new plain
    (show (Quantity.natural 1).exceededBy _ = false from rfl)
  have loaded : load .toml (lit "a = 9007199254740993") none (.natural 0) (.natural 1) new =
      (.ok (), t) := by
    have read : Format.toml.parse (lit "a = 9007199254740993") = .ok _ := parsed
    rw [load_eq read presented, stored]
  obtain ⟨again, t', emits, reload, alike, same, _⟩ :=
    load_toml_as_json Toml.Reader.standard_documented parsed clean loaded 0
  refine ⟨t, again, t', loaded, emits, reload none, alike, ?_⟩
  rw [same]
  intro exact
  cases exact with
  | object exact =>
    cases exact _ List.mem_cons_self with
    | integer kept => exact lost kept

end Tree

end SpanTree
