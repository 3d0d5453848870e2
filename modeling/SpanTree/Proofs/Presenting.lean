import SpanTree.Proofs.Rereading

/-!
# Presenting what readers build

* `Value.Clean`: values of which every key and every string is clean;
* `Value.Built`: what holds of all values that a reader builds: no object has a key twice, and the
  text of a date is written as such;
* `Toml.Reader.Documented`: what any reader of TOML is known for;
* `Presenter.Presents`: what a value is presented as, level by level, if it can be stored at all;
* `present_legible`: a clean value that a reader builds is presented as a legible one;
* `toValue_simple`: the reader of JSON builds such values;
* `reread_of_present`: presented for JSON and without an overflow, a value is read as itself.
-/

namespace SpanTree

open Json (Digits Whole Fraction Exponent Numeral)

/-- Every key and every string is clean. -/
inductive Value.Clean : Value → Prop
  | null : Clean .null
  | boolean (b : Bool) : Clean (.boolean b)
  | number (x : Binary64) : Clean (.number x)
  | integer (n : Int) : Clean (.integer n)
  | string {t : Text} (h : t.Clean) : Clean (.string t)
  | date (d : DateValue) : Clean (.date d)
  | array {items : List Value} (h : ∀ item ∈ items, Clean item) : Clean (.array items)
  | object {bare : Bool} {members : List (Text × Value)} (keys : ∀ m ∈ members, m.1.Clean)
      (h : ∀ m ∈ members, Clean m.2) : Clean (.object bare members)
  | foreign (f : Foreign) : Clean (.foreign f)

/-- No number is beyond the doubles. -/
inductive Value.Finite : Value → Prop
  | null : Finite .null
  | boolean (b : Bool) : Finite (.boolean b)
  | number (s : Bool) (r : Fin rankCount) : Finite (.number (.finite s r))
  | integer (n : Int) : Finite (.integer n)
  | string (t : Text) : Finite (.string t)
  | date (d : DateValue) : Finite (.date d)
  | array {items : List Value} (h : ∀ item ∈ items, Finite item) : Finite (.array items)
  | object {bare : Bool} {members : List (Text × Value)} (h : ∀ m ∈ members, Finite m.2) :
      Finite (.object bare members)
  | foreign (f : Foreign) : Finite (.foreign f)

/-- A text as dates and times of day have it. There is a colon in it or the letter between a date
and a time, or a dash behind the digits of a year. -/
structure Text.Temporal (t : Text) : Prop where
  unmarked : t.head? ≠ some 0xFEFF
  shape : (∃ u ∈ t, u = unit ':' ∨ u = unit 'T') ∨
    (t.Ascii ∧ ∃ sign year rest, (sign = [] ∨ sign = [unit '-'] ∨ sign = [unit '+']) ∧
      Digits year ∧ t = sign ++ (year ++ unit '-' :: rest))

/-- The text of a date, if there is one, is written as dates are. -/
def DateValue.Written (d : DateValue) : Prop := ∀ t, d.text? = some t → t.Temporal

/-- Values as readers build them: no object has a key twice, and dates are written as such. -/
inductive Value.Built : Value → Prop
  | null : Built .null
  | boolean (b : Bool) : Built (.boolean b)
  | number (x : Binary64) : Built (.number x)
  | integer (n : Int) : Built (.integer n)
  | string (t : Text) : Built (.string t)
  | date {d : DateValue} (h : d.Written) : Built (.date d)
  | array {items : List Value} (h : ∀ item ∈ items, Built item) : Built (.array items)
  | object {bare : Bool} {members : List (Text × Value)} (distinct : (members.map (·.1)).Nodup)
      (h : ∀ m ∈ members, Built m.2) : Built (.object bare members)

/-- Values as readers of TOML build them: there is no null among them. -/
inductive Value.Declared : Value → Prop
  | boolean (b : Bool) : Declared (.boolean b)
  | number (x : Binary64) : Declared (.number x)
  | integer (n : Int) : Declared (.integer n)
  | string (t : Text) : Declared (.string t)
  | date {d : DateValue} (h : d.Written) : Declared (.date d)
  | array {items : List Value} (h : ∀ item ∈ items, Declared item) : Declared (.array items)
  | object {bare : Bool} {members : List (Text × Value)} (distinct : (members.map (·.1)).Nodup)
      (h : ∀ m ∈ members, Declared m.2) : Declared (.object bare members)

/-- What a reader of TOML is known to build. -/
structure Toml.Reader.Documented (reader : Toml.Reader) : Prop where
  declared {text : Text} {v : Value} : reader.read text = .ok v → v.Declared

theorem Value.Declared.built {v : Value} (h : v.Declared) : v.Built := by
  induction h with
  | boolean b => exact .boolean b
  | number x => exact .number x
  | integer n => exact .integer n
  | string t => exact .string t
  | date h => exact .date h
  | array _ ih => exact .array ih
  | object distinct _ ih => exact .object distinct ih

theorem Value.Clean.string_inv {t : Text} (h : (Value.string t).Clean) : t.Clean := by
  cases h with
  | string h => exact h

/-! ## Texts that are strings -/

theorem Json.ofBare_string {t : Text} (number : ¬ Numeral t)
    (words : ∀ w ∈ [lit "true", lit "false", lit "null"], t ≠ w) : ofBare t = .string t := by
  rw [ofBare, if_neg (words _ (by simp)), if_neg (words _ (by simp)), if_neg (words _ (by simp)),
    if_neg number]

/-- A colon, and the letter between a date and a time, stand in no number and in no word. -/
theorem Json.ofBare_mark {t : Text} {u : CodeUnit} (hu : u = unit ':' ∨ u = unit 'T')
    (h : u ∈ t) : ofBare t.wellFormed = .string t.wellFormed := by
  have kept : u ∈ t.wellFormed := by
    rcases hu with rfl | rfl
    · exact Text.mem_wellFormed h rfl rfl
    · exact Text.mem_wellFormed h rfl rfl
  apply ofBare_string
  · intro number
    rcases number.units u kept with digit | sign
    · rcases hu with rfl | rfl
      · cases digit
      · cases digit
    · revert sign
      rcases hu with rfl | rfl
      · decide
      · decide
  · have absent : ∀ w ∈ [lit "true", lit "false", lit "null"], u ∉ w := by
      rcases hu with rfl | rfl
      · decide
      · decide
    intro w hw same
    rw [same] at kept
    exact absent w hw kept

/-- A dash after the digits of the whole part stands in no number. -/
theorem Json.not_numeral_dashed {sign ds rest : Text}
    (hs : sign = [] ∨ sign = [unit '-'] ∨ sign = [unit '+']) (hd : Digits ds) :
    ¬ Numeral (sign ++ (ds ++ unit '-' :: rest)) := by
  rintro ⟨sign', whole, fraction, exponent, hs', hw, hf, hx, same⟩
  obtain ⟨first, more, rfl, digit⟩ := hw.head
  have digits : ∀ u ∈ first :: more, u.isDigit = true := by
    rcases hw with zero | ⟨digits, _⟩
    · rw [zero]
      intro u hu
      rw [List.mem_singleton.1 hu]
      rfl
    · exact digits.2
  obtain ⟨d, ds, rfl⟩ := List.exists_cons_of_ne_nil hd.1
  have digit' : d.isDigit = true := hd.2 d List.mem_cons_self
  -- Both texts have the same sign, then the same digits, and then differ.
  have rests : d :: ds ++ unit '-' :: rest = first :: more ++ (fraction ++ exponent) := by
    have minus : ∀ u : CodeUnit, u.isDigit = true → u ≠ unit '-' := fun u hu => digit_ne hu rfl
    have plus : ∀ u : CodeUnit, u.isDigit = true → u ≠ unit '+' := fun u hu => digit_ne hu rfl
    rcases hs with rfl | rfl | rfl
    · rcases hs' with rfl | rfl
      · exact same
      · exact absurd (List.cons.inj same).1 (minus d digit')
    · rcases hs' with rfl | rfl
      · exact absurd (List.cons.inj same).1.symm (minus first digit)
      · exact (List.cons.inj same).2
    · rcases hs' with rfl | rfl
      · exact absurd (List.cons.inj same).1.symm (plus first digit)
      · exact absurd (List.cons.inj same).1 (by decide)
  have after := Exponent.head hx noMore_nil
  rw [List.append_nil] at after
  have left := (@span_digits _ (unit '-' :: rest) hd.2 (by rintro u ⟨⟩; rfl)).2
  have right := (span_digits digits (Fraction.head hf fun u hu => (after u hu).1)).2
  rw [rests, right] at left
  rcases hf with rfl | ⟨_, _, rfl⟩
  · rcases hx with rfl | ⟨e, _, _, he, _, _, rfl⟩
    · cases left
    · rcases he with rfl | rfl
      · exact absurd (List.cons.inj left).1 (by decide)
      · exact absurd (List.cons.inj left).1 (by decide)
  · exact absurd (List.cons.inj left).1 (by decide)

/-- The text of a date is read as a string. -/
theorem Text.Temporal.bare {t : Text} (h : t.Temporal) :
    Json.ofBare t.wellFormed = .string t.wellFormed := by
  rcases h.shape with ⟨u, inside, hu⟩ | ⟨ascii, sign, year, rest, hs, hd, same⟩
  · exact Json.ofBare_mark hu inside
  · rw [wellFormed_plain ascii.plain]
    apply Json.ofBare_string
    · rw [same]
      exact Json.not_numeral_dashed hs hd
    · intro w hw word
      have dash : unit '-' ∈ w := by
        rw [← word, same]
        exact List.mem_append_right _ (List.mem_append_right _ List.mem_cons_self)
      have absent : ∀ w ∈ [lit "true", lit "false", lit "null"], unit '-' ∉ w := by decide
      exact absent w hw dash

/-! ## Presented values -/

theorem textOrError_map {d : DateValue} {given kind : TemporalKind} {t : Text}
    (h : d.textOrError.map (given, ·) = .ok (kind, t)) : d.text? = some t := by
  unfold DateValue.textOrError at h
  split at h
  · next same =>
    cases h
    exact same
  · cases h

/-- The text of a date in either format is its own. -/
theorem Format.classify_ok (f : Format) {d : DateValue} {kind : TemporalKind} {t : Text}
    (h : f.presenter.classify d = .ok (kind, t)) : d.text? = some t := by
  cases f with
  | toml => exact textOrError_map h
  | json => exact textOrError_map h

namespace Presenter

variable {p : Presenter}

/-- What a value is presented as, if it can be stored at all. -/
inductive Presents (p : Presenter) : Value → Source → Prop
  | null : Presents p .null (.scalar .null)
  | boolean (b : Bool) : Presents p (.boolean b) (.scalar (.boolean b))
  | number (x : Binary64) : Presents p (.number x) (.scalar (.ofDouble x))
  | integer (n : Int) : Presents p (.integer n) (.scalar (.integer n))
  | string (t : Text) : Presents p (.string t) (.scalar (.string t))
  | date {d : DateValue} {kind : TemporalKind} {t : Text} (h : p.classify d = .ok (kind, t)) :
      Presents p (.date d) (.scalar (.temporal kind t))
  | array {items : List Value} {parts : List Source}
      (same : items.map p.present = parts.map .ok)
      (h : ∀ item ∈ items, ∀ part ∈ parts, p.present item = .ok part → Presents p item part) :
      Presents p (.array items) (.ofItems parts)
  | object {bare : Bool} {members : List (Text × Value)} {parts : List (Text × Source)}
      (same : Members.enumerate (Members.mapValues p.present members) = Members.mapValues .ok parts)
      (h : ∀ m ∈ members, ∀ part ∈ parts, p.present m.2 = .ok part.2 → Presents p m.2 part.2) :
      Presents p (.object bare members) (.ofMembers parts)

theorem presentItems_ok {items : List Value} {parts : List (Unit × Source)}
    (h : allOrError (presentItems p items) = .ok parts) :
    items.map p.present = (parts.map (·.2)).map .ok := by
  rw [presentItems_eq] at h
  have same := congrArg (List.map (·.2)) (allOrError_ok h)
  rw [List.map_map, List.map_map] at same
  rw [List.map_map]
  exact same

theorem presentMembers_ok {members : List (Text × Value)} {parts : List (Text × Source)}
    (h : allOrError (Members.enumerate (presentMembers p members)) = .ok parts) :
    Members.enumerate (Members.mapValues p.present members) = Members.mapValues .ok parts := by
  rw [presentMembers_eq] at h
  exact allOrError_ok h

theorem presents_of_parts {v : Value} {src : Source} (plain : src.Plain)
    (h : p.present v = .ok src)
    (below : ∀ part ∈ src.parts, ∀ v, p.present v = .ok part → p.Presents v part) :
    p.Presents v src := by
  cases v with
  | null =>
    rw [present] at h
    split at h
    · cases h
      exact .null
    · cases h
      cases plain
  | boolean b =>
    cases h
    exact .boolean b
  | number x =>
    rw [Scalar.present_number] at h
    cases h
    exact .number x
  | integer n =>
    cases h
    exact .integer n
  | string t =>
    cases h
    exact .string t
  | date d =>
    rw [present] at h
    cases found : p.classify d with
    | error e =>
      rw [found] at h
      cases h
    | ok classified =>
      rw [found] at h
      cases h
      exact .date found
  | array items =>
    rw [present] at h
    split at h
    · next parts all =>
      cases h
      exact .array (presentItems_ok all) fun item _ part hp => below part hp item
    · cases h
      cases plain
  | object bare members =>
    rw [present] at h
    split at h
    · next parts all =>
      cases h
      exact .object (presentMembers_ok all) fun m _ part hp =>
        below part.2 (List.mem_map_of_mem hp) m.2
    · cases h
      cases plain
  | foreign f =>
    cases h
    cases plain

/-- A value that can be stored was presented level by level. -/
theorem presents_of_present {v : Value} {src : Source} (plain : src.Plain)
    (h : p.present v = .ok src) : p.Presents v src := by
  induction plain generalizing v with
  | scalar s => exact presents_of_parts (.scalar s) h nofun
  | table plain ih =>
    refine presents_of_parts (.table plain) h ?_
    intro part hp v presented
    obtain ⟨m, hm, rfl⟩ := List.mem_map.1 hp
    exact ih m hm presented
  | array plain ih =>
    exact presents_of_parts (.array plain) h fun part hp v presented => ih part hp presented

end Presenter

/-- What the listing of an object says about its parts. -/
theorem Members.of_listing {present : Value → Except Raised Source}
    {members : List (Text × Value)} {parts : List (Text × Source)}
    (h : enumerate (mapValues present members) = mapValues .ok parts) :
    ((members.map (·.1)).Nodup → (parts.map (·.1)).Nodup) ∧ enumerate parts = parts ∧
      ∀ part ∈ parts, ∃ m ∈ members, m.1 = part.1 ∧ present m.2 = .ok part.2 := by
  have perm := enumerate_perm (mapValues present members)
  rw [h] at perm
  refine ⟨?_, ?_, ?_⟩
  · intro distinct
    have keys := perm.map (·.1)
    rw [keys_mapValues, keys_mapValues] at keys
    exact keys.nodup_iff.2 distinct
  · have again := enumerate_enumerate (mapValues present members)
    rw [h, enumerate_map] at again
    apply List.map_injective_iff.2 ?_ again
    rintro ⟨k, s⟩ ⟨k', s'⟩ same
    cases same
    rfl
  · intro part inside
    have listed := perm.mem_iff.1 (List.mem_map_of_mem inside)
    obtain ⟨m, hm, same⟩ := List.mem_map.1 listed
    exact ⟨m, hm, (Prod.mk.inj same).1, (Prod.mk.inj same).2⟩

theorem of_presented_items {present : Value → Except Raised Source} {items : List Value}
    {parts : List Source} (h : items.map present = parts.map .ok) :
    ∀ part ∈ parts, ∃ item ∈ items, present item = .ok part := by
  intro part inside
  have listed : Except.ok part ∈ items.map present := by
    rw [h]
    exact List.mem_map_of_mem inside
  exact List.mem_map.1 listed

/-- A property of all parts of a listing is one of all its members. -/
theorem Members.listing_iff {present : Value → Except Raised Source}
    {members : List (Text × Value)} {parts : List (Text × Source)}
    (h : enumerate (mapValues present members) = mapValues .ok parts) {P : Source → Prop}
    {Q : Value → Prop} (each : ∀ m ∈ members, ∀ part ∈ parts, present m.2 = .ok part.2 →
      (P part.2 ↔ Q m.2)) :
    (∀ part ∈ parts, P part.2) ↔ ∀ m ∈ members, Q m.2 := by
  have perm := enumerate_perm (mapValues present members)
  rw [h] at perm
  constructor
  · intro holds m hm
    have listed := perm.mem_iff.2 (List.mem_map_of_mem hm)
    obtain ⟨part, hp, same⟩ := List.mem_map.1 listed
    exact (each m hm part hp (Prod.mk.inj same).2.symm).1 (holds part hp)
  · intro holds part hp
    have listed := perm.mem_iff.1 (List.mem_map_of_mem hp)
    obtain ⟨m, hm, same⟩ := List.mem_map.1 listed
    exact (each m hm part hp (Prod.mk.inj same).2).2 (holds m hm)

theorem items_iff {present : Value → Except Raised Source} {items : List Value}
    {parts : List Source} (h : items.map present = parts.map .ok) {P : Source → Prop}
    {Q : Value → Prop} (each : ∀ item ∈ items, ∀ part ∈ parts, present item = .ok part →
      (P part ↔ Q item)) :
    (∀ part ∈ parts, P part) ↔ ∀ item ∈ items, Q item := by
  constructor
  · intro holds item hi
    have listed : present item ∈ parts.map .ok := by
      rw [← h]
      exact List.mem_map_of_mem hi
    obtain ⟨part, hp, same⟩ := List.mem_map.1 listed
    exact (each item hi part hp same.symm).1 (holds part hp)
  · intro holds part hp
    obtain ⟨item, hi, same⟩ := of_presented_items h part hp
    exact (each item hi part hp same).2 (holds item hi)

/-- What is presented for a value that a reader builds of clean texts is legible. -/
theorem present_legible (f : Format) {v : Value} {src : Source} (clean : v.Clean) (built : v.Built)
    (h : f.presenter.Presents v src) : src.Legible := by
  induction h with
  | null => exact .scalar (Scalar.legible_of_ascii nofun nofun)
  | boolean b => exact .scalar (Scalar.legible_of_ascii nofun nofun)
  | number x =>
    unfold Scalar.ofDouble
    split
    · exact .scalar (Scalar.legible_of_ascii nofun nofun)
    · exact .scalar (Scalar.legible_of_ascii nofun nofun)
  | integer n => exact .scalar (Scalar.legible_of_ascii nofun nofun)
  | string t => exact .scalar ⟨clean.string_inv.unmarked, nofun⟩
  | date classified =>
    cases built with
    | date written =>
      have temporal := written _ (f.classify_ok classified)
      refine .scalar ⟨temporal.unmarked, ?_⟩
      intro kind' t' same
      cases same
      exact temporal.bare
  | array same _ ih =>
    cases clean with
    | array cleans =>
      cases built with
      | array builts =>
        constructor
        intro part inside
        obtain ⟨item, hi, presented⟩ := of_presented_items same part inside
        exact ih item hi part inside presented (cleans item hi) (builts item hi)
  | object same _ ih =>
    obtain ⟨nodup, listed, origin⟩ := Members.of_listing same
    cases clean with
    | object keys cleans =>
      cases built with
      | object distinct builts =>
        refine .table ?_ (nodup distinct) listed ?_
        · intro part inside
          obtain ⟨m, hm, key, _⟩ := origin part inside
          rw [← key]
          exact keys m hm
        · intro part inside
          obtain ⟨m, hm, _, presented⟩ := origin part inside
          exact ih m hm part inside presented (cleans m hm) (builts m hm)

/-! ## Values of JSON -/

/-- Values as the reader of JSON builds them. -/
inductive Value.Simple : Value → Prop
  | null : Simple .null
  | boolean (b : Bool) : Simple (.boolean b)
  | number (x : Binary64) : Simple (.number x)
  | string (t : Text) : Simple (.string t)
  | array {items : List Value} (h : ∀ item ∈ items, Simple item) : Simple (.array items)
  | object {bare : Bool} {members : List (Text × Value)} (distinct : (members.map (·.1)).Nodup)
      (h : ∀ m ∈ members, Simple m.2) : Simple (.object bare members)

theorem Value.Simple.built {v : Value} (h : v.Simple) : v.Built := by
  induction h with
  | null => exact .null
  | boolean b => exact .boolean b
  | number x => exact .number x
  | string t => exact .string t
  | array _ ih => exact .array ih
  | object distinct _ ih => exact .object distinct ih

namespace Json

mutual

/-- The reader of JSON builds plain data in which no object has a key twice. -/
theorem toValue_simple : ∀ j : Json, j.toValue.Simple
  | .null => .null
  | .boolean b => .boolean b
  | .number digits => .number _
  | .string t => .string t
  | .array items => by
    rw [toValue, itemValues_eq]
    apply Value.Simple.array
    intro v hv
    obtain ⟨j, hj, rfl⟩ := List.mem_map.1 hv
    exact items_simple items j hj
  | .object members => by
    rw [toValue, memberValues_eq]
    apply Value.Simple.object (Members.nodup_ofList _)
    intro m hm
    obtain ⟨j, hj, rfl⟩ := List.mem_map.1 (Members.mem_ofList hm)
    exact members_simple members j hj

theorem items_simple : ∀ items : List Json, ∀ j ∈ items, j.toValue.Simple
  | [] => nofun
  | item :: rest => List.forall_mem_cons.2 ⟨toValue_simple item, items_simple rest⟩

theorem members_simple : ∀ members : List (Text × Json), ∀ m ∈ members, m.2.toValue.Simple
  | [] => nofun
  | (_, value) :: rest => List.forall_mem_cons.2 ⟨toValue_simple value, members_simple rest⟩

end

end Json

theorem Format.json_simple {text : Text} {v : Value} (h : Format.json.parse text = .ok v) :
    v.Simple := by
  unfold Format.parse at h
  dsimp only at h
  split at h
  · cases h
    exact Json.toValue_simple _
  · cases h

/-- A double is presented as a scalar that is read as itself. -/
theorem Scalar.reread_ofDouble (s : Bool) (r : Fin rankCount) :
    (ofDouble (.finite s r)).reread = ofDouble (.finite s r) := by
  generalize hx : Binary64.finite s r = x
  cases exact : Value.exactInteger? x with
  | none =>
    have same : ofDouble x = float x := by rw [ofDouble, exact]
    rw [same, ← hx, reread_finite, hx, same]
  | some n =>
    have same : ofDouble x = integer n := by rw [ofDouble, exact]
    rw [same, reread, ofInt_of_exactInteger? exact, same]

/-- What is presented for a value of JSON without an overflow is read as itself. -/
theorem reread_of_present {p : Presenter} {v : Value} {src : Source} (simple : v.Simple)
    (clean : v.Clean) (finite : v.Finite) (h : p.Presents v src) : src.reread = src := by
  induction h with
  | null => rfl
  | boolean b => rfl
  | number x =>
    cases finite with
    | number s r => rw [Source.reread, Scalar.reread_ofDouble]
  | integer n => cases simple
  | string t => rw [Source.reread, Scalar.reread, clean.string_inv.paired]
  | date _ => cases simple
  | array same _ ih =>
    cases simple with
    | array simples =>
      cases clean with
      | array cleans =>
        cases finite with
        | array finites =>
          rw [Source.reread_ofItems]
          congr 1
          refine (List.map_congr_left ?_).trans (List.map_id _)
          intro part inside
          obtain ⟨item, hi, presented⟩ := of_presented_items same part inside
          exact ih item hi part inside presented (simples item hi) (cleans item hi)
            (finites item hi)
  | object same _ ih =>
    obtain ⟨_, _, origin⟩ := Members.of_listing same
    cases simple with
    | object _ simples =>
      cases clean with
      | object _ cleans =>
        cases finite with
        | object finites =>
          rw [Source.reread_ofMembers]
          congr 1
          refine (List.map_congr_left ?_).trans (List.map_id _)
          intro part inside
          obtain ⟨m, hm, _, presented⟩ := origin part inside
          have again := ih m hm part inside presented (simples m hm) (cleans m hm) (finites m hm)
          rw [again]
          rfl

end SpanTree
