import SpanTree.Document.Format
import SpanTree.Proofs.Depiction
import SpanTree.Proofs.Encoding
import SpanTree.Proofs.Members
import SpanTree.Proofs.Mirror
import SpanTree.Proofs.Numerals

/-!
# What stored values are read as

A value that is stored, rendered as JSON and read again goes through three forms: the tree mirrors
it, the tree says a document, and the document is presented as a value once more.

* `Source.Legible`: values that a tree says without loss of a key;
* `Source.document`, `Mirrors.depicts`: the document of a value, which each of its mirrors says;
* `Source.reread`, `present_document`: the value that is presented for this document;
* `Value.Built`, `Value.Clean`, `present_legible`: what is presented for the values that readers
  build of clean texts is legible.
-/

namespace SpanTree

open Json (Digits Numeral)

/-! ## The texts of scalars -/

/-- What a number consists of. -/
theorem Json.Numeral.units {t : Text} (h : Numeral t) :
    ∀ u ∈ t, u.isDigit = true ∨ u ∈ lit "+-.eE" := by
  obtain ⟨sign, whole, fraction, exponent, hs, hw, hf, hx, rfl⟩ := h
  have digits {d : Text} (hd : Digits d) : ∀ u ∈ d, u.isDigit = true ∨ u ∈ lit "+-.eE" :=
    fun u hu => .inl (hd.2 u hu)
  have one {v : CodeUnit} (hv : v ∈ lit "+-.eE") :
      ∀ u ∈ [v], u.isDigit = true ∨ u ∈ lit "+-.eE" := by
    intro u hu
    rw [List.mem_singleton.1 hu]
    exact .inr hv
  have both {a b : Text} (ha : ∀ u ∈ a, u.isDigit = true ∨ u ∈ lit "+-.eE")
      (hb : ∀ u ∈ b, u.isDigit = true ∨ u ∈ lit "+-.eE") :
      ∀ u ∈ a ++ b, u.isDigit = true ∨ u ∈ lit "+-.eE" := by
    intro u hu
    rcases List.mem_append.1 hu with h | h
    · exact ha u h
    · exact hb u h
  refine both ?_ (both ?_ (both ?_ ?_))
  · rcases hs with rfl | rfl
    · nofun
    · exact one (by decide)
  · exact digits hw.digits
  · rcases hf with rfl | ⟨d, hd, rfl⟩
    · nofun
    · exact both (one (by decide)) (digits hd)
  · rcases hx with rfl | ⟨e, s, d, he, hs, hd, rfl⟩
    · nofun
    · have letter : ∀ u ∈ [e], u.isDigit = true ∨ u ∈ lit "+-.eE" := by
        rcases he with rfl | rfl
        · exact one (by decide)
        · exact one (by decide)
      refine both letter (both ?_ (digits hd))
      rcases hs with rfl | rfl | rfl
      · nofun
      · exact one (by decide)
      · exact one (by decide)

theorem Json.Digits.ascii {t : Text} (h : Digits t) : t.Ascii :=
  fun u hu => Text.ascii_digit (h.2 u hu)

theorem Json.Numeral.ascii {t : Text} (h : Numeral t) : t.Ascii := by
  intro u hu
  rcases h.units u hu with digit | sign
  · exact Text.ascii_digit digit
  · have signs : (lit "+-.eE").Ascii := Text.ascii_of_all rfl
    exact signs u sign

/-- A number is none of the words. -/
theorem Json.ofBare_numeral {t : Text} (h : Numeral t) : ofBare t = number t := by
  have number := isNumber_iff.2 h
  have word {w : Text} (hw : isNumber w = false) : t ≠ w := by
    rintro rfl
    rw [number] at hw
    cases hw
  rw [ofBare, if_neg (word rfl), if_neg (word rfl), if_neg (word rfl), if_pos h]

namespace Scalar

def ofDouble (x : Binary64) : Scalar :=
  match Value.exactInteger? x with
  | some n => integer n
  | none => float x

/-- What a node with the text of a scalar is read as. -/
def document (s : Scalar) : Json :=
  if s.isQuoted then .string s.text.wellFormed else .ofBare s.text.wellFormed

/-- A scalar whose text is a numeral is read as a number. -/
theorem document_numeral {s : Scalar} (bare : s.isQuoted = false) (h : Json.Numeral s.text) :
    s.document = .number s.text := by
  rw [document, bare, if_neg Bool.false_ne_true, Text.wellFormed_plain h.ascii.plain,
    Json.ofBare_numeral h]

/-- The scalar that is presented for the document of a scalar. An integer becomes the double nearest
to it, and a text that is neither a number nor a word becomes a string. -/
def reread : Scalar → Scalar
  | string t => string t.wellFormed
  | integer n => ofDouble (.ofInt n)
  | float (.finite s r) => ofDouble (.finite s r)
  | float x => string (floatText x)
  | boolean b => boolean b
  | null => null
  | temporal _ t => string t.wellFormed

/-- No byte order mark stands in front of the text, and the text of a date is read as a string. -/
structure Legible (s : Scalar) : Prop where
  unmarked : s.text.head? ≠ some 0xFEFF
  bare : ∀ kind t, s = temporal kind t → Json.ofBare t.wellFormed = .string t.wellFormed

/-- Numbers and words have texts of ASCII units. -/
theorem ascii_text {s : Scalar} (string : ∀ t, s ≠ string t)
    (temporal : ∀ kind t, s ≠ temporal kind t) : s.text.Ascii := by
  cases s with
  | string t => exact absurd rfl (string t)
  | temporal kind t => exact absurd rfl (temporal kind t)
  | integer n => exact (numeral_ofInt n).ascii
  | float x =>
    cases x with
    | finite s r => exact (numeral_signedText s r).ascii
    | infinite s => cases s <;> exact Text.ascii_of_all rfl
    | nan => exact Text.ascii_of_all rfl
  | boolean b => cases b <;> exact Text.ascii_of_all rfl
  | null => exact Text.ascii_of_all rfl

theorem legible_of_ascii {s : Scalar} (string : ∀ t, s ≠ string t)
    (temporal : ∀ kind t, s ≠ temporal kind t) : s.Legible :=
  ⟨(ascii_text string temporal).unmarked, fun kind t same => absurd same (temporal kind t)⟩

theorem present_number (p : Presenter) (x : Binary64) :
    p.present (.number x) = .ok (.scalar (ofDouble x)) := by
  unfold Presenter.present ofDouble
  cases Value.exactInteger? x with
  | none => rfl
  | some n => rfl

theorem reread_finite (s : Bool) (r : Fin rankCount) :
    (float (.finite s r)).reread = ofDouble (.finite s r) := by
  rw [reread]

/-- The document of a scalar is presented as the scalar that it is read as. -/
theorem Legible.present_document {s : Scalar} (h : s.Legible) :
    Presenter.json.present s.document.toValue = .ok (.scalar s.reread) := by
  cases s with
  | string t => rfl
  | integer n =>
    have text : (integer n).document = .number (.ofInt n) :=
      document_numeral rfl (numeral_ofInt n)
    rw [text, Json.toValue, ofNumeral_ofInt, present_number, reread]
  | float x =>
    cases x with
    | finite s r =>
      have text : (float (.finite s r)).document = .number (Binary64.finite s r).signedText :=
        document_numeral rfl (numeral_signedText s r)
      rw [text, Json.toValue, ofNumeral_signedText, present_number, reread_finite]
    | infinite s => cases s <;> rfl
    | nan => rfl
  | boolean b => cases b <;> rfl
  | null => rfl
  | temporal kind t =>
    change Presenter.json.present (Json.ofBare t.wellFormed).toValue = _
    rw [h.bare kind t rfl]
    rfl

end Scalar

/-! ## Documents of values -/

namespace Source

mutual

/-- What a mirror of a value is read as. -/
def document : Source → Json
  | scalar s => s.document
  | table members _ => .object (membersDocument members)
  | array items _ => .array (itemsDocument items)
  | _ => .null

/-- What the mirrors of the members of a table are read as. -/
def membersDocument : List (Text × Source) → List (Text × Json)
  | [] => []
  | (key, value) :: rest => (key.wellFormed, value.document) :: membersDocument rest

/-- What the mirrors of the items of an array are read as. -/
def itemsDocument : List Source → List Json
  | [] => []
  | item :: rest => item.document :: itemsDocument rest

end

mutual

/-- The value that is presented for the document of a value. -/
def reread : Source → Source
  | scalar s => scalar s.reread
  | table members ending => table (membersReread members) ending
  | array items ending => array (itemsReread items) ending
  | value => value

/-- The members that are presented for the document of a table. -/
def membersReread : List (Text × Source) → List (Text × Source)
  | [] => []
  | (key, value) :: rest => (key, value.reread) :: membersReread rest

/-- The items that are presented for the document of an array. -/
def itemsReread : List Source → List Source
  | [] => []
  | item :: rest => item.reread :: itemsReread rest

end

theorem membersDocument_eq (members : List (Text × Source)) :
    membersDocument members = members.map fun m => (m.1.wellFormed, m.2.document) := by
  induction members with
  | nil => rfl
  | cons m rest ih => rw [membersDocument, ih, List.map_cons]

theorem itemsDocument_eq (items : List Source) : itemsDocument items = items.map document := by
  induction items with
  | nil => rfl
  | cons item rest ih => rw [itemsDocument, ih, List.map_cons]

theorem membersReread_eq (members : List (Text × Source)) :
    membersReread members = Members.mapValues reread members := by
  induction members with
  | nil => rfl
  | cons m rest ih =>
    rw [membersReread, ih]
    rfl

theorem itemsReread_eq (items : List Source) : itemsReread items = items.map reread := by
  induction items with
  | nil => rfl
  | cons item rest ih => rw [itemsReread, ih, List.map_cons]

theorem document_ofMembers (members : List (Text × Source)) : (ofMembers members).document =
    .object (members.map fun m => (m.1.wellFormed, m.2.document)) := by
  rw [ofMembers, document, membersDocument_eq]

theorem document_ofItems (items : List Source) :
    (ofItems items).document = .array (items.map document) := by
  rw [ofItems, document, itemsDocument_eq]

theorem reread_ofMembers (members : List (Text × Source)) :
    (ofMembers members).reread = ofMembers (Members.mapValues reread members) := by
  rw [ofMembers, reread, membersReread_eq, ofMembers]

theorem reread_ofItems (items : List Source) :
    (ofItems items).reread = ofItems (items.map reread) := by
  rw [ofItems, reread, itemsReread_eq, ofItems]

/-- Values that a tree says as they are, apart from what becomes of their scalars: the keys of a
table are clean and different, and stand in the order in which they are listed. -/
inductive Legible : Source → Prop
  | scalar {s : Scalar} (h : s.Legible) : Legible (.scalar s)
  | table {members : List (Text × Source)} (clean : ∀ m ∈ members, m.1.Clean)
      (distinct : (members.map (·.1)).Nodup) (listed : Members.enumerate members = members)
      (h : ∀ m ∈ members, Legible m.2) : Legible (.ofMembers members)
  | array {items : List Source} (h : ∀ item ∈ items, Legible item) : Legible (.ofItems items)

end Source

/-- The mirror of a value is read as its document. -/
theorem Tree.Mirrors.depicts {t : Tree} {value : Source} {id : Nat} (legible : value.Legible)
    (h : t.Mirrors value id) : t.Depicts id value.document := by
  induction legible generalizing id with
  | @scalar s hs =>
    obtain ⟨found, ⟨kind, spells, flags⟩, _, _, _⟩ := h
    obtain ⟨span, known, text⟩ := spells.text hs.unmarked
    refine .scalar found kind ?_
    have quoted : ∀ n : Node, (n.flags = if s.isQuoted then Node.quotedFlag else 0) →
        n.isQuoted = s.isQuoted := by
      intro n flags
      rw [Node.isQuoted, flags]
      cases s.isQuoted <;> rfl
    rw [reading, known]
    dsimp only
    rw [Tree.text, text, quoted _ flags]
    rfl
  | @table members clean _ _ _ ih =>
    obtain ⟨found, ⟨kind, _, _⟩, length, labelled, below⟩ := h
    rw [Source.document_ofMembers]
    have member {i : Nat} {key : Text} {value : Json}
        (entry : (members.map fun m => (m.1.wellFormed, m.2.document))[i]? = some (key, value)) :
        ∃ m ∈ members, members[i]? = some m ∧ m.1.wellFormed = key ∧ m.2.document = value := by
      rw [List.getElem?_map] at entry
      obtain ⟨m, place, same⟩ := Option.map_eq_some_iff.1 entry
      cases same
      exact ⟨m, List.mem_of_getElem? place, place, rfl, rfl⟩
    have parts : (Source.ofMembers members).parts = members.map (·.2) := rfl
    have labels : (Source.ofMembers members).labels = members.map (some ·.1) := rfl
    refine .map found kind ?_ ?_ ?_
    · rw [length, parts, List.length_map, List.length_map]
    · intro i c key value hc entry
      obtain ⟨m, inside, place, rfl, _⟩ := member entry
      obtain ⟨node, hnode, _, spells⟩ := labelled i c (some m.1) hc (by
        rw [labels, List.getElem?_map, place]
        rfl)
      obtain ⟨span, known, text⟩ := Arena.Spells.text spells (clean m inside).unmarked
      rw [keyText_known hnode known, Tree.text, text]
      rfl
    · intro i c key value hc entry
      obtain ⟨m, inside, place, _, rfl⟩ := member entry
      refine ih m inside (below i c m.2 hc ?_)
      rw [parts, List.getElem?_map, place]
      rfl
  | @array items _ ih =>
    obtain ⟨found, ⟨kind, _, _⟩, length, _, below⟩ := h
    rw [Source.document_ofItems]
    have length : _ = items.length := length
    refine .seq found kind (length.trans (List.length_map _).symm) ?_
    intro i c value hc hi
    rw [List.getElem?_map] at hi
    obtain ⟨item, hitem, rfl⟩ := Option.map_eq_some_iff.1 hi
    exact ih item (List.mem_of_getElem? hitem) (below i c item hc hitem)

/-! ## Documents presented again -/

theorem allOrError_eq {α β : Type} (parts : List (α × β)) :
    allOrError (parts.map fun p => (p.1, (.ok p.2 : Except Raised β))) = .ok parts := by
  induction parts with
  | nil => rfl
  | cons p rest ih =>
    rw [List.map_cons, allOrError, ih]
    rfl

theorem allOrError_ok {α β : Type} {listing : List (α × Except Raised β)} {parts : List (α × β)}
    (h : allOrError listing = .ok parts) : listing = parts.map fun p => (p.1, .ok p.2) := by
  induction listing generalizing parts with
  | nil =>
    cases h
    rfl
  | cons first rest ih =>
    obtain ⟨a, part⟩ := first
    rw [allOrError] at h
    cases part with
    | error e => cases h
    | ok b =>
      cases later : allOrError rest with
      | error e =>
        rw [later] at h
        cases h
      | ok more =>
        rw [later] at h
        cases h
        rw [List.map_cons, ← ih later]

namespace Presenter

theorem presentMembers_eq (p : Presenter) (members : List (Text × Value)) :
    presentMembers p members = Members.mapValues p.present members := by
  induction members with
  | nil => rfl
  | cons m rest ih =>
    rw [presentMembers, ih]
    rfl

theorem presentItems_eq (p : Presenter) (items : List Value) :
    presentItems p items = items.map fun item => ((), p.present item) := by
  induction items with
  | nil => rfl
  | cons item rest ih => rw [presentItems, ih, List.map_cons]

end Presenter

theorem Json.memberValues_eq (members : List (Text × Json)) :
    memberValues members = Members.mapValues toValue members := by
  induction members with
  | nil => rfl
  | cons m rest ih =>
    rw [memberValues, ih]
    rfl

theorem Json.itemValues_eq (items : List Json) : itemValues items = items.map toValue := by
  induction items with
  | nil => rfl
  | cons item rest ih => rw [itemValues, ih, List.map_cons]

/-- The document of a legible value is presented as the value that it is read as. -/
theorem Source.present_document {value : Source} (h : value.Legible) :
    Presenter.json.present value.document.toValue = .ok value.reread := by
  induction h with
  | scalar hs => exact hs.present_document
  | @table members clean distinct listed _ ih =>
    have keys : (members.map fun m => (m.1.wellFormed, m.2.document)) =
        Members.mapValues document members := by
      exact List.map_congr_left fun m hm => by rw [(clean m hm).paired]
    have values : Members.mapValues (fun s => Presenter.json.present s.document.toValue) members =
        (Members.mapValues reread members).map fun p => (p.1, .ok p.2) := by
      rw [Members.mapValues, Members.mapValues, List.map_map]
      exact List.map_congr_left fun m hm => by rw [ih m hm]; rfl
    have once :
        Members.ofList (Members.mapValues Json.toValue (Members.mapValues document members)) =
        Members.mapValues Json.toValue (Members.mapValues document members) := by
      apply Members.ofList_of_nodup
      rwa [Members.keys_mapValues, Members.keys_mapValues]
    have all : Members.mapValues Presenter.json.present
        (Members.mapValues Json.toValue (Members.mapValues document members)) =
        Members.mapValues (fun s => Presenter.json.present s.document.toValue) members := by
      rw [Members.mapValues_mapValues, Members.mapValues_mapValues]
      rfl
    rw [document_ofMembers, keys, Json.toValue, Json.memberValues_eq, once, Presenter.present,
      Presenter.presentMembers_eq, all, Members.enumerate_map, listed, values, allOrError_eq,
      reread_ofMembers]
    rfl
  | @array items _ ih =>
    have values : (items.map document).map Json.toValue =
        items.map fun item => item.document.toValue := by
      rw [List.map_map]
      rfl
    have parts : (items.map fun item => item.document.toValue).map
        (fun value => ((), Presenter.json.present value)) =
        (items.map fun item => ((), item.reread)).map fun p => (p.1, .ok p.2) := by
      rw [List.map_map, List.map_map]
      exact List.map_congr_left fun item hi => by simp [ih item hi]
    have again : (items.map fun item => ((), item.reread)).map (·.2) = items.map reread := by
      rw [List.map_map]
      rfl
    rw [document_ofItems, Json.toValue, Json.itemValues_eq, values, Presenter.present,
      Presenter.presentItems_eq, parts, allOrError_eq, reread_ofItems, ← again]
    rfl

end SpanTree
