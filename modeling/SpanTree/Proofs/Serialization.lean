import SpanTree.Proofs.Integers
import SpanTree.Proofs.Loading
import SpanTree.Proofs.Placing
import SpanTree.Proofs.Rendering

/-!
# The text of a value

The text of plain data, by recursion over the value and after the rules of ECMA-262 for
`JSON.stringify`: the parts of a container stand behind an indentation that grows by a gap with each
level, and there are no line breaks where the gap is empty.

* `Value.serialized`: the text with up to ten spaces for each level;
* `Value.document`, `serializedAt_eq`: it is the printed text of a document, at any depth;
* `document_of_presents`: the document of what is presented for a value is its own;
* `clean_printed`: an arena gives the text of a document back as it is;
* `run_serialized`: so the text of a value, loaded from an arena, is rendered as the text of the
  value with any indentation.
-/

namespace SpanTree

/-! ## Serializing by recursion -/

namespace Value

/-- The parts of a container between its brackets: on one line where the gap is empty, and else each
on a line of its own, one gap further in than the brackets. -/
def enclosed (opening closing : CodeUnit) (gap indent : Text) (parts : List Text) : Text :=
  if parts.isEmpty then [opening, closing]
  else if gap.isEmpty then opening :: (Text.join [unit ','] parts ++ [closing])
  else
    opening :: unit '\n' :: (indent ++ gap ++
      Text.join ([unit ',', unit '\n'] ++ (indent ++ gap)) parts ++
        unit '\n' :: (indent ++ [closing]))

mutual

/-- The text of a value behind an indentation. A number that is not finite is written as null; what
is no plain data has no text. -/
def serializedAt (gap : Text) : Value → Text → Text
  | null, _ => lit "null"
  | boolean b, _ => if b then lit "true" else lit "false"
  | number (.finite s r), _ => (Binary64.finite s r).text
  | number _, _ => lit "null"
  | string t, _ => Quoted.quote t
  | array items, indent =>
    enclosed (unit '[') (unit ']') gap indent (serializedItems gap items (indent ++ gap))
  | object _ members, indent =>
    enclosed (unit '\x7b') (unit '\x7d') gap indent
      ((Members.enumerate (serializedMembers gap members (indent ++ gap))).map fun m =>
        Quoted.quote m.1 ++ (if gap.isEmpty then lit ":" else lit ": ") ++ m.2)
  | _, _ => []

def serializedItems (gap : Text) : List Value → Text → List Text
  | [], _ => []
  | item :: rest, indent => item.serializedAt gap indent :: serializedItems gap rest indent

/-- The texts of the members of an object under their keys, as they were set. -/
def serializedMembers (gap : Text) : List (Text × Value) → Text → List (Text × Text)
  | [], _ => []
  | (key, value) :: rest, indent =>
    (key, value.serializedAt gap indent) :: serializedMembers gap rest indent

end

/-- The text of a value, each level indented by a number of spaces, of which ten at most count. -/
def serialized (v : Value) (space : Nat) : Text := v.serializedAt (.spaces (min space 10)) []

mutual

/-- The document that the text of a value spells. -/
def document : Value → Json
  | boolean b => .boolean b
  | number (.finite s r) => .number (Binary64.finite s r).text
  | string t => .string t
  | array items => .array (itemsDocument items)
  | object _ members => .object (Members.enumerate (membersDocument members))
  | _ => .null

def itemsDocument : List Value → List Json
  | [] => []
  | item :: rest => item.document :: itemsDocument rest

/-- The documents of the members of an object under their keys, as they were set. -/
def membersDocument : List (Text × Value) → List (Text × Json)
  | [] => []
  | (key, value) :: rest => (key, value.document) :: membersDocument rest

end

theorem serializedItems_eq (gap : Text) (items : List Value) (indent : Text) :
    serializedItems gap items indent = items.map (·.serializedAt gap indent) := by
  induction items with
  | nil => rfl
  | cons item rest ih => rw [serializedItems, ih, List.map_cons]

theorem serializedMembers_eq (gap : Text) (members : List (Text × Value)) (indent : Text) :
    serializedMembers gap members indent =
      Members.mapValues (·.serializedAt gap indent) members := by
  induction members with
  | nil => rfl
  | cons m rest ih =>
    rw [serializedMembers, ih]
    rfl

theorem itemsDocument_eq (items : List Value) : itemsDocument items = items.map document := by
  induction items with
  | nil => rfl
  | cons item rest ih => rw [itemsDocument, ih, List.map_cons]

theorem membersDocument_eq (members : List (Text × Value)) :
    membersDocument members = Members.mapValues document members := by
  induction members with
  | nil => rfl
  | cons m rest ih =>
    rw [membersDocument, ih]
    rfl

end Value

/-! ## Two ways of laying out -/

namespace Json

/-- Parts behind a gap each are the same text as parts with the gap in their separator, one gap
standing in front. -/
theorem join_behind (g part : Text) (parts : List Text) :
    Text.join [unit ','] ((part :: parts).map (g ++ ·)) =
      g ++ Text.join (unit ',' :: g) (part :: parts) := by
  induction parts generalizing part with
  | nil => rfl
  | cons next rest ih =>
    have split (separator a b : Text) (more : List Text) :
        Text.join separator (a :: b :: more) = a ++ separator ++ Text.join separator (b :: more) :=
      rfl
    have later := ih next
    rw [List.map_cons] at later
    rw [List.map_cons, List.map_cons, split, later, split]
    simp only [List.append_assoc, List.cons_append, List.nil_append]

theorem enclosed_eq {α : Type} (opening closing : CodeUnit) (indent depth : Nat) (members : List α)
    (text : α → Text) :
    Value.enclosed opening closing (.spaces indent) (.spaces (indent * depth)) (members.map text) =
      opening :: (Text.join [unit ','] ((members.map text).map (gap indent (depth + 1) ++ ·)) ++
        (lastGap indent depth members ++ [closing])) := by
  cases members with
  | nil => rfl
  | cons m rest =>
    cases indent with
    | zero =>
      have none : ∀ depth, gap 0 depth = [] := fun depth => by
        rw [gap, Nat.zero_mul]
        rfl
      rw [Value.enclosed, lastGap, none, none]
      simp only [List.nil_append, List.map_id']
      rfl
    | succ k =>
      have broken : ∀ depth, gap (k + 1) depth =
          unit '\n' :: Text.spaces ((k + 1) * depth) := fun depth => by
        rw [gap, if_pos (Nat.succ_pos k)]
        rfl
      have deeper : Text.spaces ((k + 1) * depth) ++ Text.spaces (k + 1) =
          .spaces ((k + 1) * (depth + 1)) := by
        rw [Text.spaces, Text.spaces, List.replicate_append_replicate]
        rfl
      have more : (Text.spaces (k + 1)).isEmpty = false := rfl
      rw [Value.enclosed, lastGap, broken, broken, List.map_cons, join_behind, deeper, more]
      simp [List.append_assoc]

end Json

theorem Text.spaces_append (a b : Nat) : Text.spaces a ++ Text.spaces b = .spaces (a + b) :=
  List.replicate_append_replicate

theorem Members.mapValues_congr {α β : Type} {f g : α → β} {members : List (Text × α)}
    (h : ∀ m ∈ members, f m.2 = g m.2) : mapValues f members = mapValues g members :=
  List.map_congr_left fun m hm => congrArg (m.1, ·) (h m hm)

namespace Value

variable {v : Value}

/-- The text of a value is the printed text of its document, at any depth. -/
theorem serializedAt_eq (simple : v.Simple) (k depth : Nat) :
    v.serializedAt (.spaces k) (.spaces (k * depth)) = Json.printed k v.document depth := by
  induction simple generalizing depth with
  | null => rfl
  | boolean b => rfl
  | number x => cases x <;> rfl
  | string t => rfl
  | @array items _ ih =>
    have parts : items.map (·.serializedAt (.spaces k) (.spaces (k * (depth + 1)))) =
        (items.map document).map (Json.printed k · (depth + 1)) := by
      rw [List.map_map]
      exact List.map_congr_left fun item hi => ih item hi (depth + 1)
    rw [serializedAt, serializedItems_eq, Text.spaces_append, ← Nat.mul_succ, parts,
      Json.enclosed_eq, document, itemsDocument_eq, Json.printed, Json.printedItems_eq,
      List.map_map]
    rfl
  | @object bare members _ _ ih =>
    have parts : Members.enumerate (serializedMembers (.spaces k) members
        (.spaces (k * (depth + 1)))) = Members.mapValues (Json.printed k · (depth + 1))
          (Members.enumerate (membersDocument members)) := by
      have each :
          Members.mapValues (·.serializedAt (.spaces k) (.spaces (k * (depth + 1)))) members =
            Members.mapValues ((Json.printed k · (depth + 1)) ∘ document) members :=
        Members.mapValues_congr fun m hm => ih m hm (depth + 1)
      rw [serializedMembers_eq, membersDocument_eq, ← Members.enumerate_map,
        Members.mapValues_mapValues, each]
    have colon : (if (Text.spaces k).isEmpty then lit ":" else lit ": ") = Json.colon k := by
      cases k <;> rfl
    rw [serializedAt, Text.spaces_append, ← Nat.mul_succ, parts, colon, Members.mapValues,
      List.map_map, Json.enclosed_eq, document, Json.printed, Json.printedMembers_eq, List.map_map]
    simp only [Function.comp_def, List.append_assoc]

theorem serialized_eq (simple : v.Simple) {k : Nat} (few : k ≤ 10) :
    v.serialized k = Json.printed k v.document 0 := by
  have whole := serializedAt_eq simple k 0
  rwa [serialized, Nat.min_eq_left few]

end Value

/-! ## What is stored -/

/-- The text of a double is that of a double without a signed zero, which also shows its sign. -/
theorem Binary64.text_finite (s : Bool) (r : Fin rankCount) : ∃ s',
    (finite s' r).isNegativeZero = false ∧ (finite s r).text = (finite s' r).signedText := by
  by_cases zero : r.val = 0
  · refine ⟨false, rfl, ?_⟩
    rw [signedText, isNegativeZero, Bool.false_and, if_neg Bool.false_ne_true, text, text,
      if_pos zero, if_pos zero]
  · have none : (finite s r).isNegativeZero = false := by
      rw [isNegativeZero, decide_eq_false zero, Bool.and_false]
    refine ⟨s, none, ?_⟩
    rw [signedText, none, if_neg Bool.false_ne_true]

/-- A double is stored with the text that shows the sign of zero, be it an integer or not. -/
theorem Scalar.text_ofDouble_finite (s : Bool) (r : Fin rankCount) :
    (ofDouble (.finite s r)).text = (Binary64.finite s r).signedText := by
  unfold ofDouble
  split
  · next n exact =>
    have signed : (Binary64.finite s r).isNegativeZero = false := by
      unfold Value.exactInteger? at exact
      split at exact
      · next both =>
        rw [Bool.and_eq_true, Bool.not_eq_true'] at both
        exact both.2
      · cases exact
    rw [Binary64.signedText, signed, if_neg Bool.false_ne_true, text_of_exactInteger? exact]
    rfl
  · rfl

theorem Scalar.document_ofDouble (s : Bool) (r : Fin rankCount) :
    (ofDouble (.finite s r)).document = .number (Binary64.finite s r).signedText := by
  have numeral := numeral_signedText s r
  rw [← text_ofDouble_finite] at numeral ⊢
  refine document_numeral ?_ numeral
  unfold ofDouble
  split <;> rfl

/-- Lists that agree entry by entry under one pair of maps agree under another, if entries do. -/
theorem map_eq_of_map_eq {α β γ δ : Type} {p : α → γ} {q : β → γ} {f : α → δ} {g : β → δ}
    {as : List α} {bs : List β} (same : as.map p = bs.map q)
    (each : ∀ a ∈ as, ∀ b ∈ bs, p a = q b → f a = g b) : as.map f = bs.map g := by
  induction as generalizing bs with
  | nil =>
    cases bs with
    | nil => rfl
    | cons b bs => cases same
  | cons a as ih =>
    cases bs with
    | nil => cases same
    | cons b bs =>
      obtain ⟨here, rest⟩ := List.cons.inj same
      have first := each a List.mem_cons_self b List.mem_cons_self here
      have later := ih rest fun a' ha b' hb =>
        each a' (List.mem_cons_of_mem _ ha) b' (List.mem_cons_of_mem _ hb)
      rw [List.map_cons, List.map_cons, first, later]

namespace Value

variable {v : Value}

theorem toValue_array (items : List Value) : (array items).document.toValue =
    .array (items.map (·.document.toValue)) := by
  rw [document, itemsDocument_eq, Json.toValue, Json.itemValues_eq, List.map_map]
  rfl

/-- The members of an object are listed before they are written, and so they are read. -/
theorem toValue_object {members : List (Text × Value)} (distinct : (members.map (·.1)).Nodup)
    (bare : Bool) : (object bare members).document.toValue = .object false
      (Members.mapValues (·.document.toValue) (Members.enumerate members)) := by
  have keys : ((Members.enumerate members).map (·.1)).Nodup :=
    ((Members.enumerate_perm members).map (·.1)).nodup_iff.2 distinct
  rw [document, membersDocument_eq, Json.toValue, Json.memberValues_eq, Members.enumerate_map,
    Members.mapValues_mapValues, Members.ofList_of_nodup]
  · rfl
  · rwa [Members.keys_mapValues]

/-- What is presented for the text of a value has the document of the value. -/
theorem document_of_presents {src : Source} (simple : v.Simple) (clean : v.Clean)
    (finite : v.Finite) (h : Presenter.json.Presents v.document.toValue src) :
    src.document = v.document := by
  induction simple generalizing src with
  | null =>
    cases h
    rfl
  | boolean b =>
    cases h
    cases b <;> rfl
  | number x =>
    cases finite with
    | number s r =>
      obtain ⟨s', _, same⟩ := Binary64.text_finite s r
      have read : (number (.finite s r)).document.toValue = .number (.finite s' r) := by
        rw [document, Json.toValue, same, ofNumeral_signedText]
      rw [read] at h
      cases h
      rw [Source.document, Scalar.document_ofDouble, document, same]
  | string t =>
    cases h
    exact congrArg Json.string clean.string_inv.paired
  | @array items _ ih =>
    rw [toValue_array] at h
    cases clean with
    | array cleans =>
      cases finite with
      | array finites =>
        cases h with
        | @array _ parts same each =>
          rw [List.map_map] at same
          rw [Source.document_ofItems, document, itemsDocument_eq]
          refine congrArg Json.array (map_eq_of_map_eq same.symm ?_)
          intro part hp item hi presented
          exact ih item hi (cleans item hi) (finites item hi)
            (each _ (List.mem_map_of_mem hi) part hp presented.symm)
  | @object bare members distinct _ ih =>
    rw [toValue_object distinct] at h
    cases clean with
    | object keys cleans =>
      cases finite with
      | object finites =>
        cases h with
        | @object _ _ parts same each =>
          have listed {m : Text × Value} (hm : m ∈ Members.enumerate members) : m ∈ members :=
            (Members.enumerate_perm members).mem_iff.1 hm
          rw [Members.enumerate_map, Members.enumerate_map, Members.enumerate_enumerate,
            Members.mapValues_mapValues] at same
          rw [Source.document_ofMembers, document, membersDocument_eq, Members.enumerate_map]
          refine congrArg Json.object (map_eq_of_map_eq same.symm ?_)
          intro part hp m hm presented
          obtain ⟨key, value⟩ := Prod.mk.inj presented
          have below := ih m (listed hm) (cleans m (listed hm)) (finites m (listed hm))
            (each _ (List.mem_map_of_mem hm) part hp value.symm)
          rw [below, key, (keys m (listed hm)).paired]

end Value

/-! ## Texts that an arena gives back -/

namespace Text

/-- Texts without lone surrogates make no pair where they meet. -/
theorem paired_append {a b : Text} (ha : a.wellFormed = a) (hb : b.wellFormed = b) :
    (a ++ b).wellFormed = a ++ b := by
  have whole : a ++ b = ofChars (a.toChars ++ b.toChars) := by
    rw [ofChars, List.flatMap_append]
    exact congrArg₂ _ ha.symm hb.symm
  rw [whole, wellFormed, toChars_ofChars]

theorem paired_join {separator : Text} (hs : separator.wellFormed = separator) {texts : List Text}
    (h : ∀ t ∈ texts, t.wellFormed = t) :
    (join separator texts).wellFormed = join separator texts := by
  fun_induction join separator texts with
  | case1 => rfl
  | case2 t => exact h t List.mem_cons_self
  | case3 t rest _ ih =>
    exact paired_append (paired_append (h t List.mem_cons_self) hs)
      (ih fun t' ht => h t' (List.mem_cons_of_mem _ ht))

theorem Ascii.paired {t : Text} (h : Ascii t) : t.wellFormed = t := wellFormed_plain h.plain

theorem ascii_ofByte (b : UInt8) : Ascii (ofByte b) := by
  have digit : ∀ n : Fin 16, unit (Nat.digitChar n) < 0x80 := by decide
  have small : b.toNat < 256 := b.toNat_lt
  intro u hu
  rcases List.mem_cons.1 hu with rfl | hu
  · exact digit ⟨b.toNat / 16, by omega⟩
  · rw [List.mem_singleton.1 hu]
    exact digit ⟨b.toNat % 16, by omega⟩

end Text

namespace Quoted

/-- A unit outside a pair is escaped if it is a surrogate. -/
theorem paired_escapeUnit (u : CodeUnit) : (escapeUnit u).wellFormed = escapeUnit u := by
  rcases Json.escapeUnit_cases u with ⟨e, escape, same⟩ | same | ⟨same, _, _, _, high, low⟩
  · have letters : Text.Ascii (Json.escapes.map (·.1)) := Text.ascii_of_all rfl
    have mark : Text.Ascii [unit '\\'] := Text.ascii_of_all rfl
    have letter : Text.Ascii [e] := fun w hw =>
      List.mem_singleton.1 hw ▸ letters e (List.mem_map_of_mem escape)
    rw [same]
    exact (mark.append letter).paired
  · have front : Text.Ascii [unit '\\', unit 'u'] := Text.ascii_of_all rfl
    rw [same]
    exact ((front.append (Text.ascii_ofByte _)).append (Text.ascii_ofByte _)).paired
  · rw [same]
    apply Text.wellFormed_plain
    intro w hw
    rw [List.mem_singleton.1 hw]
    exact ⟨high, low⟩

theorem paired_escape (t : Text) : (escape t).wellFormed = escape t := by
  fun_induction escape t with
  | case1 => rfl
  | case2 u => exact paired_escapeUnit u
  | case3 u v rest pair ih =>
    rw [Bool.and_eq_true] at pair
    rw [Text.wellFormed_pair pair.1 pair.2, ih]
  | case4 u v rest _ ih => exact Text.paired_append (paired_escapeUnit u) ih

theorem paired_quote (t : Text) : (quote t).wellFormed = quote t := by
  have mark : Text.Ascii [unit '"'] := Text.ascii_of_all rfl
  exact Text.paired_append mark.paired (Text.paired_append (paired_escape t) mark.paired)

end Quoted

namespace Json

theorem ascii_gap (indent depth : Nat) : (gap indent depth).Ascii := by
  apply Text.Ascii.append
  · split <;> exact Text.ascii_of_all rfl
  · intro u hu
    rw [List.eq_of_mem_replicate hu]
    decide

theorem ascii_lastGap {α : Type} (indent depth : Nat) (members : List α) :
    (lastGap indent depth members).Ascii := by
  unfold lastGap
  split
  · exact Text.ascii_of_all rfl
  · exact ascii_gap indent depth

theorem ascii_colon (indent : Nat) : (colon indent).Ascii := by
  unfold colon
  split <;> exact Text.ascii_of_all rfl

theorem paired_brackets {opening closing : CodeUnit} (ho : opening < 0x80) (hc : closing < 0x80)
    {texts : List Text} (h : ∀ t ∈ texts, t.wellFormed = t) {last : Text} (hl : last.Ascii) :
    Text.wellFormed (opening :: (Text.join [unit ','] texts ++ (last ++ [closing]))) =
      opening :: (Text.join [unit ','] texts ++ (last ++ [closing])) := by
  have one {u : CodeUnit} (hu : u < 0x80) : Text.Ascii [u] := by
    intro v hv
    rw [List.mem_singleton.1 hv]
    exact hu
  have comma : Text.Ascii [unit ','] := one (by decide)
  exact Text.paired_append (one ho).paired
    (Text.paired_append (Text.paired_join comma.paired h) (hl.append (one hc)).paired)

mutual

/-- A printed text has no lone surrogate, whatever the strings of the document are. -/
theorem paired_printed (indent : Nat) : ∀ (j : Json) (depth : Nat), j.Numeric →
    (printed indent j depth).wellFormed = printed indent j depth
  | null, _, _ => (Text.ascii_of_all rfl).paired
  | boolean true, _, _ => (Text.ascii_of_all rfl).paired
  | boolean false, _, _ => (Text.ascii_of_all rfl).paired
  | number _, _, h => Numeral.ascii h |>.paired
  | string t, _, _ => Quoted.paired_quote t
  | array items, depth, h =>
    paired_brackets (by decide) (by decide)
      (paired_printedItems indent items (depth + 1) h) (ascii_lastGap indent depth items)
  | object members, depth, h =>
    paired_brackets (by decide) (by decide)
      (paired_printedMembers indent members (depth + 1) h) (ascii_lastGap indent depth members)

theorem paired_printedItems (indent : Nat) : ∀ (items : List Json) (depth : Nat),
    NumericItems items → ∀ t ∈ printedItems indent items depth, t.wellFormed = t
  | [], _, _ => nofun
  | item :: rest, depth, h => List.forall_mem_cons.2
    ⟨Text.paired_append (ascii_gap indent depth).paired (paired_printed indent item depth h.1),
      paired_printedItems indent rest depth h.2⟩

theorem paired_printedMembers (indent : Nat) : ∀ (members : List (Text × Json)) (depth : Nat),
    NumericMembers members → ∀ t ∈ printedMembers indent members depth, t.wellFormed = t
  | [], _, _ => nofun
  | (key, value) :: rest, depth, h => List.forall_mem_cons.2
    ⟨Text.paired_append (Text.paired_append (ascii_gap indent depth).paired
        (Text.paired_append (Quoted.paired_quote key) (ascii_colon indent).paired))
      (paired_printed indent value depth h.1), paired_printedMembers indent rest depth h.2⟩

end

/-- An arena gives a printed text back as it is. -/
theorem clean_printed {j : Json} (h : j.Numeric) (indent depth : Nat) :
    (printed indent j depth).Clean := by
  refine ⟨paired_printed indent j depth h, ?_⟩
  cases j with
  | number digits => exact (Numeral.ascii h).unmarked
  | boolean b => cases b <;> exact (Text.ascii_of_all rfl).unmarked
  | null | string | array | object => exact fun mark => absurd (Option.some.inj mark) (by decide)

end Json

/-! ## Loading the text of a value -/

namespace Value

variable {v : Value}

theorem document_numeric (simple : v.Simple) : v.document.Numeric := by
  induction simple with
  | null | boolean | string => trivial
  | number x =>
    cases x with
    | nan | infinite => trivial
    | finite s r =>
      obtain ⟨s', _, same⟩ := Binary64.text_finite s r
      rw [document, Json.Numeric, same]
      exact numeral_signedText s' r
  | @array items _ ih =>
    rw [document, itemsDocument_eq]
    apply Tree.numericItems_of_forall
    intro j hj
    obtain ⟨item, hi, rfl⟩ := List.mem_map.1 hj
    exact ih item hi
  | @object bare members _ _ ih =>
    rw [document, membersDocument_eq]
    apply Tree.numericMembers_of_forall
    intro m hm
    obtain ⟨m', hm', rfl⟩ := List.mem_map.1 ((Members.enumerate_perm _).mem_iff.1 hm)
    exact ih m' hm'

theorem itemsHeight_map {items : List Value} {f : Value → Value}
    (h : ∀ item ∈ items, (f item).height = item.height) :
    itemsHeight (items.map f) = itemsHeight items := by
  induction items with
  | nil => rfl
  | cons item rest ih =>
    rw [List.map_cons, itemsHeight, itemsHeight, h item List.mem_cons_self,
      ih fun v hv => h v (List.mem_cons_of_mem _ hv)]

/-- The text of a value is read as deep as the value. -/
theorem height_document (simple : v.Simple) : v.document.toValue.height = v.height := by
  induction simple with
  | null => rfl
  | boolean b => rfl
  | number x => cases x <;> rfl
  | string t => rfl
  | array _ ih =>
    rw [toValue_array, height, height, itemsHeight_map ih]
  | @object bare members distinct _ ih =>
    have perm := (Members.enumerate_perm members).map (·.2)
    have values : (Members.mapValues (·.document.toValue) (Members.enumerate members)).map (·.2) =
        ((Members.enumerate members).map (·.2)).map (·.document.toValue) := by
      rw [Members.mapValues, List.map_map, List.map_map]
      rfl
    have below : ∀ v ∈ (Members.enumerate members).map (·.2),
        v.document.toValue.height = v.height := by
      intro v hv
      obtain ⟨m, hm, rfl⟩ := List.mem_map.1 (perm.mem_iff.1 hv)
      exact ih m hm
    rw [toValue_object distinct, height, height, membersHeight_eq, membersHeight_eq, values,
      itemsHeight_map below, itemsHeight_perm perm]

/-- The text of a clean value is read as a clean one. -/
theorem clean_document (simple : v.Simple) (clean : v.Clean) : v.document.toValue.Clean := by
  induction simple with
  | null => exact .null
  | boolean b => exact .boolean b
  | number x => cases x <;> constructor
  | string t => exact clean
  | array _ ih =>
    cases clean with
    | array cleans =>
      rw [toValue_array]
      apply Clean.array
      intro item hi
      obtain ⟨item', hi', rfl⟩ := List.mem_map.1 hi
      exact ih item' hi' (cleans item' hi')
  | @object bare members distinct _ ih =>
    cases clean with
    | object keys cleans =>
      rw [toValue_object distinct]
      have listed {m : Text × Value} (hm : m ∈ Members.mapValues (·.document.toValue)
          (Members.enumerate members)) : ∃ m' ∈ members, (m'.1, m'.2.document.toValue) = m := by
        obtain ⟨m', hm', same⟩ := List.mem_map.1 hm
        exact ⟨m', (Members.enumerate_perm members).mem_iff.1 hm', same⟩
      apply Clean.object
      · intro m hm
        obtain ⟨m', hm', rfl⟩ := listed hm
        exact keys m' hm'
      · intro m hm
        obtain ⟨m', hm', rfl⟩ := listed hm
        exact ih m' hm' (cleans m' hm')

end Value

namespace Tree

/-- **The text of a value is rendered as the text of the value.** Plain data without a lone
surrogate and without a byte order mark in front of a string, within the depth limit, is written on
one line and loaded from the arena of a new tree. With up to ten spaces the tree is rendered as the
text of the value with so many spaces for each level. -/
theorem run_serialized {v : Value} (simple : v.Simple) (clean : v.Clean) (finite : v.Finite)
    {limit : Quantity} (shallow : limit.exceededBy v.height = false) (name : Option Text) :
    ∃ t, Request.run ⟨.json, .kept (v.serialized 0), name, limit⟩ (.natural 0) new =
        (.ok (), t) ∧ ∀ n ≤ 10, t.Emits 0 n (v.serialized n) := by
  have numeric := Value.document_numeric simple
  have line := Value.serialized_eq simple (Nat.zero_le 10)
  have parsed : Format.json.parse (v.serialized 0) = .ok v.document.toValue := by
    rw [line, Format.parse, Json.read_sentence (Json.printed_sentence numeric 0 0)]
  have kept : (v.serialized 0).kept = v.serialized 0 := by
    rw [line, Text.kept_iff]
    exact Json.clean_printed numeric 0 0
  have read := Json.toValue_simple v.document
  obtain ⟨source, presented, plain⟩ := Presenter.present_plain read.placeable
  have presents := Presenter.presents_of_present plain presented
  have legible := present_legible .json (Value.clean_document simple clean) read.built presents
  have height : source.height = v.height :=
    (Presenter.presents_size presents).1.trans (Value.height_document simple)
  -- The text comes to lie in the arena of the new tree before the tree is filled.
  obtain ⟨arena, _, room, _, loads, _⟩ := run_given (t := new)
    ⟨.json, .kept (v.serialized 0), name, limit⟩ (.natural 0) fun _ => by decide
  have buffer : 0 < arena.capacity := Nat.lt_of_lt_of_le (by decide) room
  have found : (ofArena arena).nodes[0]? = some ({} : Node) := rfl
  obtain ⟨t, stored, fulfils⟩ := store_fulfils found rfl buffer plain (by rwa [height])
  have loaded := loads _ rfl
  rw [kept, load_eq parsed presented] at loaded
  have mirrors := fulfils.mirrors _ List.mem_cons_self 0 rfl
  have existing := mirrors.lt_size
  have wf := lasting_wellFormed.load .json (v.serialized 0) name (.natural 0) limit
    (ofArena arena) (wellFormed_ofArena arena)
  rw [load_eq parsed presented, stored] at wf
  refine ⟨t, loaded.trans stored, ?_⟩
  intro n few
  rw [Value.serialized_eq simple few, ← Value.document_of_presents simple clean finite presents]
  exact (mirrors.depicts legible).emits wf existing n

/-- An object whose second key is an index and is listed first, and an array with a negative zero,
which is written without its sign. -/
theorem run_serialized_index : ∃ v : Value, v.Simple ∧ v.Clean ∧ v.Finite ∧
    v.serialized 0 = lit "\x7b\"0\":[],\"b\":[0]\x7d" ∧
    v.serialized 2 = lit "\x7b\n  \"0\": [],\n  \"b\": [\n    0\n  ]\n\x7d" ∧
    (Quantity.natural 2).exceededBy v.height = false ∧ ∃ t,
      Request.run ⟨.json, .kept (v.serialized 0), none, .natural 2⟩ (.natural 0) new =
        (.ok (), t) ∧ t.Emits 0 2 (v.serialized 2) := by
  let v : Value := .object false [(lit "b", .array [.number (.finite true ⟨0, by decide⟩)]),
    (lit "0", .array [])]
  have line : v.serialized 0 = lit "\x7b\"0\":[],\"b\":[0]\x7d" := by
    unfold v
    decide +kernel
  have lines : v.serialized 2 = lit "\x7b\n  \"0\": [],\n  \"b\": [\n    0\n  ]\n\x7d" := by
    unfold v
    decide +kernel
  have simple : v.Simple := by
    have distinct : [lit "b", lit "0"].Nodup := by decide
    exact .object distinct (List.forall_mem_cons.2
      ⟨.array (List.forall_mem_cons.2 ⟨.number _, nofun⟩),
        List.forall_mem_cons.2 ⟨.array nofun, nofun⟩⟩)
  have clean : v.Clean := by
    have keys : ∀ key ∈ [lit "b", lit "0"], key.Clean := by
      intro key hk
      have ascii : key.Ascii := by
        rcases List.mem_cons.1 hk with rfl | hk
        · exact Text.ascii_of_all rfl
        · rw [List.mem_singleton.1 hk]
          exact Text.ascii_of_all rfl
      exact ⟨ascii.paired, ascii.unmarked⟩
    exact .object (fun m hm => keys m.1 (List.mem_map_of_mem hm)) (List.forall_mem_cons.2
      ⟨.array (List.forall_mem_cons.2 ⟨.number _, nofun⟩),
        List.forall_mem_cons.2 ⟨.array nofun, nofun⟩⟩)
  have finite : v.Finite :=
    .object (List.forall_mem_cons.2 ⟨.array (List.forall_mem_cons.2 ⟨.number _ _, nofun⟩),
      List.forall_mem_cons.2 ⟨.array nofun, nofun⟩⟩)
  obtain ⟨t, run, emits⟩ := run_serialized simple clean finite
    (show (Quantity.natural 2).exceededBy _ = false from rfl) none
  exact ⟨v, simple, clean, finite, line, lines, rfl, t, run, emits 2 (by decide)⟩

end Tree

end SpanTree
