import SpanTree.Proofs.Acceptance

/-!
# The order of members

The children of a map come in the order in which the members of its object are listed, and this is
the order in which they are written if and only if no index is written too late.

* `Json.Distinct`, `Json.at?`: documents in which no object repeats a key, and their parts;
* `Mirrors.follow_at`, `Mirrors.object`: a path leads in a tree to the mirror of the part to which
  it leads in the document, and what the mirror of an object is;
* `run_json_order`: the children of the map that an object becomes.
-/

namespace SpanTree

namespace Members

variable {α : Type} {members : List (Text × α)}

/-- An arena gives clean keys back as they are written, and they are listed in the order in which
they are written exactly if they are orderly. -/
theorem kept_enumerate_iff {ε : Type} (clean : ∀ m ∈ members, m.1.Clean) :
    (enumerate members).map (fun m => (.ok m.1.kept : Except ε Text)) =
      members.map (fun m => .ok m.1) ↔ Orderly (members.map (·.1)) := by
  have kept : (enumerate members).map (fun m => (.ok m.1.kept : Except ε Text)) =
      ((enumerate members).map (·.1)).map .ok := by
    rw [List.map_map]
    refine List.map_congr_left fun m hm => ?_
    have inside := (enumerate_perm members).mem_iff.1 hm
    exact congrArg Except.ok (Text.kept_iff.2 (clean m inside))
  have written : members.map (fun m => (.ok m.1 : Except ε Text)) =
      (members.map (·.1)).map .ok := List.map_map.symm
  have injective : Function.Injective (.ok : Text → Except ε Text) :=
    fun _ _ same => Except.ok.inj same
  rw [kept, written, (List.map_injective_iff.2 injective).eq_iff, keys_enumerate_iff]

end Members

/-! ## Parts of documents -/

namespace Json

/-- No object repeats a key. -/
inductive Distinct : Json → Prop
  | null : Distinct .null
  | boolean (b : Bool) : Distinct (.boolean b)
  | number (digits : Text) : Distinct (.number digits)
  | string (t : Text) : Distinct (.string t)
  | array {items : List Json} (h : ∀ item ∈ items, Distinct item) : Distinct (.array items)
  | object {members : List (Text × Json)} (distinct : (members.map (·.1)).Nodup)
      (h : ∀ m ∈ members, Distinct m.2) : Distinct (.object members)

/-- The values right below a value, those of an object as they are listed. -/
def parts : Json → List Json
  | array items => items
  | object members => (Members.enumerate members).map (·.2)
  | _ => []

/-- The part of a value to which a path of positions leads. -/
def at? (j : Json) : List Nat → Option Json
  | [] => some j
  | i :: path => j.parts[i]?.bind (·.at? path)

variable {p : Presenter} {j : Json} {src : Source}

/-- An array is presented as one of its items. -/
theorem presents_array {items : List Json} (h : p.Presents (array items).toValue src) :
    ∃ parts, src = .ofItems parts ∧
      List.Forall₂ (fun item part => p.Presents item.toValue part) items parts := by
  rw [toValue, itemValues_eq] at h
  cases h with
  | @array _ parts same each =>
    rw [List.map_map] at same
    refine ⟨parts, rfl, Tree.forall₂_of_getElem? (by simpa using congrArg List.length same) ?_⟩
    intro i item part hi hp
    have presented : p.present item.toValue = .ok part := by
      simpa [hi, hp] using congrArg (·[i]?) same
    exact each _ (List.mem_map_of_mem (List.mem_of_getElem? hi)) part (List.mem_of_getElem? hp)
      presented

/-- An object that repeats no key is presented as the table of its members, as they are listed. -/
theorem presents_object {members : List (Text × Json)} (distinct : (members.map (·.1)).Nodup)
    (h : p.Presents (object members).toValue src) : ∃ parts, src = .ofMembers parts ∧
      List.Forall₂ (fun m part => m.1 = part.1 ∧ p.Presents m.2.toValue part.2)
        (Members.enumerate members) parts := by
  have kept : Members.ofList (Members.mapValues toValue members) =
      Members.mapValues toValue members :=
    Members.ofList_of_nodup (by rwa [Members.keys_mapValues])
  rw [toValue, memberValues_eq, kept] at h
  cases h with
  | @object _ _ parts same each =>
    rw [Members.mapValues_mapValues, Members.enumerate_map] at same
    refine ⟨parts, rfl, Tree.forall₂_of_getElem? ?_ ?_⟩
    · simpa [Members.mapValues] using congrArg List.length same
    intro i m part hm hp
    have presented : m.1 = part.1 ∧ p.present m.2.toValue = .ok part.2 := by
      simpa [Members.mapValues, hm, hp] using congrArg (·[i]?) same
    have inside := (Members.enumerate_perm members).mem_iff.1 (List.mem_of_getElem? hm)
    exact ⟨presented.1, each _ (List.mem_map_of_mem inside) part (List.mem_of_getElem? hp)
      presented.2⟩

theorem Distinct.part (h : j.Distinct) : ∀ part ∈ j.parts, part.Distinct := by
  cases h with
  | null | boolean | number | string => exact nofun
  | array h => exact h
  | object _ h =>
    intro part hp
    obtain ⟨m, hm, rfl⟩ := List.mem_map.1 hp
    exact h m ((Members.enumerate_perm _).mem_iff.1 hm)

/-- The parts of a document that repeats no key are presented one by one. -/
theorem presents_parts (distinct : j.Distinct) (h : p.Presents j.toValue src) :
    List.Forall₂ (fun part part' => p.Presents part.toValue part') j.parts src.parts := by
  cases distinct with
  | null | boolean | number | string =>
    cases h
    exact .nil
  | array =>
    obtain ⟨parts, rfl, each⟩ := presents_array h
    exact each
  | object keys =>
    obtain ⟨parts, rfl, each⟩ := presents_object keys h
    exact List.forall₂_map_left_iff.2 (List.forall₂_map_right_iff.2 (each.imp fun _ _ => And.right))

end Json

namespace Tree

variable {t t' : Tree} {id c : Nat} {n : Node}

/-- A path from the mirror of a document leads to the mirror of its part. -/
theorem Mirrors.follow_at {p : Presenter} {j part : Json} {src : Source} {path : List Nat}
    (distinct : j.Distinct) (presents : p.Presents j.toValue src) (h : t.Mirrors src id)
    (leads : j.at? path = some part) :
    ∃ c part', t.follow (.natural id) (positions path) = .ok (.natural c) ∧ part.Distinct ∧
      p.Presents part.toValue part' ∧ t.Mirrors part' c := by
  induction path generalizing j src id with
  | nil =>
    cases leads
    exact ⟨id, src, rfl, distinct, presents, h⟩
  | cons i path ih =>
    obtain ⟨first, here, later⟩ := Option.bind_eq_some_iff.1 leads
    have each := Json.presents_parts distinct presents
    obtain ⟨part', hp⟩ := exists_getElem? each.length_eq.symm here
    cases h with
    | @intro _ _ n found _ length _ below =>
      obtain ⟨child, hc⟩ := exists_getElem? (l := n.children.toList) length hp
      rw [Array.getElem?_toList] at hc
      obtain ⟨c, last, follows, rest⟩ := ih (distinct.part _ (List.mem_of_getElem? here))
        (getElem?_of_forall₂ each here hp) (below i child part' hc hp) later
      exact ⟨c, last, follow_cons.2 ⟨n, child, found, hc, follows⟩, rest⟩

/-- The children of the mirror of a table have the keys of its members. -/
theorem Mirrors.keyTexts {members : List (Text × Source)} (h : t.Mirrors (.ofMembers members) id)
    (found : t.nodes[id]? = some n) :
    n.children.toList.map (fun c => t.keyText (.natural c)) =
      members.map fun m => .ok m.1.kept := by
  cases h with
  | intro found' _ length labelled =>
    cases found.symm.trans found'
    rw [← List.forall₂_eq_eq_eq, List.forall₂_map_left_iff, List.forall₂_map_right_iff]
    refine forall₂_of_getElem? (by simpa [Source.ofMembers, Source.parts] using length) ?_
    intro i c m hc hm
    rw [Array.getElem?_toList] at hc
    obtain ⟨child, found, _, spells⟩ := labelled i c (some m.1) hc
      (by simp [Source.ofMembers, Source.labels, hm])
    obtain ⟨span, known, reads⟩ := Arena.Spells.kept spells
    rw [keyText_known found known]
    exact text_ok.2 reads

/-- The mirror of an object that repeats no key is a map whose children have its keys, in the order
in which the object lists them. -/
theorem Mirrors.object {p : Presenter} {members : List (Text × Json)} {src : Source}
    (h : t.Mirrors src id) (distinct : (members.map (·.1)).Nodup)
    (presents : p.Presents (Json.object members).toValue src) :
    ∃ n, t.nodes[id]? = some n ∧ n.kind = .map ∧
      n.children.toList.map (fun c => t.keyText (.natural c)) =
        (Members.enumerate members).map fun m => .ok m.1.kept := by
  obtain ⟨parts, rfl, each⟩ := Json.presents_object distinct presents
  obtain ⟨n, found, shown⟩ := h.shown
  refine ⟨n, found, shown.1, (h.keyTexts found).trans ?_⟩
  rw [← List.forall₂_eq_eq_eq, List.forall₂_map_left_iff, List.forall₂_map_right_iff]
  exact (each.imp fun _ _ same =>
    congrArg (fun key : Text => (.ok key.kept : Except Failure Text)) same.1.symm).flip

/-- A sentence that was loaded is mirrored, as it is presented. -/
theorem load_json_mirrors {j : Json} {text : Text} {name : Option Text} {limit : Quantity}
    (found : t.nodes[id]? = some n) (free : n.children = #[]) (sentence : Json.Sentence j text)
    (loaded : load .json text name (.natural id) limit t = (.ok (), t')) :
    ∃ src, Format.json.presenter.Presents j.toValue src ∧ t'.Mirrors src id := by
  obtain ⟨src, presents, _, _, stored⟩ :=
    load_stored (Format.parse_json.2 ⟨j, sentence, rfl⟩) loaded
  have fulfils := writeAll_done (awaits_one src found free) stored
  exact ⟨src, presents, fulfils.mirrors _ List.mem_cons_self id rfl⟩

/-- **The order of the children.** A text in which no object repeats a key is loaded into a node
without children. For each object of the text, a path of positions leads from the node to a map
whose children have its keys, in the order in which the object lists them. If its keys are clean,
this is the order in which they are written if and only if every key that is an index is written
behind indices alone, none of them greater. -/
theorem run_json_order {id : Nat} (found : t.nodes[id]? = some n) (free : n.children = #[])
    {text : Text} {name : Option Text} {limit : Quantity}
    (loaded : Request.run ⟨.json, .text text, name, limit⟩ (.natural id) t = (.ok (), t'))
    {j : Json} (sentence : Json.Sentence j text) (distinct : j.Distinct) {path : List Nat}
    {members : List (Text × Json)} (leads : j.at? path = some (.object members)) :
    ∃ c m, t'.follow (.natural id) (positions path) = .ok (.natural c) ∧
      t'.nodes[c]? = some m ∧ m.kind = .map ∧
      m.children.toList.map (fun child => t'.keyText (.natural child)) =
        (Members.enumerate members).map (fun member => .ok member.1.kept) ∧
      ((∀ member ∈ members, member.1.Clean) →
        (m.children.toList.map (fun child => t'.keyText (.natural child)) =
          members.map (fun member => .ok member.1) ↔
            Members.Orderly (members.map (·.1)))) := by
  rw [run_text] at loaded
  obtain ⟨src, presents, mirrors⟩ := load_json_mirrors found free sentence loaded
  obtain ⟨c, part, follows, distinct', presents', mirrors'⟩ :=
    mirrors.follow_at distinct presents leads
  cases distinct' with
  | object once =>
    obtain ⟨m, found', kind, listed⟩ := mirrors'.object once presents'
    refine ⟨c, m, follows, found', kind, listed, fun clean => ?_⟩
    rw [listed]
    exact Members.kept_enumerate_iff clean

/-- A key that is an index comes first, although it is written last. -/
theorem run_json_order_index : ∃ (t' : Tree) (c : Nat) (m : Node),
    Request.run ⟨.json, .text (lit "\x7b\"b\":1,\"1\":2\x7d"), none, defaultLimit⟩ (.natural 0)
      new = (.ok (), t') ∧ t'.nodes[c]? = some m ∧
    m.children.toList.map (fun child => t'.keyText (.natural child)) =
      [.ok (lit "1"), .ok (lit "b")] := by
  have sentence : Json.Sentence
      (.object [(lit "b", .number (lit "1")), (lit "1", .number (lit "2"))])
      (lit "\x7b\"b\":1,\"1\":2\x7d") := by
    have first : Json.Units (lit "b") (lit "b") := Json.units_escape (lit "b")
    have second : Json.Units (lit "1") (lit "1") := Json.units_escape (lit "1")
    have one : Json.Spells (.number (lit "1")) (lit "1") := ⟨rfl, Json.isNumber_iff.1 rfl⟩
    have two : Json.Spells (.number (lit "2")) (lit "2") := ⟨rfl, Json.isNumber_iff.1 rfl⟩
    have members : Json.SpellsMembers [(lit "b", .number (lit "1")), (lit "1", .number (lit "2"))]
        [lit "\"b\":1", lit "\"1\":2"] :=
      ⟨[], _, [], [], _, [], _, Json.blank_nil, first, Json.blank_nil, Json.blank_nil, one,
        Json.blank_nil, ⟨[], _, [], [], _, [], [], Json.blank_nil, second, Json.blank_nil,
          Json.blank_nil, two, Json.blank_nil, rfl, rfl⟩, rfl⟩
    exact ⟨[], _, [], Json.blank_nil,
      ⟨[], _, [], Json.blank_nil, members, Json.blank_nil, rfl⟩, Json.blank_nil, rfl⟩
  have distinct : (Json.object
      [(lit "b", .number (lit "1")), (lit "1", .number (lit "2"))]).Distinct := by
    refine .object (by decide) ?_
    intro m hm
    rcases List.mem_cons.1 hm with rfl | hm
    · exact .number _
    · rw [List.mem_singleton.1 hm]
      exact .number _
  obtain ⟨t', loaded⟩ : ∃ t', load .json (lit "\x7b\"b\":1,\"1\":2\x7d") none (.natural 0)
      defaultLimit new = (.ok (), t') := load_sentence sentence rfl
  rw [← run_text] at loaded
  have found : new.nodes[0]? = some ({} : Node) := rfl
  have leads : (Json.object [(lit "b", .number (lit "1")), (lit "1", .number (lit "2"))]).at? [] =
      some (.object [(lit "b", .number (lit "1")), (lit "1", .number (lit "2"))]) := rfl
  obtain ⟨c, m, _, found', _, listed, _⟩ :=
    run_json_order found rfl loaded sentence distinct leads
  exact ⟨t', c, m, loaded, found', listed⟩

end Tree

end SpanTree
