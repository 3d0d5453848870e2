import SpanTree.Proofs.Likeness
import SpanTree.Proofs.Paths
import SpanTree.Proofs.Reporting
import SpanTree.Proofs.RoundTrip
import SpanTree.Proofs.Sentences

/-!
# The texts that are loaded as JSON

The sentences of JSON that do not reach below the depth limit, and no other texts.

* `exceededBy_whole`: a whole number of any size as a limit;
* `Spells.height_le`: a value reaches no deeper than its spelling is long;
* `Mirrors.of_below`: all nodes below a mirror are mirrors of parts;
* `run_json_accepts`: which texts are loaded into a new tree, what is reported of the others, and
  how many nodes there are then.
-/

namespace SpanTree

/-! ## Limits -/

/-- A whole number as a limit, where it or the depth is small. -/
theorem Quantity.exceededBy_whole {x : Binary64} {most n : Nat}
    (whole : x.toInt? = some (most : Int)) (small : most < 2 ^ 53 ∨ n < 2 ^ 53) :
    (ofBinary64 x).exceededBy n = decide (most < n) := by
  rw [ofBinary64_whole whole]
  by_cases low : most < 2 ^ 53
  · rw [if_pos (by omega), exceededBy, Int.toNat_natCast]
  · rw [if_neg (by omega), exceededBy,
      Binary64.lt_whole whole (Binary64.toInt?_ofNat (small.resolve_left low)), decide_eq_decide,
      Int.ofNat_lt]

/-! ## Depths of texts -/

namespace Json

mutual

/-- A value reaches no deeper than its spelling is long, as each level has brackets of its own. -/
theorem Spells.height_le : ∀ (j : Json) {t : Text}, Spells j t → j.toValue.height ≤ t.length
  | .null, _, _ | .boolean _, _, _ | .number _, _, _ | .string _, _, _ => Nat.zero_le _
  | .array items, t, h => by
    obtain ⟨w, texts, v, _, spelled, _, rfl⟩ := h
    rw [toValue, itemValues_eq, Value.height]
    refine Value.itemsHeight_le fun value hv => ?_
    obtain ⟨item, hi, rfl⟩ := List.mem_map.1 hv
    obtain ⟨s, hs, le⟩ := items_height_le items spelled item hi
    exact Nat.lt_of_le_of_lt le (length_lt_enclosed hs _ _ w v)
  | .object members, t, h => by
    obtain ⟨w, texts, v, _, spelled, _, rfl⟩ := h
    rw [toValue, memberValues_eq, Value.height, Value.membersHeight_eq]
    refine Value.itemsHeight_le fun value hv => ?_
    obtain ⟨m, hm, rfl⟩ := List.mem_map.1 hv
    obtain ⟨member, hmember, rfl⟩ := List.mem_map.1 (Members.mem_ofList hm)
    obtain ⟨s, hs, le⟩ := members_height_le members spelled member hmember
    exact Nat.lt_of_le_of_lt le (length_lt_enclosed hs _ _ w v)

theorem items_height_le : ∀ (items : List Json) {texts : List Text}, SpellsItems items texts →
    ∀ item ∈ items, ∃ s ∈ texts, item.toValue.height ≤ s.length
  | [], _, _ => nofun
  | first :: rest, _, h => by
    obtain ⟨before, text, after, more, _, spelled, _, later, rfl⟩ := h
    refine List.forall_mem_cons.2 ⟨⟨_, List.mem_cons_self, ?_⟩, fun item hi => ?_⟩
    · have := Spells.height_le first spelled
      simp only [List.length_append]
      omega
    · obtain ⟨s, hs, le⟩ := items_height_le rest later item hi
      exact ⟨s, List.mem_cons_of_mem _ hs, le⟩

theorem members_height_le : ∀ (members : List (Text × Json)) {texts : List Text},
    SpellsMembers members texts → ∀ m ∈ members, ∃ s ∈ texts, m.2.toValue.height ≤ s.length
  | [], _, _ => nofun
  | (key, value) :: rest, _, h => by
    obtain ⟨before, name, between, body, text, after, more, _, _, _, _, spelled, _, later, rfl⟩ := h
    refine List.forall_mem_cons.2 ⟨⟨_, List.mem_cons_self, ?_⟩, fun m hm => ?_⟩
    · have := Spells.height_le value spelled
      simp only [List.length_append, List.length_cons]
      omega
    · obtain ⟨s, hs, le⟩ := members_height_le rest later m hm
      exact ⟨s, List.mem_cons_of_mem _ hs, le⟩

end

theorem Sentence.height_le {j : Json} {t : Text} (h : Sentence j t) :
    j.toValue.height ≤ t.length := by
  obtain ⟨before, text, after, _, spelled, _, rfl⟩ := h
  have := Spells.height_le j spelled
  simp only [List.length_append]
  omega

end Json

theorem Format.parse_json {text : Text} {v : Value} :
    Format.json.parse text = .ok v ↔ ∃ j, Json.Sentence j text ∧ v = j.toValue := by
  unfold Format.parse
  dsimp only
  constructor
  · intro parsed
    split at parsed
    · next j read =>
      cases parsed
      exact ⟨j, Json.read_iff.1 read, rfl⟩
    · cases parsed
  · rintro ⟨j, sentence, rfl⟩
    rw [Json.read_iff.2 sentence]

/-! ## Loaded trees -/

namespace Tree

variable {t : Tree} {value : Source} {id j : Nat} {n : Node}

/-- All nodes below the mirror of a value are mirrors of parts. -/
theorem Mirrors.of_below (h : t.Mirrors value id) (below : t.Below id j) :
    ∃ part, t.Mirrors part j := by
  induction below with
  | self => exact ⟨value, h⟩
  | child _ found hc ih =>
    obtain ⟨part, mirrors⟩ := ih
    cases mirrors with
    | intro found' _ length _ parts =>
      cases found.symm.trans found'
      obtain ⟨i, hi⟩ := Array.mem_iff_getElem?.1 hc
      have inside : i < part.parts.length := by
        rw [← length]
        exact (Array.getElem?_eq_some_iff.1 hi).1
      exact ⟨_, parts i _ _ hi (List.getElem?_eq_getElem inside)⟩

/-- A mirror is a container, or a scalar whose value can be read. -/
theorem Mirrors.filled (h : t.Mirrors value id) (found : t.nodes[id]? = some n) :
    n.kind.isContainer = true ∨
      n.kind = .scalar ∧ ∃ text, t.valueText (.natural id) = .ok text := by
  cases h with
  | intro found' shown =>
    cases found.symm.trans found'
    cases value with
    | table | array =>
      left
      rw [shown.1]
      rfl
    | scalar s =>
      obtain ⟨kind, spells, _⟩ := shown
      obtain ⟨span, known, reads⟩ := spells.kept
      refine .inr ⟨kind, s.text.kept, ?_⟩
      rw [valueText_natural found, known, slotText_known]
      exact text_ok.2 reads
    | unsupported | unknown | absent => exact shown.elim

variable {text : Text} {name : Option Text} {limit : Quantity}

/-- A sentence of JSON whose value lies within the depth limit is loaded. -/
theorem load_sentence {j : Json} (sentence : Json.Sentence j text)
    (low : limit.exceededBy j.toValue.height = false) :
    ∃ t, load .json text name (.natural 0) limit new = (.ok (), t) := by
  have parsed := Format.parse_json.2 ⟨j, sentence, rfl⟩
  obtain ⟨source, presented, plain⟩ :=
    Presenter.present_plain (Format.placeable (by nofun) parsed (Json.toValue_simple j).dated)
  rw [← (Presenter.presents_size (Presenter.presents_of_present plain presented)).1] at low
  obtain ⟨t, stored, _⟩ := store_new plain low
  exact ⟨t, by rw [load_eq parsed presented, stored]⟩

/-- What is loaded is a sentence of JSON whose value lies within the depth limit, and there is a
node for each part of it. -/
theorem load_json_inv (loaded : load .json text name (.natural 0) limit new = (.ok (), t)) :
    ∃ j, Json.Sentence j text ∧ limit.exceededBy j.toValue.height = false ∧
      t.size = j.toValue.count ∧ ∀ id n, t.nodes[id]? = some n → n.kind.isContainer = true ∨
        n.kind = .scalar ∧ ∃ value, t.valueText (.natural id) = .ok value := by
  cases parsed : Format.json.parse text with
  | error c =>
    rw [load_error parsed] at loaded
    cases loaded
  | ok v =>
    obtain ⟨j, sentence, rfl⟩ := Format.parse_json.1 parsed
    obtain ⟨wf, source, presents, _, low, stored⟩ := load_inv parsed loaded
    obtain ⟨height, count⟩ := Presenter.presents_size presents
    have found : new.nodes[0]? = some ({} : Node) := rfl
    have fulfils := writeAll_done (awaits_one source found rfl) stored
    have mirrors := fulfils.mirrors _ List.mem_cons_self 0 rfl
    refine ⟨j, sentence, height ▸ low, ?_, ?_⟩
    · have size := fulfils.size
      simp only [List.map_cons, List.map_nil, Source.itemsCount, List.length_singleton] at size
      have one : new.size = 1 := rfl
      omega
    · intro id n found
      obtain ⟨part, shown⟩ := mirrors.of_below (wf.below_root (lt_size found))
      exact shown.filled found

/-- Nothing but the document itself keeps JSON from being loaded into a new tree. -/
theorem run_json_failure {f : Failure}
    (failed : Request.run ⟨.json, .text text, name, limit⟩ (.natural 0) new = (.error f, t)) :
    (∃ description place, f = .malformed (lit "JSON") description place) ∨
      ∃ node, f = .tooDeep limit node := by
  rcases run_failure (by nofun) (fun _ _ _ parsed => (Format.json_simple parsed).dated) failed
    with ⟨empty, _⟩ | ⟨_, hindrance⟩
  · cases empty
  · cases hindrance with
    | unreadable given => cases given
    | malformed => exact .inl ⟨_, _, rfl⟩
    | tooDeep _ _ _ place => exact .inr ⟨place, rfl⟩
    | declined _ _ _ declines =>
      cases declines with
      | unknown nowhere => cases nowhere
      | container found taken | scalar found taken =>
        cases found
        exact absurd rfl taken

/-- **The texts that are loaded as JSON.** A text of fewer than 2⁵³ units, as all are, is loaded
into a new tree under any whole depth limit that is not negative. This succeeds if and only if it is
a sentence of JSON whose value does not reach below the limit. Otherwise one report says that it is
malformed or too deep, and nothing else is ever reported. A loaded tree has a node for each value,
of two members with the same key the earlier one not counted, and each of its nodes is a map or a
seq, or a scalar with a text. -/
theorem run_json_accepts {text : Text} (short : text.length < 2 ^ 53) {x : Binary64} {most : Nat}
    (whole : x.toInt? = some (most : Int)) (name : Option Text) (handler : Handler)
    {outcome : Outcome Unit}
    (performed : outcome = (Request.run ⟨.json, .text text, name, .ofBinary64 x⟩
      (.natural 0)).perform (some handler) new) :
    (outcome.result = .ok () ↔ ∃ j, Json.Sentence j text ∧ j.toValue.height ≤ most) ∧
    (outcome.result ≠ .ok () → ∃ report : Report,
      ((∃ description place,
          report = ⟨lit "Invalid JSON document: " ++ description, some place⟩) ∨
        ∃ node : Quantity, report = ⟨lit "Document nesting exceeds the maximum depth of " ++
          (Quantity.ofBinary64 x).text ++ lit " at node " ++ node.text ++ lit ".", none⟩) ∧
      outcome.reports = [report] ∧ outcome.result = .error (report.deliver handler)) ∧
    (outcome.result = .ok () → ∀ j, Json.Sentence j text →
      outcome.tree.size = j.toValue.count ∧
      ∀ id n, outcome.tree.nodes[id]? = some n → n.kind.isContainer = true ∨
        n.kind = .scalar ∧ ∃ value, outcome.tree.valueText (.natural id) = .ok value) := by
  have exceeded {j : Json} (sentence : Json.Sentence j text) :
      (Quantity.ofBinary64 x).exceededBy j.toValue.height = decide (most < j.toValue.height) :=
    Quantity.exceededBy_whole whole (.inr (Nat.lt_of_le_of_lt sentence.height_le short))
  cases ran : Request.run ⟨.json, .text text, name, .ofBinary64 x⟩ (.natural 0) new with
  | mk result t =>
  have loads := ran
  rw [run_text] at loads
  cases result with
  | ok done =>
    rw [Edit.perform_ok ran] at performed
    subst performed
    obtain ⟨j, sentence, low, size, filled⟩ := load_json_inv loads
    rw [exceeded sentence, decide_eq_false_iff_not] at low
    refine ⟨⟨fun _ => ⟨j, sentence, by omega⟩, fun _ => rfl⟩, fun failed => absurd rfl failed, ?_⟩
    intro _ j' sentence'
    have same := Json.read_iff.2 sentence'
    rw [Json.read_iff.2 sentence] at same
    cases same
    exact ⟨size, filled⟩
  | error f =>
    have refused : ¬ ∃ j, Json.Sentence j text ∧ j.toValue.height ≤ most := by
      rintro ⟨j, sentence, low⟩
      have shallow : (Quantity.ofBinary64 x).exceededBy j.toValue.height = false := by
        rw [exceeded sentence, decide_eq_false_iff_not]
        omega
      obtain ⟨t', loaded⟩ := load_sentence sentence shallow
      rw [loads] at loaded
      cases loaded
    rcases run_json_failure ran with ⟨description, place, rfl⟩ | ⟨node, rfl⟩
    · rw [Edit.perform_reported ran rfl] at performed
      subst performed
      exact ⟨iff_of_false nofun refused,
        fun _ => ⟨_, .inl ⟨description, place, rfl⟩, rfl, rfl⟩, nofun⟩
    · rw [Edit.perform_reported ran rfl] at performed
      subst performed
      exact ⟨iff_of_false nofun refused, fun _ => ⟨_, .inr ⟨node, rfl⟩, rfl, rfl⟩, nofun⟩

/-- Of a key that is written twice, the later value counts, and it lies within the limit. -/
theorem run_json_accepts_repeated : ∃ outcome : Outcome Unit,
    outcome = (Request.run ⟨.json, .text (lit "\x7b\"a\":[[]],\"a\":[]\x7d"), none,
      .ofBinary64 (.ofNat 1)⟩ (.natural 0)).perform (some Report.raise) new ∧
    outcome.result = .ok () ∧ outcome.tree.size = 2 := by
  have read : ((Json.read (lit "\x7b\"a\":[[]],\"a\":[]\x7d")).toOption.map fun j =>
      (j.toValue.height, j.toValue.count)) = some (1, 2) := by decide +kernel
  obtain ⟨j, known, sizes⟩ := Option.map_eq_some_iff.1 read
  obtain ⟨height, count⟩ := Prod.mk.inj sizes
  have sentence : Json.Sentence j (lit "\x7b\"a\":[[]],\"a\":[]\x7d") := by
    apply Json.read_iff.1
    cases parsed : Json.read (lit "\x7b\"a\":[[]],\"a\":[]\x7d") with
    | error fault =>
      rw [parsed] at known
      cases known
    | ok j' =>
      rw [parsed] at known
      cases known
      rfl
  have length : (lit "\x7b\"a\":[[]],\"a\":[]\x7d").length = 17 := rfl
  have short : (lit "\x7b\"a\":[[]],\"a\":[]\x7d").length < 2 ^ 53 := by omega
  obtain ⟨accepted, _, loaded⟩ :=
    run_json_accepts short (Binary64.toInt?_ofNat (n := 1) (by omega)) none Report.raise rfl
  have done := accepted.2 ⟨j, sentence, Nat.le_of_eq height⟩
  exact ⟨_, rfl, done, (loaded done j sentence).1.trans count⟩

end Tree

end SpanTree
