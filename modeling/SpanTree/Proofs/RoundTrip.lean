import SpanTree.Proofs.Loading
import SpanTree.Proofs.Presenting
import SpanTree.Proofs.Rendering

/-!
# There and back

A document that was loaded into a new tree, rendered and loaded again.

* `store_new`, `load_stored`: what a new tree takes, and what a loaded tree has taken;
* `Mirrors.reload`: loading what the mirror of a value is rendered as stores what it is read as;
* `load_json_again`: for JSON this is the same value, so the same tree results.
-/

namespace SpanTree

namespace Tree

variable {t : Tree} {text : Text} {name : Option Text} {limit : Quantity}

/-- A new tree takes any plain value within the depth limit, and its root has no key. -/
theorem store_new {source : Source} (plain : source.Plain)
    (shallow : limit.exceededBy source.height = false) :
    ∃ t, store source (.natural 0) limit new = (.ok (), t) ∧ t.Mirrors source 0 ∧
      t.keyText (.natural 0) = .error (.noKey (.natural 0)) := by
  have found : new.nodes[0]? = some ({} : Node) := rfl
  have buffer : 0 < new.arena.capacity := by decide
  obtain ⟨t, stored, fulfils⟩ := store_fulfils found rfl buffer plain shallow
  obtain ⟨n, hn, key, _⟩ := fulfils.keys _ List.mem_cons_self 0 _ rfl found
  refine ⟨t, stored, fulfils.mirrors _ List.mem_cons_self 0 rfl, ?_⟩
  have blank : n.key = .blank := key.trans (Source.keptKey_eq nofun)
  rw [keyText_def, key_natural hn, blank]
  rfl

/-- A tree that was loaded has taken the value that was presented for the document. -/
theorem load_stored {format : Format} {v : Value} {node : Quantity} {t' : Tree}
    (parsed : format.parse text = .ok v)
    (loaded : load format text name node limit t = (.ok (), t')) :
    ∃ source, format.presenter.Presents v source ∧ source.Plain ∧
      limit.exceededBy source.height = false ∧ store source node limit t = (.ok (), t') := by
  cases presented : format.presenter.present v with
  | error e =>
    rw [load_def, parsed] at loaded
    dsimp only at loaded
    rw [presented] at loaded
    cases loaded
  | ok source =>
    rw [load_eq parsed presented] at loaded
    obtain ⟨plain, shallow⟩ := store_ok loaded
    exact ⟨source, Presenter.presents_of_present plain presented, plain, shallow, loaded⟩

theorem load_inv {format : Format} {v : Value} (parsed : format.parse text = .ok v)
    (loaded : load format text name (.natural 0) limit new = (.ok (), t)) :
    t.WellFormed ∧ ∃ source, format.presenter.Presents v source ∧ source.Plain ∧
      limit.exceededBy source.height = false ∧
      store source (.natural 0) limit new = (.ok (), t) := by
  have kept := lasting_wellFormed.load format text name (.natural 0) limit new
    (wellFormed_ofArena .new)
  rw [loaded] at kept
  exact ⟨kept, load_stored parsed loaded⟩

/-- The mirror of a legible value is rendered as a text that stores what the value is read as. -/
theorem Mirrors.reload {source : Source} (wf : t.WellFormed) (legible : source.Legible)
    (h : t.Mirrors source 0) (k : Nat) : ∃ again, t.Emits 0 k again ∧
      ∀ name node limit, load .json again name node limit = store source.reread node limit := by
  have depicts := h.depicts legible
  have existing := h.lt_size
  refine ⟨_, depicts.emits wf existing k, ?_⟩
  intro name node limit
  have parsed : Format.json.parse (Json.printed k source.document 0) =
      .ok source.document.toValue := by
    unfold Format.parse
    dsimp only
    rw [depicts.read k]
  exact load_eq parsed (Source.present_document legible) name node limit

/-- **JSON is loaded again as the same tree.** A text of JSON whose keys and strings are clean and
whose numbers are finite was loaded into a new tree. With any whole number of spaces that tree is
rendered as a text, as far as that is not too long, and under the same depth limit a new tree is
loaded from that text as the very same tree, spans and all. -/
theorem load_json_again {v : Value} (parsed : Format.json.parse text = .ok v) (clean : v.Clean)
    (finite : v.Finite) (loaded : load .json text name (.natural 0) limit new = (.ok (), t))
    (k : Nat) : ∃ again, t.Emits 0 k again ∧
      ∀ name', load .json again name' (.natural 0) limit new = (.ok (), t) := by
  obtain ⟨wf, source, presented, plain, shallow, stored⟩ := load_inv parsed loaded
  obtain ⟨t', stored', mirrors, _⟩ := store_new plain shallow
  rw [stored] at stored'
  cases stored'
  have simple := Format.json_simple parsed
  have legible := present_legible .json clean simple.built presented
  have same := reread_of_present simple clean finite presented
  obtain ⟨again, emits, reload⟩ := mirrors.reload wf legible k
  refine ⟨again, emits, ?_⟩
  intro name'
  rw [reload, same, stored]

/-- An object with one member. -/
theorem load_json_again_member : ∃ t again,
    load .json (lit "\x7b\"a\":null\x7d") none (.natural 0) (.natural 1) new = (.ok (), t) ∧
      t.Emits 0 2 again ∧ load .json again none (.natural 0) (.natural 1) new = (.ok (), t) := by
  have parsed : Format.json.parse (lit "\x7b\"a\":null\x7d") =
      .ok (.object false [(lit "a", .null)]) := by
    have spelled : lit "\x7b\"a\":null\x7d" = Json.printed 0 (.object [(lit "a", .null)]) 0 := by
      decide
    have numeric : (Json.object [(lit "a", .null)]).Numeric := ⟨trivial, trivial⟩
    rw [spelled, Format.parse, Json.read_sentence (Json.printed_sentence numeric 0 0)]
    rfl
  have presented : Format.json.presenter.present (.object false [(lit "a", .null)]) =
      .ok (.ofMembers [(lit "a", .scalar .null)]) := rfl
  have clean : (Value.object false [(lit "a", .null)]).Clean := by
    apply Value.Clean.object
    · intro m hm
      rw [List.mem_singleton.1 hm]
      exact ⟨rfl, by decide⟩
    · intro m hm
      rw [List.mem_singleton.1 hm]
      exact .null
  have finite : (Value.object false [(lit "a", .null)]).Finite := by
    apply Value.Finite.object
    intro m hm
    rw [List.mem_singleton.1 hm]
    exact .null
  have plain : (Source.ofMembers [(lit "a", .scalar .null)]).Plain := by
    apply Source.Plain.table
    intro m hm
    rw [List.mem_singleton.1 hm]
    exact .scalar .null
  obtain ⟨t, stored, _⟩ := store_new plain
    (show (Quantity.natural 1).exceededBy _ = false from rfl)
  have loaded : load .json (lit "\x7b\"a\":null\x7d") none (.natural 0) (.natural 1) new =
      (.ok (), t) := by
    rw [load_eq parsed presented, stored]
  obtain ⟨again, emits, reload⟩ := load_json_again parsed clean finite loaded 2
  exact ⟨t, again, loaded, emits, reload none⟩

end Tree

end SpanTree
