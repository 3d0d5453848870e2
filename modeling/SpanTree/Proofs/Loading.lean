import SpanTree.Proofs.Encoding
import SpanTree.Proofs.Storing

/-!
# Loading a document

A document is read as a whole before any node is touched, wherever its text comes from.

* `Origin.given`, `Origin.stored`, `Origin.label`: the text that is read, the bytes that the arena
  keeps of it, and what the document goes by in reports;
* `Loads`, `run_begun`, `run_given`: once its bytes are in the arena, a document is loaded from the
  text that is given;
* `run_malformed`: so a malformed document leaves all nodes as they were, and so does a file that
  cannot be read.
-/

namespace SpanTree

namespace Origin

/-- The text that is read. What the arena keeps is read as the arena gives it back, and a file may
have no text. -/
def given : Origin → Except Text Text
  | text t => .ok t
  | kept t => .ok t.kept
  | file folder path => folder.read path

def stored : Origin → List UInt8
  | kept t => Utf8.encode t
  | _ => []

/-- What a document goes by in reports; a file goes by its path. -/
def label (name : Option Text) : Origin → Option Text
  | file _ path => some path
  | _ => name

end Origin

namespace Tree

variable {t : Tree} {format : Format} {text : Text}

theorem text_ok {span : Span} : t.text span = .ok text ↔ t.arena.text span = .ok text := by
  unfold Tree.text
  cases t.arena.text span with
  | error fault => exact ⟨nofun, nofun⟩
  | ok found =>
    constructor
    · intro h
      cases h
      rfl
    · intro h
      cases h
      rfl

theorem exists_error {ε α : Type} {r : Except ε α} (h : r.toOption.isSome = false) :
    ∃ e, r = .error e := by
  cases r with
  | error e => exact ⟨e, rfl⟩
  | ok a => cases h

theorem exists_ok {ε α : Type} {r : Except ε α} (h : r.toOption.isSome = true) :
    ∃ a, r = .ok a := by
  cases r with
  | error e => cases h
  | ok a => exact ⟨a, rfl⟩

/-- The bytes of a document are added to the arena if it keeps them; then the text that is given is
loaded, or there is none, and this is reported with the path. -/
def Loads (t : Tree) (r : Request) (node : Quantity) : Prop :=
  ∃ arena : Arena, arena.bytes = t.arena.bytes ++ r.origin.stored ∧
    t.arena.capacity ≤ arena.capacity ∧
    ((∀ text, r.origin ≠ .kept text) → arena = t.arena) ∧
    (∀ text, r.origin.given = .ok text → r.run node t =
      load r.format text (r.origin.label r.name) node r.limit { t with arena }) ∧
    ∀ message, r.origin.given = .error message → ∃ path, r.origin.label r.name = some path ∧
      r.run node t = (.error (.unreadable r.format.text message path), t)

/-- What comes of loading a document; without a buffer there may be no room for a text that the
arena keeps. -/
theorem run_begun (r : Request) (node : Quantity) (t : Tree) :
    ((∃ text, r.origin = .kept text) ∧ t.arena.capacity = 0 ∧
      ∃ t', r.run node t = (.error (.arena .stuck), t')) ∨ t.Loads r node := by
  obtain ⟨format, origin, name, limit⟩ := r
  cases origin with
  | text text =>
    refine .inr ⟨t.arena, (List.append_nil _).symm, Nat.le_refl _, fun _ => rfl, ?_, ?_⟩
    · rintro _ ⟨⟩
      rfl
    · rintro _ ⟨⟩
  | kept text =>
    rcases copy_cases text t with ⟨empty, stuck⟩ | ⟨arena, span, copied, bytes, more, spells⟩
    · refine .inl ⟨⟨text, rfl⟩, empty, t, ?_⟩
      rw [Request.run_def]
      exact Edit.bind_error stuck
    refine .inr ⟨arena, bytes, more, fun other => absurd rfl (other text), ?_, ?_⟩
    · rintro _ ⟨⟩
      obtain ⟨_, known, reads⟩ := spells.kept
      cases known
      have asked : Edit.ask (·.text span) { t with arena } = (.ok text.kept, { t with arena }) :=
        Edit.ask_ok (text_ok.2 reads)
      rw [Request.run_def]
      dsimp only
      rw [Edit.bind_ok copied, Edit.bind_ok asked]
      rfl
    · rintro _ ⟨⟩
  | file folder path =>
    refine .inr ⟨t.arena, (List.append_nil _).symm, Nat.le_refl _, fun _ => rfl, ?_, ?_⟩
    · intro text read
      simp only [Origin.given] at read
      simp only [Request.run_def, read]
      rfl
    · intro message unread
      simp only [Origin.given] at unread
      refine ⟨path, rfl, ?_⟩
      simp only [Request.run_def, unread]
      rfl

/-- With a buffer, the text that is given is loaded, or there is none. -/
theorem run_given (r : Request) (node : Quantity)
    (buffer : (∃ text, r.origin = .kept text) → 0 < t.arena.capacity) : t.Loads r node := by
  rcases run_begun r node t with ⟨kept, empty, _⟩ | begun
  · have := buffer kept
    omega
  · exact begun

theorem run_text (format : Format) (text : Text) (name : Option Text) (node limit : Quantity) :
    Request.run ⟨format, .text text, name, limit⟩ node = load format text name node limit := rfl

theorem load_eq {v : Value} {source : Source} (parsed : format.parse text = .ok v)
    (presented : format.presenter.present v = .ok source) (name : Option Text)
    (node limit : Quantity) : load format text name node limit = store source node limit := by
  rw [load_def, parsed]
  dsimp only
  rw [presented]

theorem load_error {c : Complaint} (parsed : format.parse text = .error c) (name : Option Text)
    (node limit : Quantity) (t : Tree) : load format text name node limit t = (.error (.malformed
      format.text (format.explain c) (location name (format.place? c text))), t) := by
  rw [load_def, parsed]
  rfl

/-- **A malformed document touches no node.** It is loaded into any node of any tree, whatever was
done to the tree since it was made; only a tree that was made for a NaN of bytes cannot keep a text.
If the parser fails on the text that is given, one report says so with the name of the document, and
it is raised, or what the handler raises. All nodes are as before. If the arena keeps the document,
its bytes lie behind those that were there, and otherwise the whole tree is as before. If there is
no text to be read, one report says why, and the tree is as before. -/
theorem run_malformed {capacity : Binary64} {start t : Tree}
    (created : create capacity = .ok start) {history : List Operation}
    (reached : t = start.after history) (handler : Handler) (r : Request) (node : Quantity)
    (number : (∃ text, r.origin = .kept text) → capacity ≠ .nan) {outcome : Outcome Unit}
    (performed : outcome = (r.run node).perform (some handler) t) :
    (∀ text c, r.origin.given = .ok text → r.format.parse text = .error c →
      outcome.tree.nodes = t.nodes ∧
      outcome.tree.arena.bytes = t.arena.bytes ++ r.origin.stored ∧
      ((∀ text, r.origin ≠ .kept text) → outcome.tree = t) ∧
      ∃ report place, outcome.reports = [report] ∧
        outcome.result = .error (report.deliver handler) ∧
        report.message =
          lit "Invalid " ++ r.format.text ++ lit " document: " ++ r.format.explain c ∧
        report.location = some place ∧
        place.source = (r.origin.label r.name).elim .missing .known) ∧
    ∀ message, r.origin.given = .error message →
      outcome.tree = t ∧
      ∃ report place, outcome.reports = [report] ∧
        outcome.result = .error (report.deliver handler) ∧
        report.message = lit "Cannot read " ++ r.format.text ++ lit " file: " ++ message ∧
        report.location = some place ∧
        place.source = (r.origin.label r.name).elim .missing .known := by
  have buffer (kept : ∃ text, r.origin = .kept text) : 0 < t.arena.capacity := by
    rw [reached]
    exact after_buffer (number kept) created history
  obtain ⟨arena, bytes, _, same, runs, fails⟩ := run_given r node buffer
  constructor
  · intro text c given parsed
    have failed := runs text given
    rw [load_error parsed] at failed
    rw [Edit.perform_reported failed rfl] at performed
    subst performed
    refine ⟨rfl, bytes, ?_, _, _, rfl, rfl, rfl, rfl, rfl⟩
    intro other
    rw [same other]
  · intro message unread
    obtain ⟨path, labelled, failed⟩ := fails message unread
    rw [Edit.perform_reported failed rfl] at performed
    subst performed
    refine ⟨rfl, _, _, rfl, rfl, rfl, rfl, ?_⟩
    rw [labelled]
    rfl

/-- An array that is not closed, kept in an arena of one byte, under a handler that returns. -/
theorem run_malformed_unclosed : ∃ outcome : Outcome Unit,
    outcome = ((Request.run ⟨.json, .kept (lit "["), some (lit "a"), defaultLimit⟩
      (.natural 7)).perform (some fun _ => none) (ofArena (.empty 1))) ∧
    outcome.tree.nodes = (ofArena (.empty 1)).nodes ∧ outcome.tree.arena.bytes = [91] ∧
    ∃ report, outcome.reports = [report] ∧
      outcome.result = .error (.report report.afterReturn) := by
  have reached : ofArena (.empty 1) = (ofArena (.empty 1)).after [] := rfl
  obtain ⟨c, parsed⟩ : ∃ c, Format.json.parse (lit "[") = .error c :=
    exists_error (by decide +kernel)
  have given : (Origin.kept (lit "[")).given = .ok (lit "[") := rfl
  obtain ⟨malformed, _⟩ := run_malformed create_infinite reached (fun _ => none)
    ⟨.json, .kept (lit "["), some (lit "a"), defaultLimit⟩ (.natural 7) (fun _ => by decide) rfl
  obtain ⟨nodes, bytes, _, report, _, reports, result, _⟩ := malformed (lit "[") c given parsed
  exact ⟨_, rfl, nodes, bytes, report, reports, result⟩

/-- Two malformed texts without a report. A text of TOML declares a table again, but two of its keys
differ by a lone surrogate alone, so that they are one key in what the arena gives back, and this is
loaded. And in a tree that was made for a NaN of bytes, there is no room for a text. -/
theorem run_kept_without_pair_or_buffer :
    (∃ (text : Text) (c : Complaint) (outcome : Outcome Unit),
      Format.toml.parse text = .error c ∧
      outcome = (Request.run ⟨.toml, .kept text, none, defaultLimit⟩ (.natural 0)).perform
        (some Report.raise) new ∧
      outcome.result = .ok () ∧ outcome.reports = []) ∧
    ∃ t c, create .nan = .ok t ∧ Format.json.parse (lit "[") = .error c ∧
      ((Request.run ⟨.json, .kept (lit "["), none, defaultLimit⟩ (.natural 0)).perform
        (some Report.raise) t).reports = [] := by
  constructor
  · obtain ⟨text, spelled⟩ : ∃ text : Text, text = lit "[[\"" ++ [0xD800] ++ lit "\"]]\n[\"" ++
      [0xD800] ++ lit "\".x]\n[[\"" ++ [0xFFFD] ++ lit "\"]]\n[\"" ++ [0xD800] ++ lit "\".x]" :=
      ⟨_, rfl⟩
    obtain ⟨c, parsed⟩ : ∃ c, Format.toml.parse text = .error c := by
      rw [spelled]
      exact exists_error (by decide +kernel)
    obtain ⟨_, done⟩ : ∃ u, ((Request.run ⟨.toml, .kept text, none, defaultLimit⟩ (.natural 0))
        new).1 = .ok u := by
      rw [spelled]
      exact exists_ok (by decide +kernel)
    have loaded : (Request.run ⟨.toml, .kept text, none, defaultLimit⟩ (.natural 0)) new =
        (.ok (), _) := Prod.ext done rfl
    exact ⟨text, c, _, parsed, rfl, by rw [Edit.perform_ok loaded],
      by rw [Edit.perform_ok loaded]⟩
  · obtain ⟨c, parsed⟩ : ∃ c, Format.json.parse (lit "[") = .error c :=
      exists_error (by decide +kernel)
    exact ⟨ofArena (.empty 0), c, rfl, parsed, by decide +kernel⟩

end Tree

end SpanTree
