import SpanTree.Proofs.Handlers
import SpanTree.Proofs.Loading
import SpanTree.Proofs.Placing
import SpanTree.Proofs.Presenting

/-!
# One report for each failure

A document is loaded without a report, or one report says why it is not.

* `Value.Dated`, `Format.placeable`: a format has a place for all that its reader builds, if the
  dates have texts;
* `writeAll_waiting`, `store_failure`: a plain value is refused by its node or for its depth;
* `Tree.Hindrance`: what may keep a document from being loaded, and how it is reported;
* `LoadSettings.load_reported`: what a caller and a handler see of a document.
-/

namespace SpanTree

/-! ## Presented documents -/

/-- Every date has a text. -/
inductive Value.Dated : Value → Prop
  | null : Dated .null
  | boolean (b : Bool) : Dated (.boolean b)
  | number (x : Binary64) : Dated (.number x)
  | integer (n : Int) : Dated (.integer n)
  | string (t : Text) : Dated (.string t)
  | date {d : DateValue} {t : Text} (h : d.text? = some t) : Dated (.date d)
  | array {items : List Value} (h : ∀ item ∈ items, Dated item) : Dated (.array items)
  | object {bare : Bool} {members : List (Text × Value)} (h : ∀ m ∈ members, Dated m.2) :
      Dated (.object bare members)
  | foreign (f : Foreign) : Dated (.foreign f)

theorem Value.Simple.dated {v : Value} (h : v.Simple) : v.Dated := by
  induction h with
  | null => exact .null
  | boolean b => exact .boolean b
  | number x => exact .number x
  | string t => exact .string t
  | array _ ih => exact .array ih
  | object _ _ ih => exact .object ih

theorem Value.Declared.placeable {v : Value} (h : v.Declared) (dated : v.Dated) :
    v.Placeable .toml := by
  induction h with
  | boolean b => exact .boolean b
  | number x => exact .number x
  | integer n => exact .integer n
  | string t => exact .string t
  | @date d _ =>
    cases dated with
    | @date _ t text =>
      have known : d.textOrError = .ok t := by rw [DateValue.textOrError, text]
      apply Value.Placeable.date
      change d.textOrError.map _ = _
      rw [known]
      rfl
  | array _ ih =>
    cases dated with
    | array dates => exact .array fun item hi => ih item hi (dates item hi)
  | object _ _ ih =>
    cases dated with
    | object dates => exact .object fun m hm => ih m hm (dates m hm)

/-- A format has a place for every value that its reader builds, if the dates have texts. -/
theorem Format.placeable {f : Format} (documented : ∀ reader, f = .toml reader → reader.Documented)
    {text : Text} {v : Value} (parsed : f.parse text = .ok v) (dated : v.Dated) :
    v.Placeable f.presenter := by
  cases f with
  | toml reader => exact ((documented reader rfl).declared parsed).placeable dated
  | json => exact (json_simple parsed).placeable

/-! ## Reports -/

namespace Report

variable {handler : Handler} {r : Report}

theorem deliver_own {own : Raised} (h : handler r = some own) : r.deliver handler = own := by
  rw [deliver, h]
  rfl

theorem deliver_returned (h : handler r = none) : r.deliver handler = .report r.afterReturn := by
  rw [deliver, h]
  rfl

end Report

/-! ## Plain values -/

namespace Tree

variable {t : Tree} {limit node : Quantity} {f : Failure}

/-- Values for nodes that were added for them are refused for their depth only. -/
theorem writeAll_waiting {stack : List Pending} {ids : List Nat} {t' : Tree}
    (waits : Awaits t stack ids) (plain : ∀ item ∈ stack, item.value.Plain)
    (failed : writeAll limit stack t = (.error f, t')) :
    (t.arena.capacity = 0 ∧ f = .arena .stuck) ∨
      ∃ item ∈ stack, limit.exceededBy (item.depth + item.value.height) = true ∧
        ∃ place, f = .tooDeep limit place := by
  induction stack using Pending.stack_induction generalizing t ids with
  | nil =>
    rw [writeAll_nil] at failed
    cases failed
  | cons item rest ih =>
    obtain ⟨id, ids, rfl, hnode, n, found, free⟩ := waits.topmost
    have sound := plain item List.mem_cons_self
    have begun := writeAll_begun limit item rest t
    rw [failed] at begun
    generalize hp : ((.error f, t') : Except Failure Unit × Tree) = p at begun
    cases begun with
    | deep deep =>
      cases hp
      refine .inr ⟨item, List.mem_cons_self, ?_, _, rfl⟩
      exact Quantity.exceededBy_of_le (Nat.le_add_right _ _) deep
    | stuck empty =>
      cases hp
      exact .inl ⟨empty, rfl⟩
    | refused _ cause =>
      rw [hnode] at cause
      have fault := cause.fault_of_free found free
      rw [sound.fault] at fault
      cases fault
    | broken _ _ _ _ fault =>
      rw [sound.fault] at fault
      cases fault
    | @opened _ _ first _ _ same found' opens =>
      rw [hnode] at same
      cases same
      have plainRest : ∀ other ∈ item.children first ++ rest, other.value.Plain := by
        intro other hother
        rcases List.mem_append.1 hother with hother | hother
        · obtain ⟨i, part, hpart, rfl⟩ := mem_consecutive.1 hother
          exact sound.part (List.mem_of_getElem? hpart)
        · exact plain other (List.mem_cons_of_mem _ hother)
      rcases ih first (opens.awaits waits) plainRest hp.symm with
        ⟨empty, rfl⟩ | ⟨other, inside, deep, why⟩
      · exact .inl ⟨Nat.le_zero.1 (empty ▸ opens.capacity), rfl⟩
      · right
        rcases List.mem_append.1 inside with inside | inside
        · obtain ⟨i, part, hpart, rfl⟩ := mem_consecutive.1 inside
          have lower := Source.height_part (List.mem_of_getElem? hpart)
          refine ⟨item, List.mem_cons_self, Quantity.exceededBy_of_le ?_ deep, why⟩
          dsimp only
          omega
        · exact ⟨other, List.mem_cons_of_mem _ inside, deep, why⟩

/-- A plain value is not stored for its depth, or it is refused by the node that it was to go to. -/
theorem store_failure {value : Source} (plain : value.Plain) {t' : Tree}
    (failed : store value node limit t = (.error f, t')) :
    (t.arena.capacity = 0 ∧ f = .arena .stuck) ∨
      (limit.exceededBy value.height = true ∧ ∃ place, f = .tooDeep limit place) ∨
      Refusal t node value f := by
  rw [store_def] at failed
  have begun := writeAll_begun limit ⟨value, node, 0⟩ [] t
  rw [failed] at begun
  generalize hp : ((.error f, t') : Except Failure Unit × Tree) = p at begun
  cases begun with
  | deep deep =>
    cases hp
    exact .inr (.inl ⟨Quantity.exceededBy_of_le (Nat.zero_le _) deep, _, rfl⟩)
  | stuck empty =>
    cases hp
    exact .inl ⟨empty, rfl⟩
  | refused _ cause =>
    cases hp
    exact .inr (.inr cause)
  | broken _ _ _ _ fault =>
    rw [plain.fault] at fault
    cases fault
  | @opened _ _ first _ _ same found opens =>
    -- The parts go to nodes that were added for them, whatever node the value itself went to.
    have none : Awaits t [] [] := ⟨rfl, .nil, fun _ mem => absurd mem List.not_mem_nil⟩
    have waits := opens.awaits_parts none List.not_mem_nil
    have parts : ∀ other ∈ Pending.children ⟨value, node, 0⟩ first ++ [], other.value.Plain ∧
        other.depth + other.value.height ≤ value.height := by
      rw [List.append_nil]
      exact children_within plain node first
    rcases writeAll_waiting waits (fun other inside => (parts other inside).1) hp.symm with
      ⟨empty, rfl⟩ | ⟨other, inside, deep, why⟩
    · exact .inl ⟨Nat.le_zero.1 (empty ▸ opens.capacity), rfl⟩
    · exact .inr (.inl ⟨Quantity.exceededBy_of_le (parts other inside).2 deep, why⟩)

/-- What may keep a document from being loaded, and how it is reported: there is no text, or it is
malformed, or its value reaches too deep, or the node declines the value. -/
inductive Hindrance (r : Request) (node : Quantity) (t : Tree) : Failure → Report → Prop
  | unreadable {message path : Text} (given : r.origin.given = .error message)
      (label : r.origin.label r.name = some path) :
      Hindrance r node t (.unreadable r.format.text message path)
        ⟨lit "Cannot read " ++ r.format.text ++ lit " file: " ++ message,
          some { source := .known path }⟩
  | malformed {text : Text} {c : Complaint} (given : r.origin.given = .ok text)
      (parsed : r.format.parse text = .error c) :
      Hindrance r node t (.malformed r.format.text (r.format.explain c)
          (location (r.origin.label r.name) (r.format.place? c text)))
        ⟨lit "Invalid " ++ r.format.text ++ lit " document: " ++ r.format.explain c,
          some (location (r.origin.label r.name) (r.format.place? c text))⟩
  | tooDeep {text : Text} {v : Value} (given : r.origin.given = .ok text)
      (parsed : r.format.parse text = .ok v) (deep : r.limit.exceededBy v.height = true)
      (place : Quantity) : Hindrance r node t (.tooDeep r.limit place)
        ⟨lit "Document nesting exceeds the maximum depth of " ++ r.limit.text ++
          lit " at node " ++ place.text ++ lit ".", none⟩
  | declined {text : Text} {v : Value} {source : Source} {f : Failure} {report : Report}
      (given : r.origin.given = .ok text) (parsed : r.format.parse text = .ok v)
      (presented : r.format.presenter.present v = .ok source)
      (declines : Declines t node source f report) : Hindrance r node t f report

theorem Hindrance.reported {r : Request} {report : Report} (h : Hindrance r node t f report) :
    f.report? = some report := by
  cases h with
  | unreadable | malformed | tooDeep => rfl
  | declined _ _ _ declines => exact declines.reported

/-- What keeps a document from being loaded, if anything does. Without a buffer, there may be no
room for a text. -/
theorem run_failure {r : Request}
    (documented : ∀ reader, r.format = .toml reader → reader.Documented)
    (dated : ∀ text v, r.origin.given = .ok text → r.format.parse text = .ok v → v.Dated)
    {t' : Tree} (failed : r.run node t = (.error f, t')) :
    (t.arena.capacity = 0 ∧ f = .arena .stuck) ∨ ∃ report, Hindrance r node t f report := by
  rcases run_begun r node t with ⟨_, empty, _, stuck⟩ | ⟨arena, _, more, _, loads, unread⟩
  · rw [failed] at stuck
    cases stuck
    exact .inl ⟨empty, rfl⟩
  cases given : r.origin.given with
  | error message =>
    obtain ⟨path, label, fails⟩ := unread message given
    rw [failed] at fails
    cases fails
    exact .inr ⟨_, .unreadable given label⟩
  | ok text =>
    have loaded := loads text given
    rw [failed] at loaded
    cases parsed : r.format.parse text with
    | error c =>
      rw [load_error parsed] at loaded
      cases loaded
      exact .inr ⟨_, .malformed given parsed⟩
    | ok v =>
      obtain ⟨src, presented, plain⟩ :=
        Presenter.present_plain (Format.placeable documented parsed (dated text v given parsed))
      have height := (Presenter.presents_size (Presenter.presents_of_present plain presented)).1
      rw [load_eq parsed presented] at loaded
      rcases store_failure plain loaded.symm with ⟨empty, rfl⟩ | ⟨deep, place, rfl⟩ | refusal
      · exact .inl ⟨Nat.le_zero.1 (empty ▸ more), rfl⟩
      · rw [height] at deep
        exact .inr ⟨_, .tooDeep given parsed deep place⟩
      · cases refusal with
        | declined declines => exact .inr ⟨_, .declined given parsed presented declines.of_arena⟩
        | fault fault =>
          rw [plain.fault] at fault
          cases fault

end Tree

/-! ## Documents under settings -/

/-- The tree of a target was made for a number of bytes, and operations were done to it. -/
inductive Target.Made : Target → Prop
  | own : Made .own
  | tree {capacity : Binary64} {start : Tree} (number : capacity ≠ .nan)
      (created : Tree.create capacity = .ok start) (history : List Operation) (handler : Handler) :
      Made (.tree (start.after history) handler)
  | node {capacity : Binary64} {start : Tree} (number : capacity ≠ .nan)
      (created : Tree.create capacity = .ok start) (history : List Operation) (handler : Handler)
      (id : Quantity) : Made (.node (start.after history) handler id)

theorem Target.Made.buffer {target : Target} (h : target.Made) :
    0 < target.receiver.arena.capacity := by
  cases h with
  | own => decide
  | tree number created history => exact Tree.after_buffer number created history
  | node number created history => exact Tree.after_buffer number created history

namespace LoadSettings

variable (settings : LoadSettings) (format : Format) (origin : Origin)

/-- **A document is loaded without a report, or one report says why it is not.** It is a text or a
file in either format, and goes to any node of a tree of its own or of a tree that was made for a
number of bytes, whatever was done to it since. A reader of TOML builds what it is known to, and all
dates have texts. Then the call ends. Either it is answered, and no report was sent; or something
keeps the document from being loaded, the handler of the tree was sent the one report of that, and
the call raises what the handler raised. If the handler returned, the call raises a report in which
the message of the first one is embedded, at the same location. -/
theorem load_reported (documented : ∀ reader, format = .toml reader → reader.Documented)
    (dated : ∀ text v, origin.given = .ok text → format.parse text = .ok v → v.Dated)
    {target : Target} (made : target.Made) {outcome : Outcome Unit}
    (loaded : outcome = settings.load format origin target) :
    outcome.ends = true ∧
    ((outcome.result = .ok () ∧ outcome.reports = []) ∨
      ∃ cause report, Tree.Hindrance (settings.request format origin) (target.place settings)
          target.receiver cause report ∧
        outcome.reports = [report] ∧
        (∀ own, target.handler settings report = some own → outcome.result = .error own) ∧
        (target.handler settings report = none → outcome.result = .error (.report
          ⟨lit "error handler returned normally after: " ++ report.message,
            report.location⟩))) := by
  rw [load, Attended.outcome_request] at loaded
  cases ran : (settings.request format origin).run (target.place settings) target.receiver with
  | mk result t' =>
  cases result with
  | ok done =>
    rw [Edit.perform_ok ran] at loaded
    subst loaded
    exact ⟨rfl, .inl ⟨rfl, rfl⟩⟩
  | error f =>
    rcases Tree.run_failure documented dated ran with ⟨empty, _⟩ | ⟨report, hindrance⟩
    · have buffer := made.buffer
      omega
    · rw [Edit.perform_reported ran hindrance.reported] at loaded
      subst loaded
      refine ⟨rfl, .inr ⟨f, report, hindrance, rfl, ?_, ?_⟩⟩
      · intro own answered
        rw [Report.deliver_own answered]
      · intro returned
        rw [Report.deliver_returned returned]
        rfl

/-- An array in an array where no level is allowed below the topmost one, kept in an arena of one
byte, under a handler that returns. -/
theorem load_reported_deep : ∃ outcome : Outcome Unit,
    outcome = load { depth := .given (.ofNat 0) } .json (.kept (lit "[[]]"))
      (.tree (Tree.ofArena (.empty 1)) fun _ => none) ∧
    outcome.ends = true ∧ ∃ report, outcome.reports = [report] ∧
      outcome.result = .error (.report
        ⟨lit "error handler returned normally after: " ++ report.message, report.location⟩) := by
  obtain ⟨ends, loaded | failed⟩ := load_reported { depth := .given (.ofNat 0) } .json
    (.kept (lit "[[]]")) nofun (fun _ _ _ parsed => (Format.json_simple parsed).dated)
    (.tree (by decide) Tree.create_infinite [] fun _ => none) rfl
  · obtain ⟨f, failed⟩ : ∃ f, (load { depth := .given (.ofNat 0) } .json (.kept (lit "[[]]"))
        (.tree (Tree.ofArena (.empty 1)) fun _ => none)).result = .error f :=
      Tree.exists_error (by decide +kernel)
    rw [show (Tree.ofArena (.empty 1)).after [] = Tree.ofArena (.empty 1) from rfl,
      failed] at loaded
    cases loaded.1
  · obtain ⟨_, report, _, reports, _, returned⟩ := failed
    exact ⟨_, rfl, ends, report, reports, returned rfl⟩

/-- The handler of the settings is not asked about a tree that is there: the handler of this raises
a report as it is, and nothing is sent to the one of the settings, which would raise an error of its
own. And a tree that was made for a NaN of bytes has no room for a text, so the call never ends. -/
theorem load_unasked :
    (∃ (settings : LoadSettings) (handler : Handler) (report : Report),
      settings.handler = .given handler ∧ handler report = some (.range report.message) ∧
      (settings.load .json (.text (lit "[")) (.tree .new Report.raise)).result =
        .error (.report report)) ∧
    ∃ t, Tree.create .nan = .ok t ∧
      (load {} .json (.kept (lit "[]")) (.tree t Report.raise)).ends = false := by
  constructor
  · exact ⟨{ handler := .given fun r => some (.range r.message) }, _,
      ⟨lit "Invalid JSON document: Unexpected end of JSON input", some {}⟩, rfl, rfl,
      by decide +kernel⟩
  · exact ⟨_, rfl, by decide +kernel⟩

end LoadSettings

end SpanTree
