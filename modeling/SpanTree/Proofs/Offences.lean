import SpanTree.Proofs.Confinement
import SpanTree.Proofs.Handlers

/-!
# The first offence decides

A value may have many parts that have no place in a tree, or that lie too deep. Storing it fails for
the one that comes first in the document.

* `Source.at?`: the part of a value that a path leads to;
* `Source.offence?`: why a part is refused, its depth before all else;
* `Source.FirstOffence`: the first part that is refused. A path comes before its continuations, and
  paths that part are ordered by the positions where they do;
* `Source.Reported`, `Source.Unreported`: what is said of a part that is refused for a node, and
  which error is raised where nothing is said;
* `writeAll_decided`: a stack is written to its end, or it fails for the first offence on it;
* `store_first_offence`: so a value is stored, or it is refused for the first offence in it.
-/

namespace SpanTree

namespace Source

/-- The part of a value that a path leads to: each step is a position among parts. -/
def at? (value : Source) : List Nat → Option Source
  | [] => some value
  | i :: rest => value.parts[i]?.bind (·.at? rest)

/-- Why a value is refused that lies at a depth and goes to a node. -/
def offence? (limit : Quantity) (depth : Nat) (node : Quantity) (value : Source) : Option Failure :=
  if limit.exceededBy depth then some (.tooDeep limit node) else value.fault? node

/-- Neither a value at a depth nor any part of it is refused. -/
def Inoffensive (limit : Quantity) (depth : Nat) (value : Source) : Prop :=
  ∀ path part, value.at? path = some part →
    ∀ node, part.offence? limit (depth + path.length) node = none

/-- A path leads to a part of a value at a depth, and nothing before that part is refused. -/
structure FirstOffence (limit : Quantity) (depth : Nat) (value : Source) (path : List Nat)
    (part : Source) : Prop where
  leads : value.at? path = some part
  least : ∀ path' part', path' < path → value.at? path' = some part' →
    ∀ node, part'.offence? limit (depth + path'.length) node = none

variable {limit : Quantity} {depth i : Nat} {value part p : Source} {path : List Nat}

theorem at?_cons (hp : value.parts[i]? = some p) : value.at? (i :: path) = p.at? path := by
  rw [at?, hp]
  rfl

theorem at?_cons_inv (h : value.at? (i :: path) = some part) :
    ∃ p, value.parts[i]? = some p ∧ p.at? path = some part := by
  rwa [at?, Option.bind_eq_some_iff] at h

/-- The first part of a value is the value itself. -/
theorem FirstOffence.self (limit : Quantity) (depth : Nat) (value : Source) :
    value.FirstOffence limit depth [] value where
  leads := rfl
  least path' _ h := absurd h (List.not_lt_nil path')

theorem inoffensive_of_parts (here : ∀ node, value.offence? limit depth node = none)
    (parts : ∀ p ∈ value.parts, p.Inoffensive limit (depth + 1)) :
    value.Inoffensive limit depth := by
  intro path part leads node
  cases path with
  | nil =>
    cases leads
    exact here node
  | cons i rest =>
    obtain ⟨p, hp, leads⟩ := at?_cons_inv leads
    have := parts p (List.mem_of_getElem? hp) rest part leads node
    rwa [Nat.add_right_comm, Nat.add_assoc] at this

/-- An offence in a part comes first if none is in the value itself and in the parts before. -/
theorem FirstOffence.child (here : ∀ node, value.offence? limit depth node = none)
    (hp : value.parts[i]? = some p)
    (before : ∀ j q, j < i → value.parts[j]? = some q → q.Inoffensive limit (depth + 1))
    (first : p.FirstOffence limit (depth + 1) path part) :
    value.FirstOffence limit depth (i :: path) part where
  leads := by rw [at?_cons hp, first.leads]
  least path' part' less leads node := by
    cases path' with
    | nil =>
      cases leads
      exact here node
    | cons j rest =>
      obtain ⟨q, hq, leads⟩ := at?_cons_inv leads
      have none : part'.offence? limit (depth + 1 + rest.length) node = none := by
        rcases List.cons_lt_cons_iff.1 less with lower | ⟨rfl, behind⟩
        · exact before j q lower hq rest part' leads node
        · rw [hp] at hq
          cases hq
          exact first.least rest part' behind leads node
      rwa [Nat.add_right_comm, Nat.add_assoc] at none

/-! ## Reports -/

/-- What is reported of a part that lies at a depth and goes to a node. Its depth comes before what
it is. -/
inductive Reported (limit : Quantity) (depth node : Nat) : Source → Report → Prop
  | tooDeep {part : Source} (deep : limit.exceededBy depth = true) : Reported limit depth node part
      ⟨lit "Document nesting exceeds the maximum depth of " ++ limit.text ++ lit " at node " ++
        .ofNat node ++ lit ".", none⟩
  | unsupported {description : Text} (shallow : limit.exceededBy depth = false) :
      Reported limit depth node (.unsupported description)
        ⟨lit "Cannot materialize unsupported source value (" ++ description ++
          lit ") into node " ++ .ofNat node ++ lit ".", none⟩
  | unknown {kind : Text} (shallow : limit.exceededBy depth = false) :
      Reported limit depth node (.unknown kind)
        ⟨lit "Cannot materialize source value of unknown kind \"" ++ kind ++
          lit "\" into node " ++ .ofNat node ++ lit ".", none⟩

/-- The error that is raised without a report for a part that does not lie too deep: the one that a
listing broke off with, or an error of type where there is nothing in place of a value. -/
inductive Unreported (limit : Quantity) (depth : Nat) : Source → Raised → Prop
  | table {members : List (Text × Source)} {error : Raised}
      (shallow : limit.exceededBy depth = false) :
      Unreported limit depth (.table members (.broken error)) error
  | array {items : List Source} {error : Raised} (shallow : limit.exceededBy depth = false) :
      Unreported limit depth (.array items (.broken error)) error
  | absent (shallow : limit.exceededBy depth = false) : Unreported limit depth .absent .type

/-- A part is refused with a report, or with an error that is not reported. -/
theorem offence_cases {node : Nat} {f : Failure}
    (why : part.offence? limit depth (.natural node) = some f) :
    (∃ report, Reported limit depth node part report ∧ f.report? = some report) ∨
      (f.report? = none ∧ f.ends = true ∧ Unreported limit depth part f.bare) := by
  rw [offence?] at why
  split at why
  · next deep =>
    cases why
    exact .inl ⟨_, .tooDeep deep, rfl⟩
  · next shallow =>
    have shallow := Bool.eq_false_iff.2 shallow
    cases part with
    | scalar => cases why
    | table members ending =>
      cases ending with
      | complete => cases why
      | broken error =>
        cases why
        exact .inr ⟨rfl, rfl, .table shallow⟩
    | array items ending =>
      cases ending with
      | complete => cases why
      | broken error =>
        cases why
        exact .inr ⟨rfl, rfl, .array shallow⟩
    | unsupported description =>
      cases why
      exact .inl ⟨_, .unsupported shallow, rfl⟩
    | unknown kind =>
      cases why
      exact .inl ⟨_, .unknown shallow, rfl⟩
    | absent =>
      cases why
      exact .inr ⟨rfl, rfl, .absent shallow⟩

end Source

namespace Tree

/-- A failure is the one of the first offence on a stack, and names the node that the path to it
leads to. -/
inductive Decided (limit : Quantity) (t' : Tree) (f : Failure) : List Pending → Prop
  | here {item : Pending} {rest : List Pending} {path : List Nat} {part : Source} {node : Nat}
      (first : item.value.FirstOffence limit item.depth path part)
      (leads : t'.follow item.node (positions path) = .ok (.natural node))
      (why : part.offence? limit (item.depth + path.length) (.natural node) = some f) :
      Decided limit t' f (item :: rest)
  | later {item : Pending} {rest : List Pending}
      (sound : item.value.Inoffensive limit item.depth) (h : Decided limit t' f rest) :
      Decided limit t' f (item :: rest)

variable {limit : Quantity} {t t' : Tree} {f : Failure} {rest : List Pending}

/-- The first offence is in one of the values for new nodes, or behind all of them. -/
theorem Decided.consecutive {depth first : Nat} {values : List Source}
    (h : Decided limit t' f (Pending.consecutive depth values first ++ rest)) :
    (∃ i value path part node, values[i]? = some value ∧
      (∀ j other, j < i → values[j]? = some other → other.Inoffensive limit depth) ∧
      value.FirstOffence limit depth path part ∧
      t'.follow (.natural (first + i)) (positions path) = .ok (.natural node) ∧
      part.offence? limit (depth + path.length) (.natural node) = some f) ∨
    ((∀ value ∈ values, value.Inoffensive limit depth) ∧ Decided limit t' f rest) := by
  induction values generalizing first with
  | nil =>
    refine .inr ⟨?_, h⟩
    intro value hv
    cases hv
  | cons value values ih =>
    cases h with
    | here first leads why =>
      exact .inl ⟨0, value, _, _, _, rfl, fun j _ hj => absurd hj (Nat.not_lt_zero j), first,
        leads, why⟩
    | later sound h =>
      rcases ih h with ⟨i, other, path, part, node, hi, before, least, leads, why⟩ | ⟨all, h⟩
      · rw [Nat.add_right_comm, Nat.add_assoc] at leads
        refine .inl ⟨i + 1, other, path, part, node, hi, ?_, least, leads, why⟩
        intro j another hj hother
        cases j with
        | zero =>
          cases hother
          exact sound
        | succ j => exact before j another (Nat.lt_of_succ_lt_succ hj) hother
      · refine .inr ⟨?_, h⟩
        intro other hother
        rcases List.mem_cons.1 hother with rfl | hother
        · exact sound
        · exact all other hother

/-- If the first offence behind a value was met, it was the first with the value, which was opened
and is sound by itself. -/
theorem Opens.decided {t₁ : Tree} {id first : Nat} {n : Node} {item : Pending}
    (ho : Opens t id n item.value first t₁) (same : item.node = .natural id)
    (free : n.children = #[]) (here : ∀ node, item.value.offence? limit item.depth node = none)
    {targets : Nat → Prop} (confined : Confined targets t₁ t')
    (h : Decided limit t' f (item.children first ++ rest)) :
    Decided limit t' f (item :: rest) := by
  rcases h.consecutive with ⟨i, value, path, part, node, hi, before, least, leads, why⟩ | ⟨all, h⟩
  · have nonempty : item.value.parts ≠ [] := by
      intro none
      rw [none] at hi
      cases hi
    rw [ho.first nonempty] at leads
    obtain ⟨n₁, hn₁, _, _, _, children, _⟩ := ho.here
    rw [free, Array.empty_append] at children
    have child : n₁.children[i]? = some (t.size + i) := by
      rw [children, List.getElem?_toArray]
      have := (List.getElem?_eq_some_iff.1 hi).1
      simp [this]
    obtain ⟨n', hn', grows⟩ := confined.grown id n₁ hn₁
    have whole : t'.follow item.node (positions (i :: path)) = .ok (.natural node) := by
      rw [same]
      exact follow_cons.2 ⟨n', _, hn', grows.child child, leads⟩
    refine .here (least.child here hi before) whole ?_
    rwa [List.length_cons, ← Nat.add_assoc, Nat.add_right_comm]
  · exact .later (Source.inoffensive_of_parts here all) h

/-- A stack that waits for empty nodes is written to its end, or it fails for the first offence. -/
theorem writeAll_decided {stack : List Pending} {ids : List Nat} {r : Except Failure Unit}
    (wf : t.WellFormed) (waits : Awaits t stack ids) (buffer : 0 < t.arena.capacity)
    (ran : writeAll limit stack t = (r, t')) :
    (r = .ok () ∧ ∀ item ∈ stack, item.value.Inoffensive limit item.depth) ∨
      ∃ f, r = .error f ∧ Decided limit t' f stack := by
  induction stack using Pending.stack_induction generalizing t ids with
  | nil =>
    rw [writeAll_nil] at ran
    cases ran
    refine .inl ⟨rfl, ?_⟩
    intro item hi
    cases hi
  | cons item rest ih =>
    obtain ⟨id, ids, rfl, node, n, found, free⟩ := waits.topmost
    -- What is refused at once is the first on the stack, with the node that it was to go to.
    have atOnce {f : Failure} (why : item.value.offence? limit item.depth item.node = some f) :
        Decided limit t' f (item :: rest) := by
      have leads : t'.follow item.node (positions []) = .ok (.natural id) := by
        rw [node]
        rfl
      rw [node] at why
      exact .here (.self limit item.depth item.value) leads why
    have ends := writeAll_ends limit (item :: rest) buffer
    have begun := writeAll_begun limit item rest t
    rw [ran] at begun ends
    generalize hp : (r, t') = p at begun
    cases begun with
    | deep deep =>
      cases hp
      exact .inr ⟨_, rfl, atOnce (if_pos deep)⟩
    | stuck empty => omega
    | refused shallow cause =>
      cases hp
      refine .inr ⟨_, rfl, atOnce ?_⟩
      rw [Source.offence?, shallow]
      refine cause.fault_of_free ?_ free
      rw [node]
      exact found
    | broken shallow _ _ _ fault =>
      cases hp
      refine .inr ⟨_, rfl, atOnce ?_⟩
      rw [Source.offence?, shallow]
      exact fault
    | @opened id' m first t₁ shallow same found' opens fault wrote =>
      rw [node] at same
      cases same
      rw [found] at found'
      cases found'
      have here : ∀ node, item.value.offence? limit item.depth node = none := by
        intro node
        rw [Source.offence?, shallow]
        exact Source.fault_none fault node
      have confined := writeAll_confined (put_wellFormed wf wrote) hp.symm ends
      have buffer := Nat.lt_of_lt_of_le buffer opens.capacity
      rcases ih first (put_wellFormed wf wrote) (opens.awaits waits) buffer hp.symm with
        ⟨done, sound⟩ | ⟨f, failed, decided⟩
      · refine .inl ⟨done, ?_⟩
        intro other hother
        rcases List.mem_cons.1 hother with rfl | hother
        · refine Source.inoffensive_of_parts here fun p hp => ?_
          obtain ⟨i, hi⟩ := List.getElem?_of_mem hp
          exact sound ⟨p, .natural (first + i), other.depth + 1⟩
            (List.mem_append_left _ (mem_consecutive.2 ⟨i, p, hi, rfl⟩))
        · exact sound other (List.mem_append_right _ hother)
      · exact .inr ⟨f, failed, opens.decided node free here confined decided⟩

/-- **The first offence decides.** In any tree that was made for a number of bytes, whatever was
done to it since, and with any handler, a value is stored in a node without children if and only if
neither it nor any part of it is refused, and then nothing is reported. Otherwise storing it fails
for the part that comes first in the document, a value before its parts, so that a listing that
broke off comes before whatever is wrong with the parts that it had given. If the part lies too
deep, is not supported or is of an unknown kind, there is one report, which names the node that the
path to the part leads to, and what the handler makes of it is raised. The error that a listing
broke off with is raised as it is, without a report, and so is an error of type where there is
nothing in place of a value. -/
theorem store_first_offence {capacity : Binary64} (number : capacity ≠ .nan) {start t : Tree}
    (created : create capacity = .ok start) {history : List Operation}
    (reached : t = start.after history) (handler : Handler) {id : Nat} {n : Node}
    (found : t.nodes[id]? = some n) (free : n.children = #[]) (value : Source) (limit : Quantity)
    {outcome : Outcome Unit}
    (performed : outcome = Attended.outcome (storeM value (.natural id) limit) handler t) :
    outcome.ends = true ∧
    (outcome.result = .ok () ↔ value.Inoffensive limit 0) ∧
    (outcome.result = .ok () → outcome.reports = []) ∧
    (outcome.result ≠ .ok () → ∃ path part node, value.FirstOffence limit 0 path part ∧
      outcome.tree.follow (.natural id) (positions path) = .ok (.natural node) ∧
      ((∃ report, part.Reported limit path.length node report ∧ outcome.reports = [report] ∧
          outcome.result = .error (report.deliver handler)) ∨
        (∃ error, part.Unreported limit path.length error ∧ outcome.reports = [] ∧
          outcome.result = .error error))) := by
  have buffer : 0 < t.arena.capacity := by
    rw [reached]
    exact after_buffer number created history
  have wf : t.WellFormed := by
    rw [reached]
    exact lasting_wellFormed.after (Reachable.new created).wellFormed history
  have waits := awaits_one value found free
  rw [Attended.outcome_store] at performed
  obtain ⟨r, t', ran⟩ : ∃ r t', store value (.natural id) limit t = (r, t') := ⟨_, _, rfl⟩
  rcases writeAll_decided wf waits buffer ran with ⟨rfl, sound⟩ | ⟨f, rfl, decided⟩
  · rw [Edit.perform_ok ran] at performed
    subst performed
    have sound := sound _ List.mem_cons_self
    exact ⟨rfl, ⟨fun _ => sound, fun _ => rfl⟩, fun _ => rfl, fun failed => absurd rfl failed⟩
  · cases decided with
    | later _ none => cases none
    | @here _ _ path part node first leads why =>
      rw [Nat.zero_add] at why
      have offensive : ¬ value.Inoffensive limit 0 := by
        intro sound
        have := sound path part first.leads (.natural node)
        rw [Nat.zero_add, why] at this
        cases this
      rcases Source.offence_cases why with ⟨report, said, reported⟩ | ⟨unreported, ends, raises⟩
      · rw [Edit.perform_reported ran reported] at performed
        subst performed
        exact ⟨rfl, iff_of_false nofun offensive, nofun,
          fun _ => ⟨path, part, node, first, leads, .inl ⟨report, said, rfl, rfl⟩⟩⟩
      · rw [Edit.perform_error ran] at performed
        subst performed
        refine ⟨ends, iff_of_false nofun offensive, nofun,
          fun _ => ⟨path, part, node, first, leads, .inr ⟨f.bare, raises, ?_, ?_⟩⟩⟩
        · rw [Failure.reports, unreported]
          rfl
        · simp only [Failure.raised, unreported]

/-- Of two items that are refused, one inside the first item and one behind it, the one inside
decides, although its node was added later. -/
theorem store_first_offence_nested : ∃ outcome : Outcome Unit,
    outcome = Attended.outcome (storeM (.ofItems [.ofItems [.unsupported (lit "x")],
      .unknown (lit "y")]) (.natural 0) (.natural 5)) Report.raise (ofArena (.empty 1)) ∧
    outcome.result = .error (.report
      ⟨lit "Cannot materialize unsupported source value (x) into node 3.", none⟩) ∧
    ∃ path part node report,
      (Source.ofItems [.ofItems [.unsupported (lit "x")], .unknown (lit "y")]).FirstOffence
        (.natural 5) 0 path part ∧
      outcome.tree.follow (.natural 0) (positions path) = .ok (.natural node) ∧
      part.Reported (.natural 5) path.length node report ∧ outcome.reports = [report] := by
  have reached : ofArena (.empty 1) = (ofArena (.empty 1)).after [] := rfl
  have number : Binary64.infinite true ≠ .nan := by decide
  have found : (ofArena (.empty 1)).nodes[0]? = some ({} : Node) := rfl
  obtain ⟨_, _, _, fails⟩ := store_first_offence number create_infinite reached Report.raise found
    rfl (.ofItems [.ofItems [.unsupported (lit "x")], .unknown (lit "y")]) (.natural 5) rfl
  obtain ⟨t', failed⟩ : ∃ t', store
      (.ofItems [.ofItems [.unsupported (lit "x")], .unknown (lit "y")]) (.natural 0) (.natural 5)
      (ofArena (.empty 1)) = (.error (.unsupported (lit "x") (.natural 3)), t') := by
    have outer : put (.natural 0) (.ofItems [.ofItems [.unsupported (lit "x")], .unknown (lit "y")])
        (ofArena (.empty 1)) = (.ok 1, ⟨.empty 1, #[{ kind := .seq, children := #[1, 2] },
          { parent := some 0 }, { parent := some 0 }]⟩) := rfl
    have inner : put (.natural 1) (.ofItems [.unsupported (lit "x")])
        ⟨.empty 1, #[{ kind := .seq, children := #[1, 2] }, { parent := some 0 },
          { parent := some 0 }]⟩ =
        (.ok 3, ⟨.empty 1, #[{ kind := .seq, children := #[1, 2] },
          { kind := .seq, parent := some 0, children := #[3] }, { parent := some 0 },
          { parent := some 1 }]⟩) := rfl
    rw [store_def, writeAll_cons rfl outer]
    change ∃ t', writeAll (.natural 5) [⟨.ofItems [.unsupported (lit "x")], .natural 1, 1⟩,
      ⟨.unknown (lit "y"), .natural 2, 1⟩] _ = (_, t')
    rw [writeAll_cons rfl inner]
    change ∃ t', writeAll (.natural 5) [⟨.unsupported (lit "x"), .natural 3, 2⟩,
      ⟨.unknown (lit "y"), .natural 2, 1⟩] _ = (_, t')
    rw [writeAll_def]
    exact ⟨_, rfl⟩
  rw [Attended.outcome_store, Edit.perform_error failed] at fails
  obtain ⟨path, part, node, first, leads, said⟩ := fails nofun
  rw [Attended.outcome_store, Edit.perform_error failed]
  rcases said with ⟨report, said, reports, _⟩ | ⟨_, _, none, _⟩
  · exact ⟨_, rfl, rfl, path, part, node, report, first, leads, said, reports⟩
  · cases none

/-- Where a value is due, nothing is refused with an error that has no report and names no node, as
is an object whose kind has no text. And in a tree that was made for a NaN of bytes, there is no
room for the text of a scalar, although nothing about it is refused. -/
theorem store_without_text_or_buffer :
    ((Attended.outcome (storeM .absent (.natural 0) defaultLimit) Report.raise
        (ofArena (.empty 1))).result = .error .type ∧
      (Attended.outcome (storeM .absent (.natural 0) defaultLimit) Report.raise
        (ofArena (.empty 1))).reports = []) ∧
    ∃ t, create .nan = .ok t ∧ (Source.scalar .null).Inoffensive defaultLimit 0 ∧
      (store (.scalar .null) (.natural 0) defaultLimit t).1 = .error (.arena .stuck) := by
  have failed : store .absent (.natural 0) defaultLimit (ofArena (.empty 1)) =
      (.error .missingValue, ofArena (.empty 1)) := by
    rw [store_def, writeAll_def]
    rfl
  refine ⟨?_, ofArena (.empty 0), rfl, ?_, congrArg Prod.fst (store_stuck rfl _)⟩
  · rw [Attended.outcome_store, Edit.perform_error failed]
    exact ⟨rfl, rfl⟩
  · refine Source.inoffensive_of_parts (fun _ => rfl) ?_
    intro p hp
    cases hp

end Tree

end SpanTree
