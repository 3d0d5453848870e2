import SpanTree.Proofs.Depiction
import SpanTree.Proofs.Encoding
import SpanTree.Proofs.Storing

/-!
# Paths through a stored value

Following a path down from a node that mirrors a value leads where the same path leads in the value.

* `Source.child?`, `Source.follow?`: the part of a value that a step or a path leads to;
* `Source.Named`: values whose keys an arena gives back as they are;
* `firstWithKey_members`, `Mirrors.child?`: a step leads to the node of the part, or nowhere;
* `Mirrors.follow`: so does a path, up to its first step that leads nowhere;
* `follow_stored`: so it is with every value that was stored.
-/

namespace SpanTree

namespace Source

def member? (key : Text) : Source → Option Source
  | table members _ => (members.find? fun m => m.1 = key).map (·.2)
  | _ => none

def child? (value : Source) : Step → Option Source
  | .key key => value.member? key
  | .position (.natural i) => value.parts[i]?
  | .position (.irregular _) => none

def follow? (value : Source) : List Step → Option Source
  | [] => some value
  | s :: rest => (value.child? s).bind (·.follow? rest)

/-- All keys of a value, at every level, are such as an arena gives back as they are. -/
inductive Named : Source → Prop
  | intro {value : Source} (keys : ∀ key, some key ∈ value.labels → key.Clean)
      (below : ∀ part ∈ value.parts, Named part) : Named value

theorem follow?_cons {value part : Source} {s : Step} (h : value.child? s = some part)
    (rest : List Step) : value.follow? (s :: rest) = part.follow? rest := by
  rw [follow?, h]
  rfl

theorem follow?_cons_none {value : Source} {s : Step} (h : value.child? s = none)
    (rest : List Step) : value.follow? (s :: rest) = none := by
  rw [follow?, h]
  rfl

end Source

namespace Tree

variable {t : Tree} {id c : Nat} {n : Node} {value : Source} {key : Text} {rest : List Nat}

/-! ## One step -/

theorem firstWithKey_known {span : Span} {text : Text} (found : t.nodes[c]? = some n)
    (known : n.key = .known span) (reads : t.arena.text span = .ok text) :
    t.firstWithKey key (c :: rest) =
      if text = key then .ok (some c) else t.firstWithKey key rest := by
  have reads : t.text span = .ok text := by
    rw [Tree.text, reads]
    rfl
  rw [firstWithKey_cons, key_natural found, known]
  change (t.text span >>= fun text => if text = key then .ok (some c) else _) = _
  rw [reads]
  rfl

theorem firstWithKey_blank (found : t.nodes[c]? = some n) (blank : n.key = .blank) :
    t.firstWithKey key (c :: rest) = t.firstWithKey key rest := by
  rw [firstWithKey_cons, key_natural found, blank]
  rfl

/-- Children that are called like the members of a table are searched with the same result. -/
theorem firstWithKey_members {children : List Nat} {members : List (Text × Source)}
    (called : List.Forall₂ (fun c m => ∃ n, t.nodes[c]? = some n ∧ t.arena.Spells n.key m.1)
      children members) (clean : ∀ m ∈ members, m.1.Clean) (key : Text) :
    (t.firstWithKey key children = .ok none ∧ members.find? (fun m => m.1 = key) = none) ∨
      ∃ (i c : Nat) (m : Text × Source), children[i]? = some c ∧ members[i]? = some m ∧
        t.firstWithKey key children = .ok (some c) ∧
        members.find? (fun m => m.1 = key) = some m := by
  induction called with
  | nil => exact .inl ⟨rfl, rfl⟩
  | @cons c m rest others here _ ih =>
    obtain ⟨n, found, spells⟩ := here
    obtain ⟨span, known, reads⟩ := spells.kept
    rw [Text.kept_iff.2 (clean m List.mem_cons_self)] at reads
    rw [firstWithKey_known found known reads]
    by_cases same : m.1 = key
    · exact .inr ⟨0, c, m, rfl, rfl, if_pos same, List.find?_cons_of_pos (decide_eq_true same)⟩
    · rw [if_neg same, List.find?_cons_of_neg (by simpa using same)]
      rcases ih fun m mem => clean m (List.mem_cons_of_mem _ mem) with
        none | ⟨i, c, m, hc, hm, results⟩
      · exact .inl none
      · exact .inr ⟨i + 1, c, m, hc, hm, results⟩

theorem firstWithKey_unnamed {children : List Nat}
    (unnamed : ∀ c ∈ children, ∃ n, t.nodes[c]? = some n ∧ n.key = .blank) (key : Text) :
    t.firstWithKey key children = .ok none := by
  induction children with
  | nil => rfl
  | cons c rest ih =>
    obtain ⟨n, found, blank⟩ := unnamed c List.mem_cons_self
    rw [firstWithKey_blank found blank]
    exact ih fun other mem => unnamed other (List.mem_cons_of_mem _ mem)

theorem childWithKey_natural (found : t.nodes[id]? = some n) (key : Text) :
    t.childWithKey (.natural id) key = t.firstWithKey key n.children.toList := by
  rw [childWithKey_def, children_def, node_natural found]
  rfl

theorem childAt_natural (found : t.nodes[id]? = some n) (p : Quantity) :
    t.childAt (.natural id) p = .ok (p.toNat?.bind (n.children[·]?)) := by
  rw [childAt_def, node_natural found]
  rfl

/-- The children for the members of a table are searched like the members, and no other children
have keys. -/
theorem childWithKey_mirrors (found : t.nodes[id]? = some n) (shown : value.Shown t.arena n)
    (length : n.children.size = value.parts.length)
    (labelled : ∀ (i child : Nat) (label : Option Text), n.children[i]? = some child →
      value.labels[i]? = some label → ∃ c, t.nodes[child]? = some c ∧ t.arena.Names c.key label)
    (clean : ∀ key, some key ∈ value.labels → key.Clean) (key : Text) :
    (value.member? key = none ∧ t.childWithKey (.natural id) key = .ok none) ∨
      ∃ (i c : Nat) (part : Source), n.children[i]? = some c ∧ value.parts[i]? = some part ∧
        value.member? key = some part ∧ t.childWithKey (.natural id) key = .ok (some c) := by
  rw [childWithKey_natural found]
  cases value with
  | table members ending =>
    have called : List.Forall₂ (fun c m => ∃ n, t.nodes[c]? = some n ∧ t.arena.Spells n.key m.1)
        n.children.toList members := by
      apply forall₂_of_getElem?
      · simpa [Source.parts] using length
      · intro i c m hc hm
        rw [Array.getElem?_toList] at hc
        exact labelled i c (some m.1) hc (by simp [Source.labels, hm])
    have clean : ∀ m ∈ members, m.1.Clean := fun m mem =>
      clean m.1 (List.mem_map_of_mem mem)
    rcases firstWithKey_members called clean key with
      ⟨none, unfound⟩ | ⟨i, c, m, hc, hm, first, same⟩
    · refine .inl ⟨?_, none⟩
      rw [Source.member?, unfound]
      rfl
    · rw [Array.getElem?_toList] at hc
      refine .inr ⟨i, c, m.2, hc, ?_, ?_, first⟩
      · simp [Source.parts, hm]
      · rw [Source.member?, same]
        rfl
  | array items ending =>
    refine .inl ⟨rfl, firstWithKey_unnamed ?_ key⟩
    intro c mem
    obtain ⟨i, hc⟩ := List.getElem?_of_mem mem
    rw [Array.getElem?_toList] at hc
    have inside : i < items.length := length ▸ (Array.getElem?_eq_some_iff.1 hc).1
    refine labelled i c none hc ?_
    simp only [Source.labels, List.getElem?_map, List.getElem?_eq_getElem inside]
    rfl
  | scalar value =>
    have childless : n.children = #[] := Array.size_eq_zero_iff.1 length
    rw [childless]
    exact .inl ⟨rfl, rfl⟩
  | unsupported | unknown | absent => exact shown.elim

/-- A step from a node that mirrors a value leads to a node that mirrors the part to which the step
leads, or to none if there is no such part. -/
theorem Mirrors.child? (h : t.Mirrors value id) (named : value.Named) (s : Step) :
    (value.child? s = none ∧ t.child? (.natural id) s = .ok none) ∨
      ∃ part c, value.child? s = some part ∧ t.child? (.natural id) s = .ok (some c) ∧
        t.Mirrors part c ∧ part.Named := by
  cases h with | @intro _ _ n found shown length labelled below =>
  cases named with | intro keys parts =>
  cases s with
  | key key =>
    have searched := childWithKey_mirrors found shown length (fun i child label hc hl => by
      obtain ⟨c, hchild, _, names⟩ := labelled i child label hc hl
      exact ⟨c, hchild, names⟩) keys key
    rcases searched with none | ⟨i, c, part, hc, hp, member, first⟩
    · exact .inl none
    · have sound := parts part (List.mem_of_getElem? hp)
      exact .inr ⟨part, c, member, first, below i c part hc hp, sound⟩
  | position p =>
    rw [child?_position, childAt_natural found]
    cases p with
    | irregular x => exact .inl ⟨rfl, rfl⟩
    | natural i =>
      change (value.parts[i]? = none ∧ Except.ok n.children[i]? = .ok none) ∨
        ∃ part c, value.parts[i]? = some part ∧ Except.ok n.children[i]? = .ok (some c) ∧ _
      by_cases inside : i < value.parts.length
      · have hp := List.getElem?_eq_getElem inside
        have hc := Array.getElem?_eq_getElem (Nat.lt_of_lt_of_eq inside length.symm)
        refine .inr ⟨_, _, hp, congrArg Except.ok hc, below i _ _ hc hp, ?_⟩
        exact parts _ (List.getElem_mem inside)
      · refine .inl ⟨List.getElem?_eq_none (Nat.not_lt.1 inside), congrArg Except.ok ?_⟩
        exact Array.getElem?_eq_none (Nat.not_lt.1 (length ▸ inside))

theorem step_some {s : Step} {id : Quantity} (h : t.child? id s = .ok (some c)) :
    t.step id s = .ok (.natural c) := by
  rw [step_def, h]
  rfl

theorem step_none {s : Step} {id : Quantity} (h : t.child? id s = .ok none) :
    t.step id s = .error (.noChild id s) := by
  rw [step_def, h]
  rfl

/-! ## A path -/

theorem follow_cons_ok {s : Step} {id id' : Quantity} (h : t.step id s = .ok id')
    (path : List Step) : t.follow id (s :: path) = t.follow id' path := by
  rw [follow_step, h]
  rfl

theorem follow_cons_error {s : Step} {id : Quantity} {f : Failure} (h : t.step id s = .error f)
    (path : List Step) : t.follow id (s :: path) = .error f := by
  rw [follow_step, h]
  rfl

/-- A path from a node that mirrors a value leads to a node that mirrors the part to which the path
leads. If there is no such part, the path fails at its first step without one, from the node that
the steps before lead to. -/
theorem Mirrors.follow (h : t.Mirrors value id) (named : value.Named) (path : List Step) :
    (∃ part c, value.follow? path = some part ∧ t.follow (.natural id) path = .ok (.natural c) ∧
      t.Mirrors part c) ∨
    value.follow? path = none ∧ ∃ before s rest part c, path = before ++ s :: rest ∧
      value.follow? before = some part ∧ part.child? s = none ∧
      t.follow (.natural id) before = .ok (.natural c) ∧
      t.follow (.natural id) path = .error (.noChild (.natural c) s) := by
  induction path generalizing value id with
  | nil => exact .inl ⟨value, id, rfl, rfl, h⟩
  | cons s rest ih =>
    rcases h.child? named s with ⟨unled, none⟩ | ⟨part, c, leads, child, mirrors, named'⟩
    · refine .inr ⟨Source.follow?_cons_none unled rest, [], s, rest, value, id, rfl, rfl, unled,
        rfl, ?_⟩
      exact follow_cons_error (step_none none) rest
    · have first := step_some child
      rw [Source.follow?_cons leads, follow_cons_ok first]
      rcases ih mirrors named' with
        done | ⟨unled, before, s', rest', part', c', rfl, led, impossible, follows, fails⟩
      · exact .inl done
      · refine .inr ⟨unled, s :: before, s', rest', part', c', rfl, ?_, impossible, ?_, fails⟩
        · rw [Source.follow?_cons leads, led]
        · rw [follow_cons_ok first, follows]

/-! ## A stored value -/

/-- **Paths lead through a stored value as through the value.** Whatever was done to a tree since it
was made, a node without children takes any value of tables, arrays and scalars within the depth
limit, unless the tree was made for a NaN of bytes. If the keys of a stored value are clean, a path
of keys and positions can be followed from its node if and only if it can be followed in the value,
and it leads to a node that mirrors the part of the value to which it leads. If it cannot be
followed, its first impossible step is reported once to the handler, for the node to which the steps
before it lead, and the report is raised, or what the handler raises. -/
theorem follow_stored {capacity : Binary64} {start t : Tree} (created : create capacity = .ok start)
    {history : List Operation} (reached : t = start.after history) {id : Nat} {n : Node}
    (found : t.nodes[id]? = some n) (free : n.children = #[]) {value : Source}
    (plain : value.Plain) {limit : Quantity} (shallow : limit.exceededBy value.height = false)
    (named : value.Named) :
    (capacity ≠ .nan → ∃ t', store value (.natural id) limit t = (.ok (), t')) ∧
    ∀ t', store value (.natural id) limit t = (.ok (), t') →
      ∀ (handler : Handler) (path : List Step) (outcome : Outcome Quantity),
      outcome = (Edit.ask (·.follow (.natural id) path)).perform (some handler) t' →
        ((∃ node, outcome.result = .ok node) ↔ ∃ part, value.follow? path = some part) ∧
        (∀ part, value.follow? path = some part → ∃ c, outcome.result = .ok (.natural c) ∧
          t'.Mirrors part c ∧ outcome.reports = []) ∧
        (value.follow? path = none → ∃ before s rest part c, path = before ++ s :: rest ∧
          value.follow? before = some part ∧ part.child? s = none ∧
          t'.follow (.natural id) before = .ok (.natural c) ∧
          ∃ report : Report, report =
              ⟨lit "Node " ++ .ofNat c ++ lit " has no child " ++ s.text ++ lit ".", none⟩ ∧
            outcome.reports = [report] ∧ outcome.result = .error (report.deliver handler)) := by
  constructor
  · intro number
    have buffer : 0 < t.arena.capacity := by
      rw [reached]
      exact after_buffer number created history
    obtain ⟨t', stored, _⟩ := store_fulfils found free buffer plain shallow
    exact ⟨t', stored⟩
  · intro t' stored handler path outcome performed
    have fulfils := writeAll_done (awaits_one value found free) stored
    have mirrors := fulfils.mirrors _ List.mem_cons_self id rfl
    rcases mirrors.follow named path with
      ⟨part, c, leads, follows, mirrors'⟩ |
      ⟨unled, before, s, rest, part, c, split, led, impossible, follows, fails⟩
    · rw [Edit.perform_ok (Edit.ask_ok follows)] at performed
      subst performed
      refine ⟨⟨fun _ => ⟨part, leads⟩, fun _ => ⟨_, rfl⟩⟩, ?_, ?_⟩
      · intro part' leads'
        rw [leads] at leads'
        cases leads'
        exact ⟨c, rfl, mirrors', rfl⟩
      · intro unled
        rw [leads] at unled
        cases unled
    · have failed : Edit.ask (·.follow (.natural id) path) t' =
          (.error (.noChild (.natural c) s), t') := by
        rw [Edit.ask, fails]
      rw [Edit.perform_reported failed rfl] at performed
      subst performed
      refine ⟨⟨?_, ?_⟩, ?_, ?_⟩
      · rintro ⟨node, done⟩
        cases done
      · rintro ⟨part', leads⟩
        rw [unled] at leads
        cases leads
      · intro part' leads
        rw [unled] at leads
        cases leads
      · intro _
        exact ⟨before, s, rest, part, c, split, led, impossible, follows, _, rfl, rfl, rfl⟩

/-- Of two members with the same key, the path goes through the first. -/
theorem follow_stored_repeated : ∃ t' : Tree,
    store (.ofMembers [(lit "a", .ofItems [.scalar .null]), (lit "a", .scalar .null)]) (.natural 0)
      (.natural 2) (ofArena (.empty 1)) = (.ok (), t') ∧
    ∃ c, ((Edit.ask (·.follow (.natural 0) [.key (lit "a"), .position (.natural 0)])).perform
      (some Report.raise) t').result = .ok (.natural c) ∧ t'.Mirrors (.scalar .null) c := by
  have reached : ofArena (.empty 1) = (ofArena (.empty 1)).after [] := rfl
  have found : (ofArena (.empty 1)).nodes[0]? = some ({} : Node) := rfl
  have plain : (Source.ofMembers
      [(lit "a", .ofItems [.scalar .null]), (lit "a", .scalar .null)]).Plain := by
    apply Source.Plain.table
    intro m hm
    rcases List.mem_cons.1 hm with rfl | hm
    · apply Source.Plain.array
      intro item hi
      rw [List.mem_singleton.1 hi]
      exact .scalar .null
    · rw [List.mem_singleton.1 hm]
      exact .scalar .null
  have shallow : (Quantity.natural 2).exceededBy (Source.ofMembers
      [(lit "a", .ofItems [.scalar .null]), (lit "a", .scalar .null)]).height = false := rfl
  have bare : (Source.scalar .null).Named := .intro nofun nofun
  have named : (Source.ofMembers
      [(lit "a", .ofItems [.scalar .null]), (lit "a", .scalar .null)]).Named := by
    apply Source.Named.intro
    · intro key mem
      have same : key = lit "a" := by simpa [Source.ofMembers, Source.labels] using mem
      rw [same]
      exact ⟨rfl, by decide⟩
    · intro part mem
      rcases List.mem_cons.1 mem with rfl | mem
      · apply Source.Named.intro
        · intro key mem
          simp [Source.ofItems, Source.labels] at mem
        · intro item hi
          rw [List.mem_singleton.1 hi]
          exact bare
      · rw [List.mem_singleton.1 mem]
        exact bare
  obtain ⟨stores, leads⟩ := follow_stored create_infinite reached found rfl plain shallow named
  obtain ⟨t', stored⟩ := stores (by decide)
  obtain ⟨_, follows, _⟩ := leads t' stored Report.raise
    [.key (lit "a"), .position (.natural 0)] _ rfl
  obtain ⟨c, result, mirrors, _⟩ := follows (.scalar .null) rfl
  exact ⟨t', stored, c, result, mirrors⟩

end Tree

end SpanTree
