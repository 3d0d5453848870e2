import SpanTree.Proofs.Confinement
import SpanTree.Proofs.Loading
import SpanTree.Proofs.Parallel

/-!
# A text as it is and a text kept in the arena

Loading a text that is kept in the arena and loading it as it is differ only in where texts lie,
once the text is what the arena gives back of it.

* `Tree.Shows`: two trees show the same in every node;
* `Twin.shows`: trees that differ at most in where texts lie show the same;
* `run_kept_same`, `load_kept`: so it is with the trees of the two ways to load a text.
-/

namespace SpanTree

namespace Tree

/-- Two trees show the same in every node. A text may differ only where both have the same span of
which no text could be read in the tree that both came from. -/
structure Shows (before t u : Tree) : Prop where
  size : t.size = u.size
  kind : ∀ id, t.kind id = u.kind id
  flags : ∀ id mask, t.isFlagged id mask = u.isFlagged id mask
  parent : ∀ id, t.parent id = u.parent id
  children : ∀ id, t.children id = u.children id
  key : ∀ id, t.keyText id = u.keyText id ∨ ∃ span, t.key id = .ok (.known span) ∧
    u.key id = .ok (.known span) ∧ ∀ text, before.text span ≠ .ok text
  value : ∀ id, t.valueText id = u.valueText id ∨ ∃ span, t.value id = .ok (.known span) ∧
    u.value id = .ok (.known span) ∧ ∀ text, before.text span ≠ .ok text

variable {before t u : Tree}

/-- What could be read in the tree that both came from is read in either. -/
theorem Twin.slotText (h : Twin before.arena t u) (blank : Failure) {s s' : Slot Span}
    (agree : s.Agrees t.arena u.arena s') :
    t.slotText blank s = u.slotText blank s' ∨
      ∃ span, s = .known span ∧ s' = .known span ∧ ∀ text, before.text span ≠ .ok text := by
  rcases agree with rfl | ⟨text, spelled, spelled'⟩
  · cases s with
    | missing | blank => exact .inl rfl
    | known span =>
      by_cases readable : ∃ text, before.text span = .ok text
      · obtain ⟨text, reads⟩ := readable
        rw [text_ok] at reads
        have left := Arena.text_grow h.left.bytes h.left.capacity reads
        have right := Arena.text_grow h.right.bytes h.right.capacity reads
        rw [← text_ok] at left right
        exact .inl (by rw [slotText_known, slotText_known, left, right])
      · exact .inr ⟨span, rfl, rfl, fun text reads => readable ⟨text, reads⟩⟩
  · obtain ⟨span, rfl, reads⟩ := spelled.kept
    obtain ⟨span', rfl, reads'⟩ := spelled'.kept
    rw [← text_ok] at reads reads'
    exact .inl (by rw [slotText_known, slotText_known, reads, reads'])

/-- Either tree has a node for an id, and these agree, or neither has. -/
theorem Twin.node_cases (h : Twin before.arena t u) (id : Quantity) :
    (∃ f, t.node id = .error f ∧ u.node id = .error f) ∨
      ∃ n n', t.node id = .ok n ∧ u.node id = .ok n' ∧ n.Agrees t.arena u.arena n' := by
  cases id with
  | irregular x => exact .inl ⟨.unknownNode (.irregular x) t.size, rfl, by rw [h.size]; rfl⟩
  | natural i =>
    cases found : t.nodes[i]? with
    | none =>
      refine .inl ⟨.unknownNode (.natural i) t.size, ?_, ?_⟩
      · exact Tree.node_none found
      · have found' : u.node? (.natural i) = none := h.node_none found
        rw [Tree.node_none found', h.size]
    | some n =>
      obtain ⟨n', found', agree⟩ := h.node found
      exact .inr ⟨n, n', node_natural found, node_natural found', agree⟩

/-- What nodes that agree have in common is the same at every id. -/
theorem Twin.map_node {α : Type} (h : Twin before.arena t u) (field : Node → α)
    (agrees : ∀ n n', n.Agrees t.arena u.arena n' → field n = field n') (id : Quantity) :
    (t.node id).map field = (u.node id).map field := by
  rcases h.node_cases id with ⟨f, none, none'⟩ | ⟨n, n', found, found', agree⟩
  · rw [none, none']
  · rw [found, found']
    exact congrArg Except.ok (agrees n n' agree)

/-- A text of a node is the same, or its span is the same and could not be read before. -/
theorem Twin.nodeText (h : Twin before.arena t u) (slot : Node → Slot Span)
    (agrees : ∀ n n', n.Agrees t.arena u.arena n' → (slot n).Agrees t.arena u.arena (slot n'))
    (blank : Failure) (id : Quantity) :
    (do t.slotText blank (← (t.node id).map slot)) =
        (do u.slotText blank (← (u.node id).map slot)) ∨
      ∃ span, (t.node id).map slot = .ok (.known span) ∧
        (u.node id).map slot = .ok (.known span) ∧ ∀ text, before.text span ≠ .ok text := by
  rcases h.node_cases id with ⟨f, none, none'⟩ | ⟨n, n', found, found', agree⟩
  · rw [none, none']
    exact .inl rfl
  · rw [found, found']
    rcases h.slotText blank (agrees n n' agree) with text | ⟨span, known, known', unread⟩
    · exact .inl text
    · exact .inr ⟨span, congrArg Except.ok known, congrArg Except.ok known', unread⟩

/-- Trees that differ at most in where texts lie show the same. -/
theorem Twin.shows (h : Twin before.arena t u) : Shows before t u where
  size := h.size
  kind := h.map_node _ fun _ _ agree => agree.kind
  flags id mask := h.map_node _ (fun _ _ agree => by rw [agree.flags]) id
  parent := h.map_node _ fun _ _ agree => agree.parent
  children := h.map_node _ fun _ _ agree => agree.children
  key id := h.nodeText (·.key) (fun _ _ agree => agree.key) (.noKey id) id
  value id := h.nodeText (·.value) (fun _ _ agree => agree.value) (.noValue id) id

/-! ## Two ways to load a text -/

/-- What differs at most in where texts lie is not told apart by a handler. -/
theorem perform_same {α : Type} {base : Arena} {e e' : Edit α}
    (h : Edit.Same base (e t) (e' u)) (handler : Option Handler) :
    (e'.perform handler u).result = (e.perform handler t).result ∧
      (e'.perform handler u).reports = (e.perform handler t).reports ∧
      Twin base (e.perform handler t).tree (e'.perform handler u).tree := by
  unfold Edit.perform
  generalize e t = x at h
  generalize e' u = y at h
  cases h with
  | done twin same =>
    subst same
    exact ⟨rfl, rfl, twin⟩
  | failed f twin => exact ⟨rfl, rfl, twin⟩

theorem Twin.refl (t : Tree) : Twin t.arena t t where
  size := rfl
  left := .refl _
  right := .refl _
  nodes i n n' found found' := by
    rw [found] at found'
    cases found'
    exact ⟨rfl, rfl, rfl, rfl, .inl rfl, .inl rfl⟩

/-- A text that is kept in the arena is loaded as what the arena gives back of it. -/
theorem run_kept_same (t : Tree) (buffer : 0 < t.arena.capacity) (format : Format) (text : Text)
    (name : Option Text) (node limit : Quantity) :
    Edit.Same t.arena ((Request.run ⟨format, .text text.kept, name, limit⟩ node) t)
      ((Request.run ⟨format, .kept text, name, limit⟩ node) t) := by
  obtain ⟨arena, bytes, more, _, runs, _⟩ :=
    run_given (t := t) ⟨format, .kept text, name, limit⟩ node fun _ => buffer
  rw [runs text.kept rfl]
  have twin : Twin t.arena t { t with arena } :=
    (Twin.refl t).extend (.refl _) ⟨⟨_, bytes.symm⟩, more⟩
  exact load_blind buffer format text.kept name node limit _ _ twin

/-- **A text is loaded alike from the arena and as it is.** In any tree that was made for a number
of bytes, whatever was done to it since, a text that is kept in the arena is loaded as the text that
the arena gives back of it: with the same result or the same error, after the same reports, and in a
tree that shows the same in every node. That text is the given one if each surrogate of it has its
other half and no byte order mark is in front. -/
theorem load_kept {capacity : Binary64} (number : capacity ≠ .nan) {start t : Tree}
    (created : create capacity = .ok start) {history : List Operation}
    (reached : t = start.after history) (handler : Option Handler) (format : Format) (text : Text)
    (name : Option Text) (node limit : Quantity) {given kept : Outcome Unit}
    (loaded : given = (Request.run ⟨format, .text text.kept, name, limit⟩ node).perform handler t)
    (loaded' : kept = (Request.run ⟨format, .kept text, name, limit⟩ node).perform handler t) :
    kept.result = given.result ∧ kept.reports = given.reports ∧
      Shows t given.tree kept.tree ∧
      ((∀ i, ¬ text.Lone i) → text.head? ≠ some 0xFEFF → text.kept = text) := by
  have buffer : 0 < t.arena.capacity := by
    rw [reached]
    exact after_buffer number created history
  have same := run_kept_same t buffer format text name node limit
  rw [loaded, loaded']
  obtain ⟨result, reports, twin⟩ := perform_same same handler
  refine ⟨result, reports, twin.shows, ?_⟩
  intro paired front
  exact Text.kept_iff.2 ⟨Text.wellFormed_iff.2 paired, front⟩

/-- A string that is loaded into a node whose key lies behind the bytes of the arena. -/
theorem load_kept_string : ∃ t : Tree, ∃ given kept : Outcome Unit,
    t = (ofArena (.empty 1)).after [.makeSeq (.natural 0) (.known ⟨.natural 1, .natural 2⟩)] ∧
    given = (Request.run ⟨.json, .text (lit "\"a\""), none, defaultLimit⟩ (.natural 0)).perform
      (some Report.raise) t ∧
    kept = (Request.run ⟨.json, .kept (lit "\"a\""), none, defaultLimit⟩ (.natural 0)).perform
      (some Report.raise) t ∧
    kept.result = given.result ∧ kept.reports = given.reports ∧ Shows t given.tree kept.tree := by
  have number : Binary64.infinite true ≠ .nan := by decide
  have same : (lit "\"a\"").kept = lit "\"a\"" := by decide
  have reached : (ofArena (.empty 1)).after
      [.makeSeq (.natural 0) (.known ⟨.natural 1, .natural 2⟩)] = (ofArena (.empty 1)).after
        [.makeSeq (.natural 0) (.known ⟨.natural 1, .natural 2⟩)] := rfl
  obtain ⟨result, reports, shows, _⟩ := load_kept number create_infinite reached
    (some Report.raise) .json (lit "\"a\"") none (.natural 0) defaultLimit rfl rfl
  rw [same] at result reports shows
  exact ⟨_, _, _, rfl, rfl, rfl, result, reports, shows⟩

end Tree

end SpanTree
