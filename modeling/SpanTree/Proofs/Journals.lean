import SpanTree.Proofs.Simulation

/-!
# Journals

Storing a value and loading a document come down to operations on single nodes and on the arena. A
journal lists these in the order in which they are called, the failing ones included, among those
that a caller calls directly.

* `Event`: an operation, and what came of its call;
* `Journaled`: a change that enters into a journal what it calls;
* `Tree.Replays`: the calls of a journal, made again, come to what the journal says;
* `Journaled.simulation`: a change does the same with a journal and without, and its journal
  replays;
* `replays_journal`: so it is with every history.
-/

namespace SpanTree

/-- A call of an operation, and whether it succeeded. -/
structure Event where
  operation : Operation
  succeeded : Bool

structure Journal where
  tree : Tree
  events : List Event

/-- A change of a tree that enters into a journal what it calls. -/
abbrev Journaled := ExceptT Failure (StateM Journal)

/-- A call is entered when it is over, whether or not it succeeded. -/
instance : Editing Journaled where
  report _ := pure ()
  abort f := fun s => (.error f, s)
  get := fun s => (.ok s.tree, s)
  set tree := fun s => (.ok (), { s with tree })
  modifyGet change := fun s =>
    let (a, tree) := change s.tree
    (.ok a, { s with tree })
  called o work := fun s =>
    let (result, s) := work s
    (result, { s with events := s.events ++ [⟨o, result.isOk⟩] })

/-- What an operation does to a tree, with what it calls. -/
def Operation.journaled (o : Operation) : Journaled Answer := o.runM

def Tree.journal (t : Tree) : List Operation → List Event
  | [] => []
  | o :: rest => (o.journaled ⟨t, []⟩).2.events ++ Tree.journal (o.run t).2 rest

/-! ## Journals that are true -/

namespace Tree

/-- The calls of a journal, one after the other, lead from a tree to another one. No call stands for
others, and each succeeds just when the journal says so. -/
inductive Replays : Tree → List Event → Tree → Prop
  | done (t : Tree) : Replays t [] t
  | call {t t' : Tree} {o : Operation} {later : List Event} (single : o.isSingle = true)
      (rest : Replays (o.run t).2 later t') : Replays t (⟨o, (o.run t).1.isOk⟩ :: later) t'

theorem Replays.append {t t' t'' : Tree} {events more : List Event} (h : t.Replays events t')
    (h' : t'.Replays more t'') : t.Replays (events ++ more) t'' := by
  induction h with
  | done => exact h'
  | call single _ ih => exact .call single (ih h')

end Tree

theorem Operation.Names.run {α : Type} {o : Operation} {e : Edit α} (h : o.Names e) (t : Tree) :
    (o.run t).1.isOk = (e t).1.isOk ∧ (o.run t).2 = (e t).2 := by
  obtain ⟨_, answer, same⟩ := h
  rw [same]
  cases ran : e t with | mk r t' =>
  cases r with
  | ok a =>
    rw [Edit.bind_ok ran]
    exact ⟨rfl, rfl⟩
  | error f =>
    rw [Edit.bind_error ran]
    exact ⟨rfl, rfl⟩

namespace Journaled

variable {α β : Type} {j : Journaled α} {e : Edit α}

/-- The change with a journal does to a tree what the change without one does, and calls nothing. -/
def Quiet (j : Journaled α) (e : Edit α) : Prop :=
  ∀ t events, j ⟨t, events⟩ = ((e t).1, ⟨(e t).2, events⟩)

/-- The change with a journal does to a tree what the change without one does, and what it enters
into the journal replays. -/
def Of (j : Journaled α) (e : Edit α) : Prop := ∀ t events, ∃ more,
  j ⟨t, events⟩ = ((e t).1, ⟨(e t).2, events ++ more⟩) ∧ t.Replays more (e t).2

/-- What calls nothing and leaves the tree as it is. -/
theorem Quiet.of (quiet : j.Quiet e) (unchanged : ∀ t, (e t).2 = t) : j.Of e := by
  intro t events
  refine ⟨[], ?_, ?_⟩
  · rw [List.append_nil]
    exact quiet t events
  · rw [unchanged]
    exact .done t

theorem Quiet.bind {next : α → Journaled β} {next' : α → Edit β} (first : j.Quiet e)
    (later : ∀ a, (next a).Quiet (next' a)) : (j >>= next).Quiet (e >>= next') := by
  intro t events
  have ran := first t events
  cases he : e t with | mk r t' =>
  rw [he] at ran
  cases r with
  | error f => rw [Edit.bind_error he, bind_abandoned ran]
  | ok a => rw [Edit.bind_ok he, bind_succeeded ran, later a t' events]

theorem Of.bind {next : α → Journaled β} {next' : α → Edit β} (first : j.Of e)
    (later : ∀ a, (next a).Of (next' a)) : (j >>= next).Of (e >>= next') := by
  intro t events
  obtain ⟨more, ran, replays⟩ := first t events
  cases he : e t with | mk r t' =>
  rw [he] at ran replays
  cases r with
  | error f =>
    rw [Edit.bind_error he, bind_abandoned ran]
    exact ⟨more, rfl, replays⟩
  | ok a =>
    obtain ⟨more', ran', replays'⟩ := later a t' (events ++ more)
    rw [Edit.bind_ok he, bind_succeeded ran, ran', List.append_assoc]
    exact ⟨_, rfl, replays.append replays'⟩

theorem Quiet.called {o : Operation} (quiet : j.Quiet e) (names : o.Names e) :
    (Editing.called o j : Journaled α).Of e := by
  intro t events
  obtain ⟨succeeds, after⟩ := names.run t
  refine ⟨[⟨o, (e t).1.isOk⟩], ?_, ?_⟩
  · change ((j ⟨t, events⟩).1, (⟨_, _⟩ : Journal)) = _
    rw [quiet t events]
  · rw [← succeeds, ← after]
    exact .call names.1 (.done _)

/-- A change does the same with a journal and without, and its journal replays. -/
def simulation : Editing.Simulation Journaled where
  single :=
    { Of := Quiet
      pure := fun _ _ _ => rfl
      bind := Quiet.bind
      fail := fun _ _ _ => rfl
      abort := fun _ _ _ => rfl }
  whole :=
    { Of := Of
      pure := fun _ => Quiet.of (fun _ _ => rfl) fun _ => rfl
      bind := Of.bind
      fail := fun _ => Quiet.of (fun _ _ => rfl) fun _ => rfl
      abort := fun _ => Quiet.of (fun _ _ => rfl) fun _ => rfl }
  single_get := fun _ _ => rfl
  whole_get := Quiet.of (fun _ _ => rfl) fun _ => rfl
  modifyGet := fun _ _ _ => rfl
  called := fun names quiet => quiet.called names

end Journaled

/-- Every operation does with a journal what it does without one. -/
theorem Operation.of_journaled (o : Operation) : o.journaled.Of o.run :=
  Journaled.simulation.operation o

/-- **The journal of a history is true.** The single operations that it lists, called one after the
other, lead to the tree that the history leads to, and each of them succeeds just when the journal
says so. -/
theorem Tree.replays_journal (t : Tree) (history : List Operation) :
    t.Replays (t.journal history) (t.after history) := by
  induction history generalizing t with
  | nil => exact .done t
  | cons o rest ih =>
    obtain ⟨more, ran, replays⟩ := o.of_journaled t []
    rw [journal, ran]
    exact replays.append (ih _)

end SpanTree
