import Mathlib.Data.List.Forall2
import SpanTree.Proofs.Histories
import SpanTree.Proofs.Simulation

/-!
# Handlers have no influence

A handler is asked inside of the work, wherever this meets a failure. As each place that reports a
failure gives up when the handler returns, no work is done after that. So a tree, and all that is
seen of it, is the same under every handler.

* `Edit.attend`: a change that is done as if nobody were asked, where the handler is asked when all
  is over;
* `Attended.simulation`, `Attended.questions`: whatever is done under a handler is done in this way;
* `Watcher.see_ofHandler`: without a memory, a handler is asked as `Edit.perform` says;
* `Outcome.Agrees`: all that two callers see of a call but what is raised;
* `Watcher.transcript_agrees`: a sequence of calls under two handlers.
-/

namespace SpanTree

variable {σ τ α β : Type}

/-! ## Work under a handler -/

/-- What never ends raises nothing that could be told. -/
theorem Failure.bare_of_endless {f : Failure} (h : f.ends = false) : f.bare = .type := by
  unfold Failure.ends at h
  split at h
  · rfl
  · rfl
  · cases h

namespace Watcher

variable (w : Watcher σ)

/-- How work breaks off for a failure under a handler. -/
def halt (memory : σ) (f : Failure) : Halt :=
  match f.report? with
  | some r => .raised ((w.answer memory r).2.getD (.report r.afterReturn))
  | none => f.halt

end Watcher

namespace Attended

theorem bind_ok {x : Attended σ α} {next : α → Attended σ β} {w : Watcher σ} {s s' : Watched σ}
    {a : α} (h : x w s = (.ok a, s')) : (x >>= next) w s = next a w s' :=
  bind_succeeded h

theorem bind_error {x : Attended σ α} {next : α → Attended σ β} {w : Watcher σ} {s s' : Watched σ}
    {halt : Halt} (h : x w s = (.error halt, s')) : (x >>= next) w s = (.error halt, s') :=
  bind_abandoned h

/-- Whatever a handler answers, a failure ends the work and leaves the tree as it is. -/
theorem fail_eq (f : Failure) (w : Watcher σ) (s : Watched σ) :
    (Failing.fail f : Attended σ α) w s = (.error (w.halt s.memory f), { s with
      memory := w.remember s.memory f.report?.toList, sent := s.sent ++ f.report?.toList }) := by
  cases reported : f.report? with
  | none =>
    have shown : (Failing.report f : Attended σ Unit) w s = (.ok (), s) := by
      simp only [Failing.report, reported]
      rfl
    refine (bind_ok shown).trans ?_
    rw [Watcher.halt, reported, Option.toList_none, List.append_nil]
    rfl
  | some r =>
    have shown : (Failing.report f : Attended σ Unit) w s = consult r w s := by
      simp only [Failing.report, reported]
    cases own : (w.answer s.memory r).2 with
    | some error =>
      have raised : consult r w s = (.error (.raised error), { s with
          memory := (w.answer s.memory r).1, sent := s.sent ++ [r] }) := by
        simp only [consult, own]
      refine (bind_error (shown.trans raised)).trans ?_
      rw [Watcher.halt, reported]
      simp only [own, Option.getD_some]
      rfl
    | none =>
      have returned : consult r w s = (.ok (), { s with
          memory := (w.answer s.memory r).1, sent := s.sent ++ [r] }) := by
        simp only [consult, own]
      refine (bind_ok (shown.trans returned)).trans ?_
      have late : f.halt = .raised (.report r.afterReturn) := by rw [Failure.halt, reported]
      rw [Watcher.halt, reported]
      simp only [own, Option.getD_none]
      rw [← late]
      rfl

end Attended

/-! ## Asking when all is over -/

namespace Edit

variable {e : Edit α} {w : Watcher σ} {s : Watched σ} {t : Tree}

/-- A change under a handler that is asked when all is over. -/
def attend (e : Edit α) : Attended σ α := fun w s =>
  match e s.tree with
  | (.ok a, tree) => (.ok a, { s with tree })
  | (.error f, tree) => (Failing.fail f : Attended σ α) w { s with tree }

theorem attend_ok {a : α} (h : e s.tree = (.ok a, t)) :
    e.attend w s = (.ok a, { s with tree := t }) := by
  unfold attend
  rw [h]

theorem attend_error {f : Failure} (h : e s.tree = (.error f, t)) :
    e.attend w s = (Failing.fail f : Attended σ α) w { s with tree := t } := by
  unfold attend
  rw [h]

/-- The parts of a change are done under the handler one after the other, and none after one that
failed. -/
theorem attend_bind (e : Edit α) (next : α → Edit β) :
    (e >>= next).attend = ((e.attend >>= fun a => (next a).attend : Attended σ β)) := by
  funext w s
  cases h : e s.tree with | mk result t =>
  cases result with
  | ok a =>
    rw [Attended.bind_ok (attend_ok h), attend, bind_ok h]
    rfl
  | error f =>
    have failed := attend_error (w := w) h
    rw [Attended.fail_eq] at failed
    rw [Attended.bind_error failed, attend_error (bind_error h), Attended.fail_eq]

end Edit

namespace Attended

/-- What has nothing to report is given up without asking. -/
theorem abort_eq {f : Failure} (unreported : f.report? = none) :
    (Failing.abort f : Attended σ α) = Failing.fail f := by
  funext w s
  rw [fail_eq, Watcher.halt, unreported, Option.toList_none, List.append_nil]
  rfl

/-- Work under a handler is done as if the handler were asked when all is over. -/
def late : SpanTree.Simulation (Attended σ) Edit where
  Of x e := x = e.attend
  pure _ := rfl
  bind first later := by rw [first, funext later, Edit.attend_bind]
  fail _ := rfl
  abort unreported := abort_eq unreported

def simulation : Editing.Simulation (Attended σ) where
  single := late
  whole := late
  single_get := rfl
  whole_get := rfl
  modifyGet _ := rfl
  called _ inside := inside

/-- A question is answered under a handler as without one, or the handler is asked. -/
def questions : SpanTree.Simulation (Attended σ) (Except Failure) where
  Of x r := x = Edit.attend fun t => (r, t)
  pure _ := rfl
  bind {α β x r f g} first later := by
    rw [first]
    cases r with
    | ok a => exact later a
    | error failure =>
      funext w s
      have failed : Edit.attend (fun t => ((.error failure : Except Failure α), t)) w s =
          (.error (w.halt s.memory failure), _) := fail_eq failure w s
      exact (bind_error failed).trans (fail_eq failure w s).symm
  fail _ := rfl
  abort unreported := abort_eq unreported

/-- A question is asked of the tree as it is. -/
theorem ask_eq {query : Tree → Attended σ α} {answer : Tree → Except Failure α}
    (h : ∀ t, query t = Edit.attend fun s => (answer t, s)) :
    (Tree.askM query : Attended σ α) = (Edit.ask answer).attend := by
  funext w s
  have asked : (get : Attended σ Tree) w s = (.ok s.tree, s) := rfl
  exact (bind_ok asked).trans (congrFun (congrFun (h s.tree) w) s)

end Attended

/-! ## Calls -/

/-- Loads a document into a tree of its own, which is dropped if that fails. -/
def Request.replace (r : Request) (node : Quantity) : Edit Unit := fun t =>
  match r.run node .new with
  | (.ok done, new) => (.ok done, new)
  | (.error f, _) => (.error f, t)

theorem Request.runNew_eq (r : Request) (node : Quantity) :
    (r.runNew node : Attended σ Unit) = (r.replace node).attend := by
  funext w s
  have ran : (r.runM node : Attended σ Unit) = (r.run node).attend :=
    Attended.simulation.request r node
  unfold runNew
  rw [ran]
  unfold Edit.attend replace
  dsimp only
  cases r.run node .new with | mk result t =>
  cases result with
  | ok done => rfl
  | error f =>
    dsimp only
    rw [Attended.fail_eq, Attended.fail_eq]

/-- What a call does to a tree and what it replies, if no handler is asked. -/
def Call.run : Call → Edit Reply
  | change operation => return .answer (← operation.run)
  | ask question => Edit.ask fun t => question.replyM t
  | loadNew request node => do
    request.replace node
    return .answer .done
  | fail report => Edit.fail (.stated report)

theorem Call.attended_eq (c : Call) : (c.attended : Attended σ Reply) = c.run.attend := by
  cases c with
  | change operation =>
    exact Attended.late.bind (Attended.simulation.operation operation) fun _ => rfl
  | ask question => exact Attended.ask_eq fun t => Attended.questions.reply t question
  | loadNew request node => exact Attended.late.bind (request.runNew_eq node) fun _ => rfl
  | fail report => rfl

/-- What two callers see of a call is the same but for what is raised, if anything is. -/
structure Outcome.Agrees (a b : Outcome α) : Prop where
  tree : a.tree = b.tree
  reports : a.reports = b.reports
  answers : ∀ x, a.result = .ok x ↔ b.result = .ok x
  ends : a.ends = b.ends

theorem Outcome.reports_of_agrees {seen seen' : List (Outcome α)}
    (h : List.Forall₂ Agrees seen seen') :
    seen'.flatMap (·.reports) = seen.flatMap (·.reports) := by
  induction h with
  | nil => rfl
  | cons first _ ih => rw [List.flatMap_cons, List.flatMap_cons, ih, first.reports]

namespace Watcher

variable (w : Watcher σ) (w' : Watcher τ) (memory : σ) (memory' : τ) (t : Tree)

theorem see_ok {e : Edit α} {a : α} {t t' : Tree} (h : e t = (.ok a, t')) :
    w.see memory t e.attend = (⟨t', [], .ok a, true⟩, memory) := by
  unfold see
  rw [Edit.attend_ok (s := ⟨t, memory, []⟩) h]

def raised (memory : σ) (f : Failure) : Raised :=
  match f.report? with
  | some r => (w.answer memory r).2.getD (.report r.afterReturn)
  | none => f.bare

theorem see_error {e : Edit α} {f : Failure} {t t' : Tree} (h : e t = (.error f, t')) :
    w.see memory t e.attend = (⟨t', f.report?.toList, .error (w.raised memory f), f.ends⟩,
      w.remember memory f.report?.toList) := by
  have failed := Edit.attend_error (w := w) (s := ⟨t, memory, []⟩) h
  rw [Attended.fail_eq, List.nil_append] at failed
  unfold see
  rw [failed]
  cases reported : f.report? with
  | some r =>
    rw [halt, reported, raised, reported, Failure.ends_of_report reported]
  | none =>
    rw [halt, reported, raised, reported]
    dsimp only
    rw [Failure.halt, reported]
    cases ends : f.ends with
    | true => rfl
    | false => rw [Failure.bare_of_endless ends]; rfl

theorem raised_ofHandler (handler : Handler) (f : Failure) :
    (ofHandler handler).raised () f = f.raised (some handler) := by
  unfold raised Failure.raised
  cases f.report? <;> rfl

/-- A handler without a memory is asked as often as a failure has a report, and its answer is
raised. -/
theorem see_ofHandler (handler : Handler) (e : Edit α) :
    (ofHandler handler).see () t e.attend = (e.perform (some handler) t, ()) := by
  cases h : e t with | mk result t' =>
  cases result with
  | ok a => rw [see_ok _ _ h, Edit.perform_ok h]
  | error f =>
    rw [see_error _ _ h, Edit.perform_error h, Failure.reports, raised_ofHandler]

/-- The memory of a handler is made of the reports that it was sent. -/
theorem see_memory (e : Edit α) :
    (w.see memory t e.attend).2 = w.remember memory (w.see memory t e.attend).1.reports := by
  cases h : e t with | mk result t' =>
  cases result with
  | ok a =>
    rw [see_ok _ _ h]
    rfl
  | error f => rw [see_error _ _ h]

/-- One change under two handlers. -/
theorem see_agrees (e : Edit α) :
    (w.see memory t e.attend).1.Agrees (w'.see memory' t e.attend).1 := by
  cases h : e t with | mk result t' =>
  cases result with
  | ok a =>
    rw [see_ok _ _ h, see_ok _ _ h]
    exact ⟨rfl, rfl, fun _ => Iff.rfl, rfl⟩
  | error f =>
    rw [see_error _ _ h, see_error _ _ h]
    exact ⟨rfl, rfl, fun _ => ⟨nofun, nofun⟩, rfl⟩

theorem remember_append (reports more : List Report) :
    w.remember memory (reports ++ more) = w.remember (w.remember memory reports) more :=
  List.foldl_append

/-! ## Sequences of calls -/

theorem transcript_ends (call : Call) (rest : List Call)
    (ends : (w.see memory t call.attended).1.ends = true) :
    w.transcript memory t (call :: rest) =
      let seen := w.see memory t call.attended
      let later := w.transcript seen.2 seen.1.tree rest
      (seen.1 :: later.1, later.2) := by
  rw [transcript]
  exact if_pos ends

theorem transcript_endless (call : Call) (rest : List Call)
    (endless : (w.see memory t call.attended).1.ends = false) :
    w.transcript memory t (call :: rest) =
      ([(w.see memory t call.attended).1], (w.see memory t call.attended).2) := by
  rw [transcript]
  exact if_neg (Bool.not_eq_true _ ▸ endless)

/-- Only the last of the calls that are made may have no end, and all are made if there is none. -/
theorem transcript_length (calls : List Call) :
    (∀ o ∈ (w.transcript memory t calls).1.dropLast, o.ends = true) ∧
    ((∀ o ∈ (w.transcript memory t calls).1, o.ends = true) →
      (w.transcript memory t calls).1.length = calls.length) := by
  induction calls generalizing memory t with
  | nil => exact ⟨nofun, fun _ => rfl⟩
  | cons call rest ih =>
    cases ends : (w.see memory t call.attended).1.ends with
    | false =>
      rw [transcript_endless _ _ _ _ _ ends]
      refine ⟨nofun, fun all => ?_⟩
      rw [all _ List.mem_cons_self] at ends
      cases ends
    | true =>
      rw [transcript_ends _ _ _ _ _ ends]
      obtain ⟨before, length⟩ := ih (w.see memory t call.attended).2
        (w.see memory t call.attended).1.tree
      refine ⟨fun o inside => ?_, fun all => ?_⟩
      · dsimp only at inside
        cases later : (w.transcript (w.see memory t call.attended).2
            (w.see memory t call.attended).1.tree rest).1 with
        | nil =>
          rw [later] at inside
          cases inside
        | cons next more =>
          rw [later, List.dropLast_cons_cons] at inside
          rcases List.mem_cons.1 inside with rfl | inside
          · exact ends
          · exact before o (later ▸ inside)
      · exact congrArg (· + 1) (length fun o inside => all o (List.mem_cons_of_mem _ inside))

/-- A call leaves the same tree for the calls after it under both handlers. -/
theorem forall_agrees (calls : List Call) : List.Forall₂ Outcome.Agrees
    (w.transcript memory t calls).1 (w'.transcript memory' t calls).1 := by
  induction calls generalizing memory memory' t with
  | nil => exact .nil
  | cons call rest ih =>
    have first : (w.see memory t call.attended).1.Agrees (w'.see memory' t call.attended).1 := by
      rw [call.attended_eq, call.attended_eq]
      exact w.see_agrees w' memory memory' t call.run
    cases ends : (w.see memory t call.attended).1.ends with
    | false =>
      rw [transcript_endless _ _ _ _ _ ends, transcript_endless _ _ _ _ _ (first.ends ▸ ends)]
      exact .cons first .nil
    | true =>
      rw [transcript_ends _ _ _ _ _ ends, transcript_ends _ _ _ _ _ (first.ends ▸ ends)]
      dsimp only
      rw [← first.tree]
      exact .cons first (ih _ _ _)

/-- The memory of a handler is made of the reports that all calls sent it. -/
theorem transcript_memory (calls : List Call) : (w.transcript memory t calls).2 =
    w.remember memory ((w.transcript memory t calls).1.flatMap (·.reports)) := by
  induction calls generalizing memory t with
  | nil => rfl
  | cons call rest ih =>
    have first : (w.see memory t call.attended).2 =
        w.remember memory (w.see memory t call.attended).1.reports := by
      rw [call.attended_eq]
      exact w.see_memory memory t call.run
    cases ends : (w.see memory t call.attended).1.ends with
    | false =>
      rw [transcript_endless _ _ _ _ _ ends, first, List.flatMap_singleton]
    | true =>
      rw [transcript_ends _ _ _ _ _ ends]
      dsimp only
      rw [ih, List.flatMap_cons, remember_append, first]

/-- **A handler has no influence.** Whatever calls are made one after the other, and whatever was
raised by those that failed, the calls do the same under two handlers with memories of any kind:
after each call the trees are the same, with their nodes and their arenas, it was answered alike or
failed under both, and the same reports were sent. Each handler remembers what it was sent in the
order of the calls. All calls are made, but none after one that never ends, and that is the same
one under both. -/
theorem transcript_agrees (calls : List Call) :
    (∀ o ∈ (w.transcript memory t calls).1.dropLast, o.ends = true) ∧
    ((∀ o ∈ (w.transcript memory t calls).1, o.ends = true) →
      (w.transcript memory t calls).1.length = calls.length) ∧
    List.Forall₂ Outcome.Agrees (w.transcript memory t calls).1
      (w'.transcript memory' t calls).1 ∧
    ∃ sent, (w.transcript memory t calls).1.flatMap (·.reports) = sent ∧
      (w'.transcript memory' t calls).1.flatMap (·.reports) = sent ∧
      (w.transcript memory t calls).2 = w.remember memory sent ∧
      (w'.transcript memory' t calls).2 = w'.remember memory' sent := by
  have agree := w.forall_agrees w' memory memory' t calls
  have same := Outcome.reports_of_agrees agree
  obtain ⟨before, length⟩ := w.transcript_length memory t calls
  refine ⟨before, length, agree, _, rfl, same, w.transcript_memory memory t calls, ?_⟩
  rw [w'.transcript_memory memory' t calls, same]

end Watcher

/-! ## Handlers without a memory -/

namespace Attended

variable {handler : Handler} {t : Tree}

theorem outcome_attend (e : Edit α) : outcome e.attend handler t = e.perform (some handler) t :=
  congrArg Prod.fst (Watcher.see_ofHandler t handler e)

theorem outcome_ask {query : Tree → Attended Unit α} {answer : Tree → Except Failure α}
    (h : ∀ t, query t = Edit.attend fun s => (answer t, s)) :
    outcome (Tree.askM query) handler t = (Edit.ask answer).perform (some handler) t := by
  rw [ask_eq h, outcome_attend]

theorem outcome_store (value : Source) (node limit : Quantity) :
    outcome (Tree.storeM value node limit) handler t =
      (Tree.store value node limit).perform (some handler) t := by
  have stored : (Tree.storeM value node limit : Attended Unit Unit) = _ :=
    simulation.store value node limit
  rw [stored, outcome_attend]
  rfl

theorem outcome_request (r : Request) (node : Quantity) :
    outcome (r.runM node) handler t = (r.run node).perform (some handler) t := by
  have ran : (r.runM node : Attended Unit Unit) = _ := simulation.request r node
  rw [ran, outcome_attend]
  rfl

end Attended

end SpanTree
