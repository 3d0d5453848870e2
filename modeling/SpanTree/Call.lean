import SpanTree.Operation

/-!
# Calls under a handler

A caller changes a tree, asks it questions and has it written as JSON, one call after the other, and
catches whatever is raised. The handler of the tree may keep a memory of the reports that it was
sent, and what it raises may depend on it.

* `Watcher`: a handler with a memory;
* `Attended`: work on a tree under a handler. A failure is shown to the handler at the place where
  the work meets it; if the handler returns, the work goes on with what comes next there;
* `Call.attended`: what a call does under a handler;
* `Watcher.see`, `Watcher.transcript`: what a caller sees of work and of a sequence of calls, and
  what the handler then remembers;
* `Attended.outcome`: the same under a handler without a memory;
* `LoadSettings.load`: what a caller sees who loads a document under some settings.
-/

namespace SpanTree

/-- A handler with a memory. It sees reports, and no tree. -/
structure Watcher (σ : Type) where
  /-- What is remembered of a report, and what is raised, if anything. -/
  answer : σ → Report → σ × Option Raised

/-- A tree in use: the memory of its handler, and the reports that the handler was sent. -/
structure Watched (σ : Type) where
  tree : Tree
  memory : σ
  sent : List Report

inductive Halt where
  | raised (error : Raised)
  /-- The work goes on for ever. -/
  | endless

/-- What becomes of work that is given up after its handler returned, or that has nothing to
report. -/
def Failure.halt (f : Failure) : Halt :=
  match f.report? with
  | some r => .raised (.report r.afterReturn)
  | none => if f.ends then .raised f.bare else .endless

/-- Work on a tree under a handler. -/
abbrev Attended (σ : Type) := ReaderT (Watcher σ) (ExceptT Halt (StateM (Watched σ)))

namespace Attended

variable {σ : Type}

/-- Sends a report to the handler. If the handler returns, so does this. -/
def consult (r : Report) : Attended σ Unit := fun w s =>
  let (memory, own) := w.answer s.memory r
  let s := { s with memory, sent := s.sent ++ [r] }
  match own with
  | some error => (.error (.raised error), s)
  | none => (.ok (), s)

instance : Editing (Attended σ) where
  report f :=
    match f.report? with
    | some r => consult r
    | none => pure ()
  abort f := fun _ s => (.error f.halt, s)
  get := fun _ s => (.ok s.tree, s)
  set tree := fun _ s => (.ok (), { s with tree })
  modifyGet change := fun _ s =>
    let (a, tree) := change s.tree
    (.ok a, { s with tree })
  called _ work := work

end Attended

/-! ## Calls -/

inductive Question where
  | kind (id : Quantity)
  | key (id : Quantity)
  | keyText (id : Quantity)
  | value (id : Quantity)
  | valueText (id : Quantity)
  | isFlagged (id : Quantity) (mask : Binary64)
  | parent (id : Quantity)
  | children (id : Quantity)
  | childAt (id position : Quantity)
  | childWithKey (id : Quantity) (name : Text)
  | follow (id : Quantity) (path : List Step)
  | text (span : Span)
  | bytes (span : Span)
  | rendered (settings : RenderSettings)

inductive Reply where
  | answer (answer : Answer)
  | kind (kind : Kind)
  | span (span : Slot Span)
  | text (text : Text)
  | truth (holds : Bool)
  | node (node : Option Nat)
  | nodes (nodes : Array Nat)
  | place (id : Quantity)
  | bytes (bytes : List UInt8)

@[specialize] def Question.replyM {m : Type → Type} [Monad m] [Failing m] (t : Tree) :
    Question → m Reply
  | kind id => return .kind (← t.kindM id)
  | key id => return .span (← t.keyM id)
  | keyText id => return .text (← t.keyTextM id)
  | value id => return .span (← t.valueM id)
  | valueText id => return .text (← t.valueTextM id)
  | isFlagged id mask => return .truth (← t.isFlaggedM id mask)
  | parent id => return .node (← t.parentM id)
  | children id => return .nodes (← t.childrenM id)
  | childAt id position => return .node (← t.childAtM id position)
  | childWithKey id name => return .node (← t.childWithKeyM id name)
  | follow id path => return .place (← t.followM id path)
  | text span => return .text (← Failing.raising (t.text span))
  | bytes span => return .bytes (← Failing.raising ((t.arena.read span).mapError .arena))
  | rendered settings => return .text (← settings.renderM t)

inductive Call where
  | change (operation : Operation)
  | ask (question : Question)
  /-- Loads a document into a tree of its own, which takes the place of the tree. -/
  | loadNew (request : Request) (node : Quantity)
  /-- Fails in the words of the caller. -/
  | fail (report : Report)

/-- Loads a document into a tree of its own. The caller who gets no such tree keeps the old one. -/
def Request.runNew {σ : Type} (r : Request) (node : Quantity) : Attended σ Unit := fun w s =>
  match r.runM (m := Attended σ) node w { s with tree := .new } with
  | (.ok _, s) => (.ok (), s)
  | (.error halt, s') => (.error halt, { s' with tree := s.tree })

def Call.attended {σ : Type} : Call → Attended σ Reply
  | change operation => return .answer (← operation.runM)
  | ask question => Tree.askM question.replyM
  | loadNew request node => do
    request.runNew node
    return .answer .done
  | fail report => Failing.fail (.stated report)

namespace Watcher

variable {σ α : Type}

/-- The handler that ignores what came before. -/
def ofHandler (handler : Handler) : Watcher Unit := ⟨fun _ r => ((), handler r)⟩

def remember (w : Watcher σ) (memory : σ) (reports : List Report) : σ :=
  reports.foldl (fun memory r => (w.answer memory r).1) memory

/-- What a caller sees of work under a handler, and what the handler then remembers. -/
def see (w : Watcher σ) (memory : σ) (t : Tree) (work : Attended σ α) : Outcome α × σ :=
  match work w ⟨t, memory, []⟩ with
  | (.ok a, s) => (⟨s.tree, s.sent, .ok a, true⟩, s.memory)
  | (.error (.raised error), s) => (⟨s.tree, s.sent, .error error, true⟩, s.memory)
  | (.error .endless, s) => (⟨s.tree, s.sent, .error .type, false⟩, s.memory)

/-- What a caller sees of each call in a sequence, and what the handler remembers in the end. A call
that fails does not keep the next one from being made, and one that never ends does. -/
def transcript (w : Watcher σ) (memory : σ) (t : Tree) : List Call → List (Outcome Reply) × σ
  | [] => ([], memory)
  | call :: rest =>
    let (seen, memory) := w.see memory t call.attended
    if seen.ends then
      let (later, memory) := w.transcript memory seen.tree rest
      (seen :: later, memory)
    else ([seen], memory)

end Watcher

/-- What a caller sees of work under a handler without a memory. -/
def Attended.outcome {α : Type} (work : Attended Unit α) (handler : Handler) (t : Tree) :
    Outcome α :=
  ((Watcher.ofHandler handler).see () t work).1

/-! ## Documents -/

/-- Where a document goes: to a tree of its own, or to a tree that is there with its handler, to the
node that the settings name or to a given one. -/
inductive Target where
  | own
  | tree (t : Tree) (handler : Handler)
  | node (t : Tree) (handler : Handler) (id : Quantity)

namespace Target

def receiver : Target → Tree
  | own => .new
  | tree t _ | node t _ _ => t

/-- The handler of the settings is for a tree that is made for the document. Any other tree keeps
the one that it was made with. -/
def handler (s : LoadSettings) : Target → Handler
  | own => s.newHandler
  | tree _ handler | node _ handler _ => handler

def place (s : LoadSettings) : Target → Quantity
  | own | tree _ _ => s.target
  | node _ _ id => id

end Target

def LoadSettings.load (s : LoadSettings) (format : Format) (origin : Origin) (target : Target) :
    Outcome Unit :=
  Attended.outcome ((s.request format origin).runM (target.place s)) (target.handler s)
    target.receiver

end SpanTree
