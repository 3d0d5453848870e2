import SpanTree.Document.Request
import SpanTree.Source
import SpanTree.Tree.Query

/-!
# Operations

What a caller can do to a tree, by name, and the monads in which it is done.

* `Operation`: the changes of a tree;
* `Editing`: a monad that has a tree. It is told which single operations are called in it;
* `bind_succeeded`, `bind_abandoned`: work that may be given up is gone on with, or is not;
* `Edit`: a change of a tree that may fail, where what was done before the failure stays.
-/

namespace SpanTree

inductive Operation where
  | addChild (parent : Quantity)
  | makeMap (id : Quantity) (key : Slot Span)
  | makeSeq (id : Quantity) (key : Slot Span)
  | makeScalar (id : Quantity) (key value : Slot Span)
  /-- Adds the flags of a mask, read as a 32-bit word. -/
  | flag (id : Quantity) (mask : Binary64)
  | allocate (size : Quantity)
  | copy (text : Text)
  | write (span : Span) (bytes : List UInt8)
  | store (value : Source) (node limit : Quantity)
  | load (request : Request) (node : Quantity)

section
variable {ε σ α β : Type} {x : ExceptT ε (StateM σ) α} {f : α → ExceptT ε (StateM σ) β} {s s' : σ}

/-- Work that succeeds is gone on with. -/
theorem bind_succeeded {a : α} (h : x s = (.ok a, s')) : (x >>= f) s = f a s' := by
  change ExceptT.bindCont f (x s).1 (x s).2 = f a s'
  rw [h]
  rfl

/-- Nothing is done behind work that is given up. -/
theorem bind_abandoned {e : ε} (h : x s = (.error e, s')) : (x >>= f) s = (.error e, s') := by
  change ExceptT.bindCont f (x s).1 (x s).2 = (.error e, s')
  rw [h]
  rfl

end

/-- A monad with a tree. -/
class Editing (m : Type → Type) extends Failing m, MonadStateOf Tree m where
  /-- Does the work of an operation that was called. -/
  called {α : Type} : Operation → m α → m α

/-- A change of a tree that may fail. -/
abbrev Edit := ExceptT Failure (StateM Tree)

namespace Edit

variable {α β : Type}

def ask (query : Tree → Except Failure α) : Edit α := fun t => (query t, t)

def fail (f : Failure) : Edit α := fun t => (.error f, t)

/-- The failure is the result, and no record is kept of calls. -/
instance : Editing Edit where
  report _ := pure ()
  abort := fail
  get := fun t => (.ok t, t)
  set t := fun _ => (.ok (), t)
  modifyGet f := fun t => let (a, t) := f t; (.ok a, t)
  called _ work := work

variable {e : Edit α} {f : α → Edit β} {t t' : Tree}

theorem fail_at (x : Failure) (t : Tree) : (fail x : Edit α) t = (.error x, t) := rfl

theorem bind_ok {a : α} (h : e t = (.ok a, t')) : (e >>= f) t = f a t' := bind_succeeded h

theorem bind_error {x : Failure} (h : e t = (.error x, t')) : (e >>= f) t = (.error x, t') :=
  bind_abandoned h

theorem ask_ok {query : Tree → Except Failure α} {a : α} (h : query t = .ok a) :
    ask query t = (.ok a, t) := by
  unfold ask
  rw [h]

theorem ask_error {query : Tree → Except Failure α} {f : Failure} (h : query t = .error f) :
    ask query t = (.error f, t) := by
  unfold ask
  rw [h]

end Edit

end SpanTree
