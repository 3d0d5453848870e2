import SpanTree.Failure

/-!
# Work that may fail

Whatever reads, changes or writes a tree is written once, for every monad that says what comes of a
failure. One may only tell the failure, and another one ask a handler at the very place.

* `Failing`: a monad in which failures are reported and work is given up;
* `Failing.fail`: reports a failure and gives up. The report may be handled by anyone, with whatever
  outcome, but nothing is done behind it;
* `Failing.raising`: a result whose failure is nothing to report.
-/

namespace SpanTree

/-- A monad in which work may fail. -/
class Failing (m : Type → Type) where
  /-- Shows a failure to whoever handles reports, if it has a report; the work may go on after. -/
  report : Failure → m Unit
  /-- Gives up. -/
  abort {α : Type} : Failure → m α

namespace Failing

variable {m : Type → Type} [Monad m] [Failing m] {α : Type}

/-- Reports a failure, and gives up if the handler returns. -/
@[specialize] def fail (f : Failure) : m α := do
  report f
  abort f

@[specialize] def raising : Except Failure α → m α
  | .ok a => pure a
  | .error f => abort f

end Failing

/-- The failure is the result. -/
instance : Failing (Except Failure) where
  report _ := .ok ()
  abort := .error

@[simp] theorem raising_except {α : Type} (r : Except Failure α) :
    (Failing.raising r : Except Failure α) = r := by
  cases r <;> rfl

end SpanTree
