import SpanTree.Settings

/-!
# Histories of operations

What a caller sees of an operation depends on the handler of the tree, and what happens to the tree
does not.

* `Operation.runM`: what an operation does to a tree, and its answer or its failure;
* `Edit.perform`: a change as its caller sees it who waits for it: the tree after it, the reports
  sent to the handler and the answer, or what is raised;
* `Tree.after`: the tree after a sequence of operations, whether or not each succeeds;
* `Tree.Reachable`: the trees that operations lead to.
-/

namespace SpanTree

inductive Answer where
  | done
  | node (id : Nat)
  | span (span : Span)
deriving DecidableEq

@[specialize] def Operation.runM {m : Type → Type} [Monad m] [Editing m] : Operation → m Answer
  | addChild parent => return .node (← Tree.addChildM parent)
  | makeMap id key => do Tree.makeMapM id key; return .done
  | makeSeq id key => do Tree.makeSeqM id key; return .done
  | makeScalar id key value => do Tree.makeScalarM id key value; return .done
  | flag id mask => do
    Editing.called (.flag id mask) (Tree.flagM id mask.toInt32)
    return .done
  | allocate size => return .span (← Tree.allocateM size)
  | copy text => return .span (← Tree.copyM text)
  | write span bytes => do Tree.writeM span bytes; return .done
  | store value node limit => do Tree.storeM value node limit; return .done
  | load request node => do request.runM node; return .done

def Operation.run (o : Operation) : Edit Answer := o.runM

theorem Operation.run_addChild (parent : Quantity) :
    (addChild parent).run = (do return .node (← Tree.addChild parent) : Edit Answer) := rfl

theorem Operation.run_store (value : Source) (node limit : Quantity) :
    (store value node limit).run = (do Tree.store value node limit; return .done : Edit Answer) :=
  rfl

/-- What a caller sees of work on a tree: the tree after it, the reports sent, and the answer or
what is raised. -/
structure Outcome (α : Type) where
  tree : Tree
  reports : List Report
  result : Except Raised α
  /-- Whether the work ends; if it does not, the result is never seen. -/
  ends : Bool := true

/-- A change of a tree with a handler. -/
def Edit.perform {α : Type} (handler : Option Handler) (e : Edit α) (t : Tree) : Outcome α :=
  match e t with
  | (.ok a, t) => ⟨t, [], .ok a, true⟩
  | (.error f, t) => ⟨t, f.reports handler, .error (f.raised handler), f.ends⟩

def Tree.after (t : Tree) : List Operation → Tree
  | [] => t
  | o :: rest => Tree.after (o.run t).2 rest

/-- The trees that operations lead to from a new one. -/
inductive Tree.Reachable : Tree → Prop where
  | new {capacity : Binary64} {t : Tree} (h : Tree.create capacity = .ok t) : Reachable t
  | step {t : Tree} (h : Reachable t) (o : Operation) : Reachable (o.run t).2

end SpanTree
