import SpanTree.Tree.Store

/-!
# Loading documents

A document is read as a whole before any node is touched.

* `Tree.loadM`: reads a text and writes its value into a node;
* `Request.runM`: loads a document into a node.
-/

namespace SpanTree

section
variable {m : Type → Type} [Monad m] [Editing m]

open Failing (fail abort raising)

namespace Tree

/-- The location of a complaint in a document of some name. -/
def location (name : Option Text) (place : Option Location) : Location :=
  { place.getD {} with source := name.elim .missing .known }

@[specialize] def loadM (format : Format) (text : Text) (name : Option Text)
    (node limit : Quantity) : m Unit :=
  match format.parse text with
  | .error c =>
    fail (.malformed format.text (format.explain c) (location name (format.place? c text)))
  | .ok value =>
    match format.presenter.present value with
    | .error e => abort (.interrupted e)
    | .ok source => storeM source node limit

end Tree

@[specialize] def Request.runM (r : Request) (node : Quantity) : m Unit :=
  match r.origin with
  | .text text => Tree.loadM r.format text r.name node r.limit
  | .kept text => do
    let span ← Tree.copyM text
    let text ← Tree.askM fun t => raising (t.text span)
    Tree.loadM r.format text r.name node r.limit
  | .file folder path =>
    match folder.read path with
    | .error message => fail (.unreadable r.format.text message path)
    | .ok text => Tree.loadM r.format text (some path) node r.limit

end

def Tree.load (format : Format) (text : Text) (name : Option Text) (node limit : Quantity) :
    Edit Unit := Tree.loadM format text name node limit

def Request.run (r : Request) (node : Quantity) : Edit Unit := r.runM node

theorem Tree.load_def (format : Format) (text : Text) (name : Option Text)
    (node limit : Quantity) :
    load format text name node limit = match format.parse text with
      | .error c => Edit.fail
          (.malformed format.text (format.explain c) (location name (format.place? c text)))
      | .ok value =>
        match format.presenter.present value with
        | .error e => Edit.fail (.interrupted e)
        | .ok source => store source node limit := rfl

theorem Request.run_def (r : Request) (node : Quantity) :
    r.run node = match r.origin with
      | .text text => Tree.load r.format text r.name node r.limit
      | .kept text => do
        let span ← Tree.copy text
        let text ← Edit.ask (·.text span)
        Tree.load r.format text r.name node r.limit
      | .file folder path =>
        match folder.read path with
        | .error message => Edit.fail (.unreadable r.format.text message path)
        | .ok text => Tree.load r.format text (some path) node r.limit := by
  have asked (span : Span) : (Tree.askM fun t => Failing.raising (t.text span) : Edit Text) =
      Edit.ask (·.text span) := by
    refine Tree.askM_eq fun t s => ?_
    cases t.text span <;> rfl
  unfold run runM
  cases r.origin with
  | text | file => rfl
  | kept text =>
    dsimp only
    simp only [asked]
    rfl

end SpanTree
