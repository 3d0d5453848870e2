import SpanTree.Document
import SpanTree.Tree.Render

/-!
# Settings

Callers leave settings out, give them, or clear them. A setting left out has its default; a cleared
one has no value, default or not, and each place that uses it says what it does without.

* `Setting.orDefault`: the value of a setting under a default;
* `TreeSettings`, `StoreSettings`, `LoadSettings`, `RenderSettings`, `PresenterSettings`: the
  settings of each operation, with their defaults and with what they mean.
-/

namespace SpanTree

/-- A setting as a caller gives it. -/
inductive Setting (α : Type) where
  | omitted
  | cleared
  | given (value : α)

def Setting.orDefault {α : Type} (s : Setting α) (default : Option α) : Option α :=
  match s with
  | omitted => default
  | cleared => none
  | given a => some a

def defaultDepth : Binary64 := Tree.defaultLimit.toBinary64

/-- A cleared number counts as a NaN, which limits nothing. -/
def limitOf (depth : Option Binary64) : Quantity := .ofBinary64 (depth.getD .nan)

/-- A node by its number, the root where none is named. -/
def nodeOf (node : Option Binary64) : Quantity := (node.map .ofBinary64).getD (.natural 0)

structure TreeSettings where
  handler : Setting Handler := .omitted
  capacity : Setting Binary64 := .omitted

namespace TreeSettings

/-- The handler; a tree whose handler was cleared has none. -/
def handler? (s : TreeSettings) : Option Handler := s.handler.orDefault (some Report.raise)

def capacity? (s : TreeSettings) : Option Binary64 :=
  s.capacity.orDefault (some (.ofNat Arena.defaultCapacity))

/-- A new tree; without a number, its arena has the usual size. -/
def tree (s : TreeSettings) : Except ArenaFault Tree :=
  Tree.create (s.capacity?.getD (.ofNat Arena.defaultCapacity))

end TreeSettings

structure StoreSettings where
  depth : Setting Binary64 := .omitted

namespace StoreSettings

/-- How many levels a value may reach below its node. -/
def depth? (s : StoreSettings) : Option Binary64 := s.depth.orDefault (some defaultDepth)

def limit (s : StoreSettings) : Quantity := limitOf s.depth?

end StoreSettings

structure LoadSettings where
  name : Setting Text := .omitted
  node : Setting Binary64 := .omitted
  depth : Setting Binary64 := .omitted
  handler : Setting Handler := .omitted

namespace LoadSettings

/-- The name of the document in reports, if it has one. -/
def name? (s : LoadSettings) : Option Text := s.name.orDefault none

/-- The node that the document goes to, if one is named. -/
def node? (s : LoadSettings) : Option Binary64 := s.node.orDefault none

/-- How many levels a document may reach below its node. -/
def depth? (s : LoadSettings) : Option Binary64 := s.depth.orDefault (some defaultDepth)

def handler? (s : LoadSettings) : Option Handler := s.handler.orDefault none

def target (s : LoadSettings) : Quantity := nodeOf s.node?

/-- The handler of a tree made for a document; a cleared one makes way for the usual one. -/
def newHandler (s : LoadSettings) : Handler := s.handler?.getD Report.raise

def request (s : LoadSettings) (format : Format) (origin : Origin) : Request :=
  { format, origin, name := s.name?, limit := limitOf s.depth? }

end LoadSettings

structure RenderSettings where
  node : Setting Binary64 := .omitted
  indent : Setting Binary64 := .omitted

namespace RenderSettings

def node? (s : RenderSettings) : Option Binary64 := s.node.orDefault none

def indent? (s : RenderSettings) : Option Binary64 := s.indent.orDefault (some (.ofNat 2))

/-- The greatest length of a text. -/
def longestText : Nat := 536870888

/-- The layout; a cleared number of spaces counts as a NaN, which is no spaces. -/
def layout (s : RenderSettings) : Layout := ⟨.ofBinary64 (s.indent?.getD .nan), some longestText⟩

@[specialize] def renderM {m : Type → Type} [Monad m] [Failing m] (s : RenderSettings)
    (t : Tree) : m Text :=
  t.renderM s.layout (nodeOf s.node?)

def render (s : RenderSettings) (t : Tree) : Except Failure Text := s.renderM t

theorem render_def (s : RenderSettings) (t : Tree) :
    s.render t = t.render s.layout (nodeOf s.node?) := rfl

end RenderSettings

structure PresenterSettings where
  takesNull : Setting Bool := .omitted
  classify : Setting Classifier := .omitted

namespace PresenterSettings

def takesNull? (s : PresenterSettings) : Option Bool := s.takesNull.orDefault (some false)

def classify? (s : PresenterSettings) : Option Classifier :=
  s.classify.orDefault (some Classifier.uniform)

/-- The presenter; without a classifier, a date ends in an error of type. -/
def presenter (s : PresenterSettings) : Presenter :=
  { takesNull := s.takesNull?.getD false, classify := s.classify?.getD fun _ => .error .type }

end PresenterSettings

end SpanTree
