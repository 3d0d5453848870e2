import SpanTree.Call
import SpanTree.Proofs.Mirror

/-!
# The same work in two monads

Everything that is done to a tree is written once for all monads. If two monads have the same sense
of returning, of going on and of failing, then whatever is written for both has the same sense in
both.

* `Simulation`: what work in two monads has in common, kept by all that questions are made of;
* `Simulation.render`, `Simulation.reply`: so every question is the same in both;
* `Operation.Names`: a change is a single operation but for the form of the answer;
* `Editing.Simulation`: the same for changes, which are made of single operations that are called;
* `Editing.Simulation.operation`: so every operation is the same in both.
-/

namespace SpanTree

/-- A number of spaces is refused without a report. -/
theorem Layout.padding_unreported (layout : Layout) {depth : Nat} {f : Failure}
    (refused : layout.padding depth = .error f) : f.report? = none := by
  unfold padding at refused
  split at refused
  · cases refused
  split at refused
  · cases refused
  · cases refused
    rfl
  · dsimp only at refused
    split at refused
    · cases refused
      rfl
    · cases refused

/-- A relation between work in two monads that is kept by all that questions are made of. Work is
only given up for a failure that has nothing to report, or after it was reported. -/
structure Simulation (m n : Type → Type) [Monad m] [Monad n] [Failing m] [Failing n] where
  Of {α : Type} : m α → n α → Prop
  pure {α : Type} (a : α) : Of (pure a) (pure a)
  bind {α β : Type} {x : m α} {y : n α} {f : α → m β} {g : α → n β} :
    Of x y → (∀ a, Of (f a) (g a)) → Of (x >>= f) (y >>= g)
  fail {α : Type} (f : Failure) : Of (Failing.fail f : m α) (Failing.fail f)
  abort {α : Type} {f : Failure} : f.report? = none →
    Of (Failing.abort f : m α) (Failing.abort f)

namespace Simulation

section
variable {m n : Type → Type} [Monad m] [Monad n] [Failing m] [Failing n] (S : Simulation m n)

theorem raising {α : Type} {r : Except Failure α}
    (unreported : ∀ f, r = .error f → f.report? = none) :
    S.Of (Failing.raising r : m α) (Failing.raising r) := by
  cases r with
  | ok a => exact S.pure a
  | error f => exact S.abort (unreported f rfl)

/-- What an arena refuses is not reported. -/
theorem arena {α : Type} (r : Except ArenaFault α) :
    S.Of (Failing.raising (r.mapError Failure.arena) : m α)
      (Failing.raising (r.mapError Failure.arena)) := by
  cases r with
  | ok a => exact S.pure a
  | error fault => exact S.abort rfl

theorem text (t : Tree) (span : Span) :
    S.Of (Failing.raising (t.text span) : m Text) (Failing.raising (t.text span)) :=
  S.arena (t.arena.text span)

/-! ## Questions about one node -/

variable (t : Tree)

theorem node (id : Quantity) : S.Of (t.nodeM id : m Node) (t.nodeM id) := by
  unfold Tree.nodeM
  cases t.node? id with
  | some n => exact S.pure n
  | none => exact S.fail _

/-- A question about one field of a node. -/
theorem field {α : Type} (id : Quantity) (read : Node → α) :
    S.Of (do return read (← t.nodeM id) : m α) (do return read (← t.nodeM id)) :=
  S.bind (S.node t id) fun n => S.pure (read n)

theorem slotText {blank : Failure} (slot : Slot Span) :
    S.Of (t.slotTextM blank slot : m Text) (t.slotTextM blank slot) := by
  cases slot with
  | known span => exact S.text t span
  | blank => exact S.fail _
  | missing => exact S.abort rfl

theorem keyText (id : Quantity) : S.Of (t.keyTextM id : m Text) (t.keyTextM id) :=
  S.bind (S.field t id (·.key)) fun slot => S.slotText t slot

theorem valueText (id : Quantity) : S.Of (t.valueTextM id : m Text) (t.valueTextM id) :=
  S.bind (S.field t id (·.value)) fun slot => S.slotText t slot

/-! ## Questions about children -/

theorem childAt (id position : Quantity) :
    S.Of (t.childAtM id position : m (Option Nat)) (t.childAtM id position) :=
  S.field t id fun n => position.toNat?.bind (n.children[·]?)

theorem firstWithKey (key : Text) (children : List Nat) :
    S.Of (t.firstWithKeyM key children : m (Option Nat)) (t.firstWithKeyM key children) := by
  induction children with
  | nil => exact S.pure none
  | cons c rest ih =>
    refine S.bind (S.field t (.natural c) (·.key)) fun slot => ?_
    cases slot with
    | blank => exact ih
    | missing => exact S.abort rfl
    | known span =>
      refine S.bind (S.text t span) fun text => ?_
      split
      · exact S.pure (some c)
      · exact ih

theorem childWithKey (id : Quantity) (key : Text) :
    S.Of (t.childWithKeyM id key : m (Option Nat)) (t.childWithKeyM id key) :=
  S.bind (S.field t id (·.children)) fun children => S.firstWithKey t key children.toList

theorem step (id : Quantity) (s : Step) : S.Of (t.stepM id s : m Quantity) (t.stepM id s) := by
  have child : S.Of (t.childM id s : m (Option Nat)) (t.childM id s) := by
    cases s with
    | key key => exact S.childWithKey t id key
    | position position => exact S.childAt t id position
  refine S.bind child fun c => ?_
  cases c with
  | some c => exact S.pure _
  | none => exact S.fail _

theorem follow (id : Quantity) (path : List Step) :
    S.Of (t.followM id path : m Quantity) (t.followM id path) := by
  induction path generalizing id with
  | nil => exact S.pure id
  | cons s rest ih => exact S.bind (S.step t id s) ih

/-! ## A tree as JSON -/

theorem scalarText (n₀ : Node) : S.Of (t.scalarTextM n₀ : m Text) (t.scalarTextM n₀) := by
  unfold Tree.scalarTextM
  cases n₀.value with
  | blank => exact S.pure _
  | missing => exact S.abort rfl
  | known span =>
    refine S.bind (S.text t span) fun text => ?_
    split
    · exact S.pure _
    · split <;> exact S.pure _

theorem label (layout : Layout) (kind : Kind) (child : Nat) :
    S.Of (t.labelM layout kind child : m Text) (t.labelM layout kind child) := by
  unfold Tree.labelM
  split
  · exact S.bind (S.keyText t _) fun text => S.pure _
  · exact S.pure []

theorem padded (layout : Layout) (before after : Text) (depth : Nat) :
    S.Of (Failing.raising (layout.padded before after depth) : m Spaced)
      (Failing.raising (layout.padded before after depth)) := by
  refine S.raising fun f failed => ?_
  rw [Layout.padded] at failed
  cases padding : layout.padding depth with
  | ok count =>
    rw [padding] at failed
    change (if layout.admits _ then Except.ok _ else Except.error Failure.overlong) = _ at failed
    split at failed
    · cases failed
    · cases failed
      rfl
  | error g =>
    rw [padding] at failed
    cases failed
    exact layout.padding_unreported padding

theorem childPieces (layout : Layout) (kind : Kind) (depth : Nat) (comma : Text)
    (children : List Nat) : S.Of (t.childPiecesM layout kind depth comma children : m (List Piece))
      (t.childPiecesM layout kind depth comma children) := by
  induction children generalizing comma with
  | nil => exact S.pure []
  | cons child rest ih =>
    refine S.bind (S.label t layout kind child) fun label => ?_
    refine S.bind (S.padded layout comma label depth) fun before => ?_
    exact S.bind (ih [unit ',']) fun pieces => S.pure _

theorem expand (layout : Layout) (id : Quantity) (depth : Nat) :
    S.Of (t.expandM layout id depth : m (List Piece)) (t.expandM layout id depth) := by
  refine S.bind (S.node t id) fun n₀ => ?_
  cases n₀.kind with
  | unset => exact S.pure _
  | scalar => exact S.bind (S.scalarText t n₀) fun text => S.pure _
  | map | seq =>
    dsimp only
    split
    · exact S.pure _
    · refine S.bind (S.childPieces t layout _ (depth + 1) [] _) fun pieces => ?_
      exact S.bind (S.padded layout [] _ depth) fun last => S.pure _

theorem writePieces (layout : Layout) (fuel : Nat) (stack : List Piece) (out : List Spaced) :
    S.Of (t.writePiecesM layout fuel stack out : m (List Spaced))
      (t.writePiecesM layout fuel stack out) := by
  induction fuel, stack, out using Tree.walk_induction with
  | done fuel out => cases fuel <;> exact S.pure _
  | spent piece rest out => exact S.abort rfl
  | text fuel s rest out ih => exact ih
  | node fuel id depth rest out ih => exact S.bind (S.expand t layout id depth) ih

theorem render (layout : Layout) (id : Quantity) :
    S.Of (t.renderM layout id : m Text) (t.renderM layout id) := by
  refine S.bind (S.writePieces t layout _ _ _) fun parts => ?_
  split
  · exact S.pure _
  · exact S.abort rfl

/-- Every question is the same in both monads. -/
theorem reply (q : Question) : S.Of (q.replyM t : m Reply) (q.replyM t) := by
  cases q with
  | kind id => exact S.bind (S.field t id (·.kind)) fun _ => S.pure _
  | key id => exact S.bind (S.field t id (·.key)) fun _ => S.pure _
  | keyText id => exact S.bind (S.keyText t id) fun _ => S.pure _
  | value id => exact S.bind (S.field t id (·.value)) fun _ => S.pure _
  | valueText id => exact S.bind (S.valueText t id) fun _ => S.pure _
  | isFlagged id mask => exact S.bind (S.field t id _) fun _ => S.pure _
  | parent id => exact S.bind (S.field t id (·.parent)) fun _ => S.pure _
  | children id => exact S.bind (S.field t id (·.children)) fun _ => S.pure _
  | childAt id position => exact S.bind (S.childAt t id position) fun _ => S.pure _
  | childWithKey id name => exact S.bind (S.childWithKey t id name) fun _ => S.pure _
  | follow id path => exact S.bind (S.follow t id path) fun _ => S.pure _
  | text span => exact S.bind (S.text t span) fun _ => S.pure _
  | bytes span => exact S.bind (S.arena (t.arena.read span)) fun _ => S.pure _
  | rendered settings => exact S.bind (S.render t _ _) fun _ => S.pure _

end

end Simulation

/-! ## Changes -/

/-- Whether an operation is on a single node or on the arena alone, and calls no other one. -/
def Operation.isSingle : Operation → Bool
  | store _ _ _ | load _ _ => false
  | addChild _ | makeMap _ _ | makeSeq _ _ | makeScalar _ _ _ | flag _ _ => true
  | allocate _ | copy _ | write _ _ => true

/-- A change is the whole of a single operation but for the form of the answer. -/
def Operation.Names {α : Type} (o : Operation) (e : Edit α) : Prop :=
  o.isSingle = true ∧ ∃ answer : α → Answer, o.run = (do return answer (← e))

/-- Work in a monad that comes to changes of a tree: the insides of a single operation, and all that
is made of calls of such operations. -/
structure Editing.Simulation (m : Type → Type) [Monad m] [Editing m] where
  single : SpanTree.Simulation m Edit
  whole : SpanTree.Simulation m Edit
  single_get : single.Of (get : m Tree) get
  whole_get : whole.Of (get : m Tree) get
  modifyGet {α : Type} (f : Tree → α × Tree) : single.Of (modifyGet f : m α) (modifyGet f)
  called {α : Type} {o : Operation} {x : m α} {e : Edit α} :
    o.Names e → single.Of x e → whole.Of (Editing.called o x) e

namespace Editing.Simulation

variable {m : Type → Type} [Monad m] [Editing m] (S : Editing.Simulation m)

/-! ## Single operations -/

theorem single_ask {α : Type} {query : Tree → m α} {query' : Tree → Edit α}
    (h : ∀ t, S.single.Of (query t) (query' t)) :
    S.single.Of (Tree.askM query) (Tree.askM query') := S.single.bind S.single_get h

theorem whole_ask {α : Type} {query : Tree → m α} {query' : Tree → Edit α}
    (h : ∀ t, S.whole.Of (query t) (query' t)) :
    S.whole.Of (Tree.askM query) (Tree.askM query') := S.whole.bind S.whole_get h

theorem modify (f : Tree → Tree) : S.single.Of (modify f : m Unit) (modify f) :=
  S.modifyGet fun t => ((), f t)

theorem addChild (parent : Quantity) :
    S.whole.Of (Tree.addChildM parent : m Nat) (Tree.addChildM parent) := by
  refine S.called ⟨rfl, .node, rfl⟩ ?_
  refine S.single.bind (S.single_ask fun t => S.single.field t parent (·.kind)) fun kind => ?_
  split
  · exact S.modifyGet _
  · exact S.single.bind (S.single.fail _) fun _ => S.modifyGet _

theorem makeContainer (wanted : Kind) (id : Quantity) (key : Slot Span) :
    S.single.Of (Tree.makeContainerM wanted id key : m Unit)
      (Tree.makeContainerM wanted id key) := by
  refine S.single.bind (S.single_ask fun t => S.single.node t id) fun n => ?_
  split
  · exact S.single.bind (S.single.fail _) fun _ => S.modify _
  · exact S.modify _

theorem makeMap (id : Quantity) (key : Slot Span) :
    S.whole.Of (Tree.makeMapM id key : m Unit) (Tree.makeMapM id key) :=
  S.called ⟨rfl, fun _ => .done, rfl⟩ (S.makeContainer .map id key)

theorem makeSeq (id : Quantity) (key : Slot Span) :
    S.whole.Of (Tree.makeSeqM id key : m Unit) (Tree.makeSeqM id key) :=
  S.called ⟨rfl, fun _ => .done, rfl⟩ (S.makeContainer .seq id key)

theorem makeScalar (id : Quantity) (key value : Slot Span) :
    S.whole.Of (Tree.makeScalarM id key value : m Unit) (Tree.makeScalarM id key value) := by
  refine S.called ⟨rfl, fun _ => .done, rfl⟩ ?_
  refine S.single.bind (S.single_ask fun t => S.single.node t id) fun n => ?_
  split
  · exact S.single.bind (S.single.fail _) fun _ => S.modify _
  · exact S.modify _

theorem flag (id : Quantity) (flags : BitVec 32) :
    S.single.Of (Tree.flagM id flags : m Unit) (Tree.flagM id flags) :=
  S.single.bind (S.single_ask fun t => S.single.node t id) fun _ => S.modify _

theorem onArena {α : Type} (work : Arena → Except ArenaFault α × Arena) :
    S.single.Of (Tree.onArenaM work : m α) (Tree.onArenaM work) := by
  refine S.single.bind (S.modifyGet _) fun result => ?_
  cases result with
  | ok a => exact S.single.pure a
  | error fault => exact S.single.abort rfl

theorem allocate (size : Quantity) :
    S.whole.Of (Tree.allocateM size : m Span) (Tree.allocateM size) :=
  S.called ⟨rfl, .span, rfl⟩ (S.onArena _)

theorem copy (text : Text) : S.whole.Of (Tree.copyM text : m Span) (Tree.copyM text) :=
  S.called ⟨rfl, .span, rfl⟩ (S.onArena _)

theorem write (span : Span) (bytes : List UInt8) :
    S.whole.Of (Tree.writeM span bytes : m Unit) (Tree.writeM span bytes) :=
  S.called ⟨rfl, fun _ => .done, rfl⟩ (S.onArena _)

/-! ## Storing and loading -/

theorem addMembers (node : Quantity) (keys : List Text) :
    S.whole.Of (Tree.addMembersM node keys : m Unit) (Tree.addMembersM node keys) := by
  induction keys with
  | nil => exact S.whole.pure ()
  | cons key rest ih =>
    refine S.whole.bind (S.addChild node) fun child => ?_
    refine S.whole.bind (S.copy key) fun span => ?_
    exact S.whole.bind (S.makeScalar _ _ _) fun _ => ih

theorem addItems (node : Quantity) (count : Nat) :
    S.whole.Of (Tree.addItemsM node count : m Unit) (Tree.addItemsM node count) := by
  induction count with
  | zero => exact S.whole.pure ()
  | succ count ih => exact S.whole.bind (S.addChild node) fun _ => ih

theorem finish (ending : Ending) :
    S.whole.Of (Tree.finishM ending : m Unit) (Tree.finishM ending) := by
  cases ending with
  | complete => exact S.whole.pure ()
  | broken error => exact S.whole.abort rfl

theorem askKey (node : Quantity) :
    S.whole.Of (Tree.askM (·.keyM node) : m (Slot Span)) (Tree.askM (·.keyM node)) :=
  S.whole_ask fun t => S.whole.field t node (·.key)

theorem askSize : S.whole.Of (Tree.askM fun t => pure t.size : m Nat)
    (Tree.askM fun t => pure t.size) := S.whole_ask fun t => S.whole.pure t.size

theorem putScalar (node : Quantity) (value : Scalar) :
    S.whole.Of (Tree.putScalarM node value : m Unit) (Tree.putScalarM node value) := by
  refine S.whole.bind (S.copy value.text) fun span => ?_
  refine S.whole.bind (S.askKey node) fun key => ?_
  refine S.whole.bind (S.makeScalar _ _ _) fun _ => ?_
  split
  · refine S.called ⟨rfl, fun _ => .done, ?_⟩ (S.flag node _)
    -- The flag of a quoted value is the number one.
    have one : (Binary64.ofNat 1).toInt32 = Node.quotedFlag := by decide +kernel
    rw [← one]
    rfl
  · exact S.whole.pure ()

theorem put (node : Quantity) (value : Source) :
    S.whole.Of (Tree.putM node value : m Nat) (Tree.putM node value) := by
  cases value with
  | table members ending =>
    refine S.whole.bind (S.askKey node) fun key => ?_
    refine S.whole.bind (S.makeMap node key) fun _ => ?_
    refine S.whole.bind S.askSize fun first => ?_
    refine S.whole.bind (S.addMembers node _) fun _ => ?_
    exact S.whole.bind (S.finish ending) fun _ => S.whole.pure first
  | array items ending =>
    refine S.whole.bind (S.askKey node) fun key => ?_
    refine S.whole.bind (S.makeSeq node key) fun _ => ?_
    refine S.whole.bind S.askSize fun first => ?_
    refine S.whole.bind (S.addItems node _) fun _ => ?_
    exact S.whole.bind (S.finish ending) fun _ => S.whole.pure first
  | scalar value => exact S.whole.bind (S.putScalar node value) fun _ => S.whole.pure 0
  | unsupported | unknown => exact S.whole.fail _
  | absent => exact S.whole.abort rfl

theorem writeAll (limit : Quantity) (stack : List Pending) :
    S.whole.Of (Tree.writeAllM limit stack : m Unit) (Tree.writeAllM limit stack) := by
  induction stack using Pending.stack_induction with
  | nil =>
    rw [Tree.writeAllM, Tree.writeAllM]
    exact S.whole.pure ()
  | cons item rest ih =>
    rw [Tree.writeAllM, Tree.writeAllM]
    have later := S.whole.bind (S.put item.node item.value) ih
    split
    · exact S.whole.bind (S.whole.fail _) fun _ => later
    · exact later

theorem store (value : Source) (node limit : Quantity) :
    S.whole.Of (Tree.storeM value node limit : m Unit) (Tree.storeM value node limit) :=
  S.writeAll limit _

theorem load (format : Format) (text : Text) (name : Option Text) (node limit : Quantity) :
    S.whole.Of (Tree.loadM format text name node limit : m Unit)
      (Tree.loadM format text name node limit) := by
  unfold Tree.loadM
  cases format.parse text with
  | error c => exact S.whole.fail _
  | ok value =>
    dsimp only
    cases format.presenter.present value with
    | error e => exact S.whole.abort rfl
    | ok source => exact S.store source node limit

theorem request (r : Request) (node : Quantity) :
    S.whole.Of (r.runM node : m Unit) (r.runM node) := by
  unfold Request.runM
  cases r.origin with
  | text text => exact S.load _ _ _ _ _
  | kept text =>
    refine S.whole.bind (S.copy text) fun span => ?_
    refine S.whole.bind (S.whole_ask fun t => S.whole.text t span) fun text => ?_
    exact S.load _ _ _ _ _
  | file folder path =>
    dsimp only
    cases folder.read path with
    | error message => exact S.whole.fail _
    | ok text => exact S.load _ _ _ _ _

/-- Every operation is the same in the monad. -/
theorem operation (o : Operation) : S.whole.Of (o.runM : m Answer) o.run := by
  cases o with
  | addChild parent => exact S.whole.bind (S.addChild parent) fun _ => S.whole.pure _
  | makeMap id key => exact S.whole.bind (S.makeMap id key) fun _ => S.whole.pure _
  | makeSeq id key => exact S.whole.bind (S.makeSeq id key) fun _ => S.whole.pure _
  | makeScalar id key value =>
    exact S.whole.bind (S.makeScalar id key value) fun _ => S.whole.pure _
  | flag id mask =>
    refine S.whole.bind ?_ fun _ => S.whole.pure _
    exact S.called ⟨rfl, fun _ => .done, rfl⟩ (S.flag id mask.toInt32)
  | allocate size => exact S.whole.bind (S.allocate size) fun _ => S.whole.pure _
  | copy text => exact S.whole.bind (S.copy text) fun _ => S.whole.pure _
  | write span bytes => exact S.whole.bind (S.write span bytes) fun _ => S.whole.pure _
  | store value node limit => exact S.whole.bind (S.store value node limit) fun _ => S.whole.pure _
  | load request node => exact S.whole.bind (S.request request node) fun _ => S.whole.pure _

end Editing.Simulation

end SpanTree
