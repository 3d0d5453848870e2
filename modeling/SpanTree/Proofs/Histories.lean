import SpanTree.Operation
import SpanTree.Proofs.Change
import SpanTree.Proofs.Mirror
import SpanTree.Proofs.Ranges

/-!
# Histories

Every operation is made of a few changes, so what these keep is kept by every history.

* `Tree.Lasting`: a property that each single change keeps, whether or not it succeeds;
* `Lasting.run`, `Lasting.after`, `Lasting.reachable`: every operation and every history keeps it;
* `lasting_arena`: what every change of an arena keeps;
* `after_buffer`: an arena whose buffer holds a byte never loses it, and only a tree that was made
  for a NaN of bytes has none.
-/

namespace SpanTree

namespace Edit

variable {α : Type} {handler : Option Handler} {e : Edit α} {t t' : Tree}

theorem perform_ok {a : α} (h : e t = (.ok a, t')) :
    e.perform handler t = ⟨t', [], .ok a, true⟩ := by
  rw [perform, h]

theorem perform_error {f : Failure} (h : e t = (.error f, t')) :
    e.perform handler t = ⟨t', f.reports handler, .error (f.raised handler), f.ends⟩ := by
  rw [perform, h]

/-- A failure with a report is reported once and raised as the handler answers the report. -/
theorem perform_reported {handler : Handler} {f : Failure} {report : Report}
    (h : e t = (.error f, t')) (reported : f.report? = some report) :
    e.perform (some handler) t = ⟨t', [report], .error (report.deliver handler), true⟩ := by
  rw [perform_error h, Failure.ends_of_report reported]
  simp only [Failure.reports, Failure.raised, reported, Option.toList]

end Edit

/-- A property of trees that every single change keeps, whether or not it succeeds. -/
structure Tree.Lasting (P : Tree → Prop) : Prop where
  addChild : ∀ parent, Edit.Keeps P (Tree.addChild parent)
  makeMap : ∀ id key, Edit.Keeps P (Tree.makeMap id key)
  makeSeq : ∀ id key, Edit.Keeps P (Tree.makeSeq id key)
  makeScalar : ∀ id key value, Edit.Keeps P (Tree.makeScalar id key value)
  flag : ∀ id flags, Edit.Keeps P (Tree.flag id flags)
  allocate : ∀ size, Edit.Keeps P (Tree.allocate size)
  copy : ∀ text, Edit.Keeps P (Tree.copy text)
  write : ∀ span bytes, Edit.Keeps P (Tree.write span bytes)

namespace Tree.Lasting

variable {P : Tree → Prop}

theorem addMembers (h : Lasting P) (node : Quantity) (keys : List Text) :
    Edit.Keeps P (Tree.addMembers node keys) := by
  induction keys with
  | nil => exact Edit.keeps_pure ()
  | cons key rest ih =>
    refine Edit.Keeps.bind (h.addChild node) fun child => ?_
    refine Edit.Keeps.bind (h.copy key) fun span => ?_
    exact (h.makeScalar _ _ _).bind fun _ => ih

theorem addItems (h : Lasting P) (node : Quantity) (count : Nat) :
    Edit.Keeps P (Tree.addItems node count) := by
  induction count with
  | zero => exact Edit.keeps_pure ()
  | succ count ih => exact (h.addChild node).bind fun _ => ih

theorem finish (ending : Ending) : Edit.Keeps P (Tree.finish ending) := by
  cases ending with
  | complete => exact Edit.keeps_pure ()
  | broken error => exact Edit.keeps_fail _

theorem putScalar (h : Lasting P) (node : Quantity) (value : Scalar) :
    Edit.Keeps P (Tree.putScalar node value) := by
  rw [Tree.putScalar_def]
  refine Edit.Keeps.bind (h.copy value.text) fun span => ?_
  refine Edit.Keeps.bind (Edit.keeps_ask _) fun key => ?_
  refine Edit.Keeps.bind (h.makeScalar _ _ _) fun _ => ?_
  split
  · exact h.flag _ _
  · exact Edit.keeps_pure ()

theorem put (h : Lasting P) (node : Quantity) (value : Source) :
    Edit.Keeps P (Tree.put node value) := by
  cases value with
  | table members ending =>
    rw [Tree.put_table]
    refine Edit.Keeps.bind (Edit.keeps_ask _) fun key => ?_
    refine Edit.Keeps.bind (h.makeMap _ _) fun _ => ?_
    refine Edit.Keeps.bind (Edit.keeps_ask _) fun first => ?_
    refine Edit.Keeps.bind (h.addMembers _ _) fun _ => ?_
    exact Edit.Keeps.bind (finish ending) fun _ => Edit.keeps_pure first
  | array items ending =>
    rw [Tree.put_array]
    refine Edit.Keeps.bind (Edit.keeps_ask _) fun key => ?_
    refine Edit.Keeps.bind (h.makeSeq _ _) fun _ => ?_
    refine Edit.Keeps.bind (Edit.keeps_ask _) fun first => ?_
    refine Edit.Keeps.bind (h.addItems _ _) fun _ => ?_
    exact Edit.Keeps.bind (finish ending) fun _ => Edit.keeps_pure first
  | scalar value => exact (h.putScalar _ _).bind fun _ => Edit.keeps_pure 0
  | unsupported | unknown | absent => exact Edit.keeps_fail _

theorem writeAll (h : Lasting P) (limit : Quantity) (stack : List Pending) :
    Edit.Keeps P (Tree.writeAll limit stack) := by
  induction stack using Pending.stack_induction with
  | nil =>
    rw [Tree.writeAll_nil]
    exact Edit.keeps_pure ()
  | cons item rest ih =>
    intro t ht
    rw [Tree.writeAll_def]
    split
    · exact ht
    · have hput := h.put item.node item.value t ht
      cases hr : Tree.put item.node item.value t with | mk r t' =>
      rw [hr] at hput
      cases r with
      | error f => exact hput
      | ok first => exact ih first t' hput

theorem load (h : Lasting P) (format : Format) (text : Text) (name : Option Text)
    (node limit : Quantity) : Edit.Keeps P (Tree.load format text name node limit) := by
  rw [Tree.load_def]
  split
  · exact Edit.keeps_fail _
  · split
    · exact Edit.keeps_fail _
    · exact h.writeAll _ _

theorem request (h : Lasting P) (r : Request) (node : Quantity) :
    Edit.Keeps P (r.run node) := by
  rw [Request.run_def]
  split
  · exact h.load _ _ _ _ _
  · refine Edit.Keeps.bind (h.copy _) fun span => ?_
    refine Edit.Keeps.bind (Edit.keeps_ask _) fun text => ?_
    exact h.load _ _ _ _ _
  · split
    · exact Edit.keeps_fail _
    · exact h.load _ _ _ _ _

/-- What every single change keeps is kept by every operation. -/
theorem run (h : Lasting P) (o : Operation) : Edit.Keeps P o.run := by
  cases o with
  | addChild parent => exact (h.addChild _).bind fun _ => Edit.keeps_pure _
  | makeMap id key => exact (h.makeMap _ _).bind fun _ => Edit.keeps_pure _
  | makeSeq id key => exact (h.makeSeq _ _).bind fun _ => Edit.keeps_pure _
  | makeScalar id key value => exact (h.makeScalar _ _ _).bind fun _ => Edit.keeps_pure _
  | flag id mask => exact (h.flag _ _).bind fun _ => Edit.keeps_pure _
  | allocate size => exact (h.allocate _).bind fun _ => Edit.keeps_pure _
  | copy text => exact (h.copy _).bind fun _ => Edit.keeps_pure _
  | write span bytes => exact (h.write _ _).bind fun _ => Edit.keeps_pure _
  | store value node limit => exact (h.writeAll _ _).bind fun _ => Edit.keeps_pure _
  | load request node => exact (h.request _ _).bind fun _ => Edit.keeps_pure _

theorem after (h : Lasting P) {t : Tree} (ht : P t) (history : List Operation) :
    P (t.after history) := by
  induction history generalizing t with
  | nil => exact ht
  | cons o rest ih => exact ih (h.run o t ht)

/-- What a new tree has and every single change keeps, every reachable tree has. -/
theorem reachable (h : Lasting P)
    (start : ∀ capacity t, Tree.create capacity = .ok t → P t) {t : Tree}
    (ht : t.Reachable) : P t := by
  induction ht with
  | new hc => exact start _ _ hc
  | step _ o ih => exact h.run o _ ih

end Tree.Lasting

namespace Tree

/-- What is done to a reachable tree leads to another one. -/
theorem Reachable.after {t : Tree} (h : t.Reachable) (history : List Operation) :
    (t.after history).Reachable := by
  induction history generalizing t with
  | nil => exact h
  | cons o rest ih => exact ih (h.step o)

/-! ## Buffers -/

theorem onArena_arena {α : Type} (work : Arena → Except ArenaFault α × Arena) (t : Tree) :
    (Edit.onArena work t).2.arena = (work t.arena).2 := by
  cases t with | mk arena nodes =>
  unfold Edit.onArena
  dsimp only
  split <;> next h => rw [h]

theorem revise_arena (id : Quantity) (change : Node → Except Failure Node) (t : Tree) :
    (revise id change t).2.arena = t.arena := by
  unfold revise
  split
  · rfl
  · split
    · rfl
    · split <;> rfl

theorem addChild_arena (parent : Quantity) (t : Tree) :
    (addChild parent t).2.arena = t.arena := by
  rcases addChild_result parent t with ⟨f, failed⟩ | ⟨_, _, _, _, _, done⟩
  · rw [failed]
  · rw [done]
    rfl

/-- What every change of an arena keeps, every change of a tree keeps of its arena. -/
theorem lasting_arena {P : Arena → Prop} (allocate : ∀ size a, P a → P (a.allocate size).2)
    (copy : ∀ text a, P a → P (a.copy text).2)
    (write : ∀ span new a, P a → P (a.write span new).2) : Lasting fun t => P t.arena := by
  have revise {e : Edit Unit} {id : Quantity} {change : Node → Except Failure Node}
      (same : e = revise id change) : Edit.Keeps (fun t => P t.arena) e := by
    intro t h
    rwa [same, revise_arena]
  refine ⟨?_, fun id key => revise (makeContainer_eq_revise .map id key),
    fun id key => revise (makeContainer_eq_revise .seq id key),
    fun id key value => revise (makeScalar_eq_revise id key value),
    fun id flags => revise (flag_eq_revise id flags), ?_, ?_, ?_⟩
  · intro parent t h
    rwa [addChild_arena]
  · intro size t h
    rw [allocate_eq_onArena, onArena_arena]
    exact allocate size _ h
  · intro text t h
    rw [copy_eq_onArena, onArena_arena]
    exact copy text _ h
  · intro span new t h
    rw [write_eq_onArena, onArena_arena]
    exact write span new _ h

theorem lasting_buffer : Lasting (0 < ·.arena.capacity) :=
  lasting_arena (P := (0 < ·.capacity))
    (fun size a h => Nat.lt_of_lt_of_le h (Arena.capacity_le_allocate size a))
    (fun text a h => Nat.lt_of_lt_of_le h (Arena.capacity_le_copy text a))
    (fun span new a h => Nat.lt_of_lt_of_eq h (Arena.capacity_write span new a).symm)

/-- A tree is made over an arena that was made for as many bytes. -/
theorem create_inv {capacity : Binary64} {t : Tree} (created : create capacity = .ok t) :
    ∃ a, Arena.create capacity = .ok a ∧ t = ofArena a := by
  unfold create at created
  cases made : Arena.create capacity with
  | error fault =>
    rw [made] at created
    cases created
  | ok a =>
    rw [made] at created
    cases created
    exact ⟨a, rfl, rfl⟩

theorem create_infinite : create (.infinite true) = .ok (ofArena (.empty 1)) := rfl

/-- The arena of a tree that was made for a number of bytes has a buffer for good. -/
theorem after_buffer {capacity : Binary64} (number : capacity ≠ .nan) {t : Tree}
    (created : create capacity = .ok t) (history : List Operation) :
    0 < (t.after history).arena.capacity := by
  apply lasting_buffer.after
  obtain ⟨a, made, rfl⟩ := create_inv created
  exact Arena.create_buffer number made

end Tree

end SpanTree
