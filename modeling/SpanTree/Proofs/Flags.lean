import Mathlib.Algebra.Ring.Int.Defs
import SpanTree.Proofs.Journals
import SpanTree.Proofs.Recursion
import SpanTree.Proofs.Rounding
import SpanTree.Proofs.Succession

/-!
# Flags

The flags of a node are, bit by bit, what was added to them since the node was last given a kind.

* `Binary64.HasBit`: the bits of a mask, whatever number it is;
* `Operation.Sets`, `Operation.Reassigns`: operations that add a bit to the flags of a node, and
  that give the node another kind;
* `SetSince`: a bit was added, and the node was given no other kind since;
* `Tree.flagsOf`, `flagsOf_run`: the flags of a node, and what one call makes of them;
* `Replays.flagsOf_iff`: what all calls of a journal make of them;
* `flagged_since`: so a tree answers for a mask what the journal of its history says.
-/

namespace SpanTree

/-! ## Bits -/

/-- The bits of a number that is read as a 32-bit word: those of its whole part modulo 2³², and none
where there is no whole part. -/
def Binary64.HasBit (x : Binary64) (k : Nat) : Prop :=
  ∃ whole : Int, x.truncate = some whole ∧ (whole % 2 ^ 32).toNat.testBit k = true

theorem Binary64.getLsbD_toInt32 {x : Binary64} {k : Nat} :
    x.toInt32.getLsbD k = true ↔ x.HasBit k := by
  unfold toInt32 HasBit
  cases x.truncate with
  | none =>
    have none : (BitVec.ofInt 32 0).getLsbD k = false := BitVec.getLsbD_zero
    rw [Option.getD_none, none]
    exact ⟨nofun, nofun⟩
  | some whole =>
    rw [Option.getD_some, ← BitVec.testBit_toNat, BitVec.toNat_ofInt]
    exact ⟨fun bit => ⟨whole, rfl, bit⟩, fun ⟨_, same, bit⟩ => Option.some.inj same ▸ bit⟩

/-- A word has all bits of another one if none of these is lost where the two are met. -/
theorem and_eq_iff_getLsbD {w : Nat} {flags mask : BitVec w} :
    flags &&& mask = mask ↔ ∀ k, mask.getLsbD k = true → flags.getLsbD k = true := by
  constructor
  · intro met k bit
    rw [← met, BitVec.getLsbD_and, Bool.and_eq_true] at bit
    exact bit.1
  · intro bits
    refine BitVec.eq_of_getLsbD_eq fun k _ => ?_
    rw [BitVec.getLsbD_and]
    cases bit : mask.getLsbD k with
    | false => exact Bool.and_false _
    | true => rw [bits k bit, Bool.and_true]

/-! ## Calls -/

namespace Operation

/-- Whether an operation adds a mask with the bit to the flags of a node. -/
def Sets (id k : Nat) : Operation → Prop
  | flag i mask => i = .natural id ∧ mask.HasBit k
  | _ => False

def Reassigns (id : Nat) : Operation → Prop
  | makeMap i _ | makeSeq i _ | makeScalar i _ _ => i = .natural id
  | _ => False

/-- What an operation on a node makes of its flags if it succeeds. -/
def reflag (flags : BitVec 32) : Operation → BitVec 32
  | makeMap _ _ | makeSeq _ _ | makeScalar _ _ _ => 0#32
  | flag _ mask => flags ||| mask.toInt32
  | _ => flags

end Operation

/-- No call gave the node another kind. -/
def Undisturbed (events : List Event) (id : Nat) : Prop :=
  ∀ o, ⟨o, true⟩ ∈ events → ¬ o.Reassigns id

/-- A call added a mask with the bit to the flags of the node, and no later call gave the node
another kind. -/
def SetSince (events : List Event) (id k : Nat) : Prop :=
  ∃ before o after, events = before ++ ⟨o, true⟩ :: after ∧ o.Sets id k ∧ Undisturbed after id

section
variable {o : Operation} {succeeded : Bool} {events : List Event} {id k : Nat}

theorem not_setSince_nil : ¬ SetSince [] id k := by
  rintro ⟨before, o, after, split, _⟩
  cases before <;> cases split

theorem setSince_cons : SetSince (⟨o, succeeded⟩ :: events) id k ↔
    SetSince events id k ∨ (succeeded = true ∧ o.Sets id k) ∧ Undisturbed events id := by
  constructor
  · rintro ⟨before, o, after, split, sets, undisturbed⟩
    cases before with
    | nil =>
      cases split
      exact .inr ⟨⟨rfl, sets⟩, undisturbed⟩
    | cons first before =>
      cases split
      exact .inl ⟨before, o, after, rfl, sets, undisturbed⟩
  · rintro (⟨before, o', after, rfl, sets, undisturbed⟩ | ⟨⟨rfl, sets⟩, undisturbed⟩)
    · exact ⟨⟨o, succeeded⟩ :: before, o', after, rfl, sets, undisturbed⟩
    · exact ⟨[], o, events, rfl, sets, undisturbed⟩

theorem undisturbed_cons : Undisturbed (⟨o, succeeded⟩ :: events) id ↔
    ¬ (succeeded = true ∧ o.Reassigns id) ∧ Undisturbed events id := by
  constructor
  · intro h
    refine ⟨?_, fun o' mem => h o' (.tail _ mem)⟩
    rintro ⟨rfl, reassigns⟩
    exact h o (.head _) reassigns
  · rintro ⟨first, later⟩ o' mem
    cases mem with
    | head => exact fun reassigns => first ⟨rfl, reassigns⟩
    | tail _ mem => exact later o' mem

end

/-! ## The flags of a node -/

namespace Tree

variable {t t' : Tree} {i id : Nat} {n n' : Node} {o : Operation}

/-- The flags of a node, none where there is no such node. -/
def flagsOf (t : Tree) (id : Nat) : BitVec 32 := t.nodes[id]?.elim 0#32 (·.flags)

theorem flagsOf_eq (found : t.nodes[id]? = some n) : t.flagsOf id = n.flags := by
  rw [flagsOf, found]
  rfl

theorem flagsOf_none (nowhere : t.nodes[id]? = none) : t.flagsOf id = 0#32 := by
  rw [flagsOf, nowhere]
  rfl

theorem flagsOf_create {capacity : Binary64} (created : create capacity = .ok t) (id : Nat) :
    t.flagsOf id = 0#32 := by
  obtain ⟨a, _, rfl⟩ := create_inv created
  cases found : (ofArena a).nodes[id]? with
  | none => exact flagsOf_none found
  | some n =>
    rw [flagsOf_eq found, (ofArena_only found).2]
    rfl

theorem flagsOf_withNode (found : t.nodes[i]? = some n) :
    (t.withNode i n').flagsOf id = if i = id then n'.flags else t.flagsOf id := by
  split
  · next same => rw [← same, flagsOf_eq (withNode_self (lt_size found))]
  · next other => rw [flagsOf, withNode_other (Ne.symm other), ← flagsOf]

/-- A new node has no flags, as if it had not been there. -/
theorem flagsOf_withChild (found : t.nodes[i]? = some n) :
    (t.withChild i).flagsOf id = t.flagsOf id := by
  cases there : (t.withChild i).nodes[id]? with
  | none =>
    have outside : t.size + 1 ≤ id := by
      rw [← withChild_size]
      exact Array.getElem?_eq_none_iff.1 there
    have nowhere : t.nodes[id]? = none := Array.getElem?_eq_none_iff.2 (Nat.le_of_succ_le outside)
    rw [flagsOf_none there, flagsOf_none nowhere]
  | some m =>
    rw [flagsOf_eq there]
    rcases withChild_cases found there with ⟨rfl, rfl⟩ | ⟨rfl, rfl⟩ | ⟨_, old⟩
    · exact (flagsOf_none (Array.getElem?_eq_none_iff.2 (Nat.le_refl _))).symm
    · exact (flagsOf_eq found).symm
    · exact (flagsOf_eq old).symm

/-! ## One call -/

theorem flagsOf_revise {e : Edit Unit} {i : Quantity} {change : Node → Except Failure Node}
    (names : o.Names e) (same : e = revise i change) (target : o.target? = some i)
    (reflags : ∀ n n', change n = .ok n' → n'.flags = o.reflag n.flags) (t : Tree) (id : Nat) :
    (o.run t).2.flagsOf id = if (o.run t).1.isOk ∧ o.target? = some (.natural id) then
      o.reflag (t.flagsOf id) else t.flagsOf id := by
  rw [(names.run t).1, (names.run t).2, target, same]
  rcases revise_result i change t with ⟨f, failed⟩ | ⟨j, n, n', rfl, found, changed, done⟩
  · rw [failed]
    exact (if_neg fun ⟨succeeded, _⟩ => nomatch succeeded).symm
  · rw [done]
    dsimp only
    rw [flagsOf_withNode found, reflags n n' changed]
    by_cases here : j = id
    · subst here
      rw [if_pos rfl, if_pos ⟨rfl, rfl⟩, flagsOf_eq found]
    · rw [if_neg here, if_neg]
      rintro ⟨_, ⟨⟩⟩
      exact here rfl

theorem flagsOf_onArena {α : Type} {e : Edit α} {work : Arena → Except ArenaFault α × Arena}
    (names : o.Names e) (same : e = Edit.onArena work) (target : o.target? = none) (t : Tree)
    (id : Nat) : (o.run t).2.flagsOf id =
      if (o.run t).1.isOk ∧ o.target? = some (.natural id) then o.reflag (t.flagsOf id)
      else t.flagsOf id := by
  rw [target, if_neg (fun ⟨_, here⟩ => nomatch here), (names.run t).2, same, flagsOf,
    onArena_nodes, flagsOf]

/-- A node that is given a kind loses its flags. -/
theorem flags_reassigned {refused : Prop} [Decidable refused] {f : Failure} {n n' : Node}
    {kind : Kind} {key value : Slot Span}
    (changed : (if refused then .error f else .ok (n.reassigned kind key value) :
      Except Failure Node) = .ok n') :
    n'.flags = 0 := by
  split at changed
  · cases changed
  · cases changed
    rfl

/-- A call changes the flags of a node only if it is on the node and succeeds. -/
theorem flagsOf_run (single : o.isSingle = true) (t : Tree) (id : Nat) :
    (o.run t).2.flagsOf id = if (o.run t).1.isOk ∧ o.target? = some (.natural id) then
      o.reflag (t.flagsOf id) else t.flagsOf id := by
  cases o with
  | addChild parent =>
    rcases addChild_result parent t with ⟨f, failed⟩ | ⟨i, n, _, found, _, done⟩
    · rw [Operation.run_addChild, Edit.bind_error failed]
      exact (ite_self _).symm
    · rw [Operation.run_addChild, Edit.bind_ok done]
      exact (flagsOf_withChild found).trans (ite_self _).symm
  | makeMap i key =>
    exact flagsOf_revise (o := .makeMap i key) ⟨rfl, fun _ => .done, rfl⟩
      (makeContainer_eq_revise .map i key) rfl
      (fun _ _ changed => flags_reassigned changed) t id
  | makeSeq i key =>
    exact flagsOf_revise (o := .makeSeq i key) ⟨rfl, fun _ => .done, rfl⟩
      (makeContainer_eq_revise .seq i key) rfl
      (fun _ _ changed => flags_reassigned changed) t id
  | makeScalar i key value =>
    exact flagsOf_revise (o := .makeScalar i key value) ⟨rfl, fun _ => .done, rfl⟩
      (makeScalar_eq_revise i key value) rfl
      (fun _ _ changed => flags_reassigned changed) t id
  | flag i mask =>
    refine flagsOf_revise ⟨rfl, fun _ => .done, rfl⟩ (flag_eq_revise i mask.toInt32) rfl
      (fun n n' changed => ?_) t id
    cases changed
    rfl
  | allocate size => exact flagsOf_onArena ⟨rfl, .span, rfl⟩ (allocate_eq_onArena size) rfl t id
  | copy text => exact flagsOf_onArena ⟨rfl, .span, rfl⟩ (copy_eq_onArena text) rfl t id
  | write span bytes =>
    exact flagsOf_onArena ⟨rfl, fun _ => .done, rfl⟩ (write_eq_onArena span bytes) rfl t id
  | store | load => cases single

/-- A bit stands after a call if the call adds it, or if it stood before and the call does not give
the node another kind. -/
theorem getLsbD_flagsOf_run (single : o.isSingle = true) (t : Tree) (id k : Nat) :
    ((o.run t).2.flagsOf id).getLsbD k = true ↔ (o.run t).1.isOk = true ∧ o.Sets id k ∨
      (t.flagsOf id).getLsbD k = true ∧ ¬ ((o.run t).1.isOk = true ∧ o.Reassigns id) := by
  rw [flagsOf_run single]
  generalize (o.run t).1.isOk = succeeded
  cases o with
  | flag i mask =>
    simp only [Operation.target?, Option.some.injEq, Operation.reflag, Operation.Sets,
      Operation.Reassigns, and_false, not_false_eq_true, and_true, ← and_assoc]
    split
    · next here =>
      rw [BitVec.getLsbD_or, Bool.or_eq_true, Binary64.getLsbD_toInt32, or_comm]
      simp only [here, and_self, true_and]
    · next elsewhere => simp only [elsewhere, false_and, false_or]
  | makeMap i | makeSeq i | makeScalar i =>
    simp only [Operation.target?, Option.some.injEq, Operation.reflag, Operation.Sets,
      Operation.Reassigns, and_false, false_or]
    split
    · next here =>
      simp only [here, BitVec.getLsbD_zero, Bool.false_eq_true, and_self, not_true, and_false]
    · next elsewhere => simp only [elsewhere, not_false_eq_true, and_true]
  | addChild | allocate | copy | write | store | load =>
    simp only [Operation.reflag, ite_self, Operation.Sets, Operation.Reassigns, and_false, false_or,
      not_false_eq_true, and_true]

/-! ## Histories -/

/-- A bit stands after the calls of a journal if it was added since the node was last given a kind,
or if it stood before and the node was given none. -/
theorem Replays.flagsOf_iff {events : List Event} (h : t.Replays events t') (id k : Nat) :
    (t'.flagsOf id).getLsbD k = true ↔
      SetSince events id k ∨ (t.flagsOf id).getLsbD k = true ∧ Undisturbed events id := by
  induction h with
  | done t =>
    have undisturbed : Undisturbed [] id := fun _ mem => absurd mem List.not_mem_nil
    constructor
    · exact fun bit => .inr ⟨bit, undisturbed⟩
    · rintro (since | ⟨bit, _⟩)
      · exact absurd since not_setSince_nil
      · exact bit
  | call single rest ih =>
    rw [ih, getLsbD_flagsOf_run single, setSince_cons, undisturbed_cons]
    simp only [or_and_right, and_assoc, or_assoc]

/-- The flags of a node decide what is answered for any mask. -/
theorem isFlagged_eq (existing : id < t.size) (mask : Binary64) :
    t.isFlagged (.natural id) mask =
      .ok (mask.toInt? = some (t.flagsOf id &&& mask.toInt32).toInt) := by
  obtain ⟨n, found⟩ := exists_node existing
  rw [isFlagged_def, node_natural found, flagsOf_eq found]
  rfl

/-- A mask that is a signed word is answered bit by bit. -/
theorem isFlagged_word {mask : Binary64} {f : Int} (existing : id < t.size)
    (whole : mask.toInt? = some f) (lower : -2 ^ 31 ≤ f) (upper : f < 2 ^ 31) :
    ∃ holds, t.isFlagged (.natural id) mask = .ok holds ∧
      (holds = true ↔ ∀ k, mask.HasBit k → (t.flagsOf id).getLsbD k = true) := by
  refine ⟨_, isFlagged_eq existing mask, ?_⟩
  have value : mask.toInt32.toInt = f := by
    rw [Binary64.toInt32, Binary64.truncate_of_toInt? whole]
    exact BitVec.toInt_ofInt_eq_self (by decide) lower upper
  rw [decide_eq_true_iff, whole, Option.some.injEq, ← value, BitVec.toInt_inj, eq_comm,
    and_eq_iff_getLsbD]
  simp only [Binary64.getLsbD_toInt32]

/-- **Flags are what was added since the node was last given a kind.** In a tree with any history, a
mask that is a signed 32-bit word is answered for every node that there is, and it holds if and only
if each of its bits was in a mask that a call added to the flags of the node, with no call after it
that gave the node another kind. The calls are those of the journal: all that were made, also in the
course of storing and loading, in their order and with what came of each. Of single calls, any that
fails, or is on another node, or neither adds a bit nor gives another kind, leaves the answer for
every mask as it is. -/
theorem flagged_since {capacity : Binary64} {start t : Tree}
    (created : create capacity = .ok start) {history : List Operation}
    (reached : t = start.after history) :
    start.Replays (start.journal history) t ∧
    ∀ id, id < t.size →
      (∀ (mask : Binary64) (f : Int), mask.toInt? = some f → -2 ^ 31 ≤ f → f < 2 ^ 31 →
        ∃ holds, t.isFlagged (.natural id) mask = .ok holds ∧
          (holds = true ↔ ∀ k, mask.HasBit k → SetSince (start.journal history) id k)) ∧
      ∀ o : Operation, o.isSingle = true →
        ((o.run t).1.isOk = true → ¬ o.Reassigns id ∧ ∀ k, ¬ o.Sets id k) →
        ∀ mask, (o.run t).2.isFlagged (.natural id) mask = t.isFlagged (.natural id) mask := by
  have replays : start.Replays (start.journal history) t := by
    rw [reached]
    exact start.replays_journal history
  refine ⟨replays, fun id existing => ⟨?_, ?_⟩⟩
  · intro mask f whole lower upper
    obtain ⟨holds, answers, bits⟩ := isFlagged_word existing whole lower upper
    refine ⟨holds, answers, bits.trans (forall_congr' fun k => imp_congr_right fun _ => ?_)⟩
    rw [replays.flagsOf_iff, flagsOf_create created]
    refine or_iff_left fun ⟨bit, _⟩ => ?_
    rw [BitVec.getLsbD_zero] at bit
    cases bit
  · intro o single idle mask
    have still : (o.run t).2.flagsOf id = t.flagsOf id := by
      refine BitVec.eq_of_getLsbD_eq fun k _ => Bool.eq_iff_iff.2 ?_
      rw [getLsbD_flagsOf_run single]
      constructor
      · rintro (⟨succeeded, sets⟩ | ⟨bit, _⟩)
        · exact absurd sets ((idle succeeded).2 k)
        · exact bit
      · exact fun bit => .inr ⟨bit, fun ⟨succeeded, reassigns⟩ => (idle succeeded).1 reassigns⟩
    have existing' : id < (o.run t).2.size :=
      Nat.lt_of_lt_of_le existing ((lasting_continued t).run o t (.refl t)).size
    rw [isFlagged_eq existing, isFlagged_eq existing', still]

/-- A node that is flagged, becomes a string, and is flagged again, a mask for no node coming in
between. The last mask is 2³³ + 2³¹ + ½. Of the flags, the one of a string and the greatest one
stand, whatever another node is flagged with. -/
theorem flagged_since_string : ∃ (start t : Tree) (history : List Operation),
    create (.infinite true) = .ok start ∧ t = start.after history ∧
    history = [.flag (.natural 0) (.ofNat 2),
      .store (.scalar (.string (lit "x"))) (.natural 0) defaultLimit,
      .flag (.natural 7) (.ofNat 2), .flag (.natural 0) (.ofRatio false 21474836481 2)] ∧
    t.isFlagged (.natural 0) (.ofInt (-2147483647)) = .ok true ∧
    SetSince (start.journal history) 0 0 ∧ SetSince (start.journal history) 0 31 ∧
    ¬ SetSince (start.journal history) 0 1 ∧
    ((Operation.flag (.natural 7) (.ofNat 2)).run t).2.isFlagged (.natural 0) (.ofInt 2) =
      .ok false := by
  obtain ⟨history, given⟩ : ∃ history : List Operation, history = [.flag (.natural 0) (.ofNat 2),
      .store (.scalar (.string (lit "x"))) (.natural 0) defaultLimit,
      .flag (.natural 7) (.ofNat 2), .flag (.natural 0) (.ofRatio false 21474836481 2)] := ⟨_, rfl⟩
  obtain ⟨t, reached⟩ : ∃ t, t = (ofArena (.empty 1)).after history := ⟨_, rfl⟩
  have left : 0 < t.size ∧ t.flagsOf 0 = 0x80000001#32 := by
    rw [reached, given]
    simp only [Tree.after, Operation.run_store, store_eq_plant]
    decide +kernel
  obtain ⟨existing, flags⟩ := left
  obtain ⟨_, answers⟩ := flagged_since create_infinite reached
  obtain ⟨answered, unchanged⟩ := answers 0 existing
  obtain ⟨holds, answer, since⟩ :=
    answered (.ofInt (-2147483647)) (-2147483647) (by decide +kernel) (by decide) (by decide)
  obtain ⟨holds', answer', since'⟩ :=
    answered (.ofInt 2) 2 (by decide +kernel) (by decide) (by decide)
  have both : t.isFlagged (.natural 0) (.ofInt (-2147483647)) = .ok true := by
    rw [isFlagged_eq existing, flags]
    exact congrArg Except.ok (by decide +kernel)
  have lost : t.isFlagged (.natural 0) (.ofInt 2) = .ok false := by
    rw [isFlagged_eq existing, flags]
    exact congrArg Except.ok (by decide +kernel)
  rw [both] at answer
  rw [lost] at answer'
  cases answer
  cases answer'
  refine ⟨_, t, history, create_infinite, reached, given, both, ?_, ?_, fun bit => ?_, ?_⟩
  · exact since.1 rfl 0 ⟨-2147483647, by decide +kernel, by decide +kernel⟩
  · exact since.1 rfl 31 ⟨-2147483647, by decide +kernel, by decide +kernel⟩
  · refine absurd (since'.2 ?_) Bool.false_ne_true
    rintro k ⟨whole, same, here⟩
    have value : (Binary64.ofInt 2).truncate = some 2 := by decide +kernel
    obtain rfl := Option.some.inj (value.symm.trans same)
    obtain rfl : 1 = k := by simpa using (Nat.testBit_two_pow (n := 1) (m := k)).symm.trans here
    exact bit
  · rw [← lost]
    refine unchanged (.flag (.natural 7) (.ofNat 2)) rfl (fun _ => ⟨not_false, ?_⟩) _
    rintro k ⟨other, _⟩
    cases other

end Tree

end SpanTree
