import SpanTree.Proofs.Histories
import SpanTree.Proofs.Writing

/-!
# The bytes of a stored value

Storing adds the texts of a value to the arena one by one: the keys of a table before its members,
and all that is below a member before the next one.

* `Source.footprint`: the bytes of a value in the order in which they are added;
* `Arena.GrownBy`: bytes were added at the end of an arena, and its buffer was doubled until they
  fitted;
* `GrownBy.capacity_eq`: how large the buffer is depends on the number of these bytes alone;
* `Edit.Appends`, `store_appends`: a value that was stored has added its bytes.
-/

namespace SpanTree

/-! ## Arenas -/

namespace Arena

/-- An arena has more bytes at its end, and its buffer was doubled until they fitted. -/
structure GrownBy (a : Arena) (added : List UInt8) (a' : Arena) : Prop where
  bytes : a'.bytes = a.bytes ++ added
  grown : doubled a.capacity a'.size = some a'.capacity

variable {a a' a'' : Arena} {added more : List UInt8} {capacity required c : Nat}

/-- To double for fewer bytes first makes no difference. -/
theorem doubled_doubled {least : Nat} (h : doubled capacity least = some c)
    (le : least ≤ required) : doubled c required = doubled capacity required := by
  fun_induction doubled capacity least with
  | case1 => simp_all
  | case2 => cases h
  | case3 capacity short some ih =>
    rw [ih h]
    conv => rhs; unfold doubled
    rw [if_neg (by omega), if_neg some]

namespace GrownBy

theorem refl (a : Arena) : a.GrownBy [] a :=
  ⟨(List.append_nil _).symm, doubled_fits a.fits⟩

theorem size_eq (h : a.GrownBy added a') : a'.size = a.size + added.length := by
  rw [← bytes_length, ← bytes_length, h.bytes, List.length_append]

theorem trans (first : a.GrownBy added a') (later : a'.GrownBy more a'') :
    a.GrownBy (added ++ more) a'' where
  bytes := by rw [later.bytes, first.bytes, List.append_assoc]
  grown := by
    have le : a'.size ≤ a''.size := by simp [later.size_eq]
    rw [← doubled_doubled first.grown le]
    exact later.grown

/-- As many bytes need a buffer of the same size. -/
theorem capacity_eq (h : a.GrownBy added a') (h' : a.GrownBy more a'')
    (length : added.length = more.length) : a'.capacity = a''.capacity := by
  have grown := h.grown
  rw [h.size_eq, length, ← h'.size_eq, h'.grown] at grown
  exact (Option.some.inj grown).symm

end GrownBy

theorem grownBy_copy {text : Text} {span : Span} (h : a.copy text = (.ok span, a')) :
    a.GrownBy (Utf8.encode text) a' := by
  rcases copy_result text a with ⟨_, stuck⟩ | ⟨_, copied, bytes, grown, _⟩
  · rw [stuck] at h
    cases h
  · rw [copied] at h
    cases h
    refine ⟨bytes, ?_⟩
    rw [← bytes_length a', bytes, List.length_append, bytes_length, grown]

end Arena

/-! ## Changes -/

namespace Edit

variable {α β : Type} {e : Edit α} {f : α → Edit β} {added more : List UInt8}

/-- A change that ends well adds some bytes to the arena. -/
def Appends (e : Edit α) (added : List UInt8) : Prop :=
  ∀ t a t', e t = (.ok a, t') → t.arena.GrownBy added t'.arena

theorem Appends.bind (he : Appends e added) (hf : ∀ a, Appends (f a) more) :
    Appends (e >>= f) (added ++ more) := by
  intro t b t' h
  obtain ⟨a, t₁, first, later⟩ := bind_inv h
  exact (he t a t₁ first).trans (hf a t₁ b t' later)

/-- A change that leaves the arena alone adds nothing. -/
theorem appends_nil (h : ∀ t, (e t).2.arena = t.arena) : Appends e [] := by
  intro t a t' done
  have same := h t
  rw [done] at same
  dsimp only at same
  rw [same]
  exact .refl _

theorem appends_pure (a : α) : Appends (pure a : Edit α) [] := appends_nil fun _ => rfl

theorem appends_ask (query : Tree → Except Failure α) : Appends (ask query) [] :=
  appends_nil fun _ => rfl

end Edit

/-! ## Values -/

namespace Source

/-- The texts that are stored for a value itself: the keys of a table, or the text of a scalar. -/
def texts : Source → List Text
  | table members _ => members.map (·.1)
  | scalar value => [value.text]
  | _ => []

mutual

/-- The bytes of a value: those of its own texts, and then those of its parts one after another. -/
def footprint : Source → List UInt8
  | table members _ => (members.map (·.1)).flatMap Utf8.encode ++ membersFootprint members
  | array items _ => itemsFootprint items
  | scalar value => Utf8.encode value.text
  | _ => []

/-- The bytes of the members of a table, without their keys. -/
def membersFootprint : List (Text × Source) → List UInt8
  | [] => []
  | (_, value) :: rest => value.footprint ++ membersFootprint rest

def itemsFootprint : List Source → List UInt8
  | [] => []
  | value :: rest => value.footprint ++ itemsFootprint rest

end

theorem itemsFootprint_append (a b : List Source) :
    itemsFootprint (a ++ b) = itemsFootprint a ++ itemsFootprint b := by
  induction a with
  | nil => rfl
  | cons value rest ih => simp [itemsFootprint, ih]

theorem membersFootprint_eq (members : List (Text × Source)) :
    membersFootprint members = itemsFootprint (members.map (·.2)) := by
  induction members with
  | nil => rfl
  | cons member rest ih => simp [membersFootprint, itemsFootprint, ih]

theorem footprint_eq (value : Source) :
    value.footprint = value.texts.flatMap Utf8.encode ++ itemsFootprint value.parts := by
  cases value <;> simp [footprint, texts, parts, itemsFootprint, membersFootprint_eq]

end Source

namespace Tree

open Edit

theorem copy_appends (text : Text) : Appends (copy text) (Utf8.encode text) := by
  intro t span t' h
  cases ran : t.arena.copy text with | mk result arena =>
  simp only [copy_eq_onArena, onArena, ran] at h
  cases result with
  | error fault => cases h
  | ok span' =>
    cases h
    exact Arena.grownBy_copy ran

theorem addChild_appends (parent : Quantity) : Appends (addChild parent) [] :=
  appends_nil (addChild_arena parent)

theorem revise_appends (id : Quantity) (change : Node → Except Failure Node) :
    Appends (revise id change) [] :=
  appends_nil (revise_arena id change)

theorem makeContainer_appends (wanted : Kind) (id : Quantity) (key : Slot Span) :
    Appends (makeContainer wanted id key) [] := by
  rw [makeContainer_eq_revise]
  exact revise_appends id _

theorem makeScalar_appends (id : Quantity) (key value : Slot Span) :
    Appends (makeScalar id key value) [] := by
  rw [makeScalar_eq_revise]
  exact revise_appends id _

theorem flag_appends (id : Quantity) (flags : BitVec 32) : Appends (flag id flags) [] := by
  rw [flag_eq_revise]
  exact revise_appends id _

theorem addMembers_appends (node : Quantity) (keys : List Text) :
    Appends (addMembers node keys) (keys.flatMap Utf8.encode) := by
  induction keys with
  | nil => exact appends_pure ()
  | cons key rest ih =>
    refine (addChild_appends node).bind fun child => ?_
    refine (copy_appends key).bind fun span => ?_
    exact (makeScalar_appends (.natural child) _ _).bind fun _ => ih

theorem addItems_appends (node : Quantity) (count : Nat) : Appends (addItems node count) [] := by
  induction count with
  | zero => exact appends_pure ()
  | succ count ih => exact (addChild_appends node).bind fun _ => ih

theorem finish_appends (ending : Ending) : Appends (finish ending) [] :=
  appends_nil fun _ => by cases ending <;> rfl

theorem putScalar_appends (node : Quantity) (value : Scalar) :
    Appends (putScalar node value) (Utf8.encode value.text) := by
  have stored (span : Span) : Appends (do
      makeScalar node (← ask (·.key node)) (.known span)
      if value.isQuoted then flag node Node.quotedFlag) [] := by
    refine (appends_ask _).bind fun key => (makeScalar_appends node key _).bind fun _ => ?_
    split
    · exact flag_appends node _
    · exact appends_pure _
  have whole := (copy_appends value.text).bind stored
  rw [putScalar_def]
  rwa [List.append_nil] at whole

/-- Writing one value adds its own texts. -/
theorem put_appends (node : Quantity) (value : Source) :
    Appends (put node value) (value.texts.flatMap Utf8.encode) := by
  have container (wanted : Kind) (ending : Ending) {add : Edit Unit} {added : List UInt8}
      (adds : Appends add added) : Appends (do
        makeContainer wanted node (← ask (·.key node))
        let first ← ask fun t => .ok t.size
        add
        finish ending
        return first : Edit Nat) added := by
    refine (appends_ask _).bind fun key => (makeContainer_appends wanted node key).bind fun _ => ?_
    refine (appends_ask _).bind fun first => ?_
    have later := adds.bind fun _ => (finish_appends ending).bind fun _ => appends_pure first
    simp only [List.append_nil] at later
    exact later
  cases value with
  | table members ending =>
    rw [put_table]
    exact container .map ending (addMembers_appends node _)
  | array items ending =>
    rw [put_array]
    exact container .seq ending (addItems_appends node _)
  | scalar value => exact (putScalar_appends node value).bind fun _ => appends_pure 0
  | unsupported | unknown | absent => nofun

/-- A stack that was written to its end has added the bytes of its values. -/
theorem writeAll_appends (limit : Quantity) (stack : List Pending) :
    Appends (writeAll limit stack) (Source.itemsFootprint (stack.map (·.value))) := by
  induction stack using Pending.stack_induction with
  | nil =>
    intro t _ t' done
    rw [writeAll_nil] at done
    cases done
    exact .refl _
  | cons item rest ih =>
    intro t _ t' done
    have begun := writeAll_begun limit item rest t
    rw [done] at begun
    generalize hp : ((.ok (), t') : Except Failure Unit × Tree) = p at begun
    cases begun with
    | deep | stuck | refused | broken => cases hp
    | @opened _ _ first t₁ _ _ _ _ _ wrote =>
      have all := (put_appends item.node item.value t first t₁ wrote).trans
        (ih first t₁ () t' hp.symm)
      simpa [Pending.children, map_value_consecutive, Source.itemsFootprint_append,
        Source.itemsFootprint, Source.footprint_eq item.value] using all

/-- **A value that was stored added its bytes**, and the buffer was doubled until they fitted. -/
theorem store_appends (value : Source) (node limit : Quantity) :
    Appends (store value node limit) value.footprint := by
  have whole := writeAll_appends limit [⟨value, node, 0⟩]
  rwa [List.map_singleton, Source.itemsFootprint, Source.itemsFootprint, List.append_nil] at whole

end Tree

end SpanTree
