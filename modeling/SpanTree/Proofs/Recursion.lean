import SpanTree.Proofs.Writing

/-!
# Storing by recursion

The stack of values holds nothing but what a recursion over the value would still have to do.

* `Tree.plant`: a value is written by recursion, each part after the one before it;
* `writeAll_append`: a stack is written one half after the other;
* `store_eq_plant`: whatever the value, the node and the tree are, the walk with a stack does what
  the recursion does.
-/

namespace SpanTree

/-- What each value has if its parts have it, every value has. -/
theorem Source.descend {motive : Source → Prop}
    (parts : ∀ value : Source, (∀ part ∈ value.parts, motive part) → motive value)
    (v : Source) : motive v := by
  induction level : v.height using Nat.strongRecOn generalizing v with
  | ind level ih =>
    refine parts v fun part mem => ih part.height ?_ part rfl
    rw [← level]
    exact height_part mem

namespace Tree

/-- Refuses what lies too deep. -/
def enter (limit node : Quantity) (depth : Nat) : Edit Unit := fun t =>
  if limit.exceededBy depth then (.error (.tooDeep limit node), t) else (.ok (), t)

mutual

/-- Writes a value into a node: what it is by itself, and then its parts one after another. -/
def plant (limit : Quantity) : Source → Quantity → Nat → Edit Unit
  | .table members ending, node, depth => do
    enter limit node depth
    let first ← put node (.table members ending)
    plantMembers limit members first (depth + 1)
  | .array items ending, node, depth => do
    enter limit node depth
    let first ← put node (.array items ending)
    plantItems limit items first (depth + 1)
  | value, node, depth => do
    enter limit node depth
    let _ ← put node value
    return ()

/-- Writes the members of a table into consecutive nodes. -/
def plantMembers (limit : Quantity) : List (Text × Source) → Nat → Nat → Edit Unit
  | [], _, _ => pure ()
  | (_, value) :: rest, first, depth => do
    plant limit value (.natural first) depth
    plantMembers limit rest (first + 1) depth

/-- Writes the items of an array into consecutive nodes. -/
def plantItems (limit : Quantity) : List Source → Nat → Nat → Edit Unit
  | [], _, _ => pure ()
  | value :: rest, first, depth => do
    plant limit value (.natural first) depth
    plantItems limit rest (first + 1) depth

end

variable {limit : Quantity}

theorem plantMembers_eq (members : List (Text × Source)) (first depth : Nat) :
    plantMembers limit members first depth =
      plantItems limit (members.map (·.2)) first depth := by
  induction members generalizing first with
  | nil => rfl
  | cons m rest ih => rw [plantMembers, List.map_cons, plantItems, ih]

/-- A change of a tree begins where the limit was looked at. -/
theorem enter_ok {node : Quantity} {depth : Nat} {t t' : Tree}
    (h : enter limit node depth t = (.ok (), t')) : t' = t := by
  rw [enter] at h
  split at h
  · cases h
  · cases h
    rfl

/-- A value is written by itself, and then its parts are. -/
theorem plant_eq (value : Source) (node : Quantity) (depth : Nat) :
    plant limit value node depth = (do
      enter limit node depth
      let first ← put node value
      plantItems limit value.parts first (depth + 1) : Edit Unit) := by
  cases value <;> simp only [plant, plantItems, plantMembers_eq, Source.parts]

/-- The topmost value of a stack is written by itself, and then its parts and the rest are. -/
theorem writeAll_topmost (item : Pending) (rest : List Pending) :
    writeAll limit (item :: rest) = (do
      enter limit item.node item.depth
      let first ← put item.node item.value
      writeAll limit (item.children first ++ rest) : Edit Unit) := by
  funext t
  rw [writeAll_def]
  by_cases deep : limit.exceededBy item.depth = true
  · rw [if_pos deep, Edit.bind_error]
    rw [enter, if_pos deep]
  · have here : enter limit item.node item.depth t = (.ok (), t) := by rw [enter, if_neg deep]
    rw [if_neg deep, Edit.bind_ok here]
    cases wrote : put item.node item.value t with | mk r t' =>
    cases r with
    | error f => rw [Edit.bind_error wrote]
    | ok first => rw [Edit.bind_ok wrote]

/-- A stack is written one half after the other. -/
theorem writeAll_append (limit : Quantity) (before after : List Pending) :
    writeAll limit (before ++ after) =
      (do writeAll limit before; writeAll limit after : Edit Unit) := by
  induction before using Pending.stack_induction with
  | nil =>
    rw [List.nil_append, writeAll_nil, pure_bind]
  | cons item rest ih =>
    rw [List.cons_append, writeAll_topmost, writeAll_topmost, bind_assoc]
    refine congrArg _ (funext fun _ => ?_)
    rw [bind_assoc]
    refine congrArg _ (funext fun first => ?_)
    rw [← ih, List.append_assoc]

theorem writeAll_consecutive {values : List Source} {depth : Nat}
    (each : ∀ value ∈ values, ∀ node, writeAll limit [⟨value, node, depth⟩] =
      plant limit value node depth) (first : Nat) :
    writeAll limit (Pending.consecutive depth values first) =
      plantItems limit values first depth := by
  induction values generalizing first with
  | nil => rw [Pending.consecutive, writeAll_nil, plantItems]
  | cons value rest ih =>
    obtain ⟨here, others⟩ := List.forall_mem_cons.1 each
    rw [Pending.consecutive, plantItems, ← here, ← ih others, ← writeAll_append]
    rfl

/-- The walk with a stack does what the recursion does. -/
theorem writeAll_eq_plant (value : Source) (node : Quantity) (depth : Nat) :
    writeAll limit [⟨value, node, depth⟩] = plant limit value node depth := by
  induction value using Source.descend generalizing node depth with
  | parts value ih =>
    rw [writeAll_topmost, plant_eq]
    refine congrArg _ (funext fun _ => congrArg _ (funext fun first => ?_))
    rw [List.append_nil]
    exact writeAll_consecutive (fun part mem node => ih part mem node _) first

/-- **A value is stored by recursion.** Whatever the value, the node and the limit are, and whether
or not it is stored, what the walk with a stack of values does to a tree is what the recursion over
the value does. -/
theorem store_eq_plant (value : Source) (node limit : Quantity) :
    store value node limit = plant limit value node 0 :=
  writeAll_eq_plant value node 0

end Tree

end SpanTree
