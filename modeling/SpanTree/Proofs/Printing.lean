import SpanTree.Proofs.Grammar

/-!
# The text of a document

A document printed by recursion, on one line or with each level indented by a number of spaces.

* `Json.printed`: the text at a depth;
* `Json.Numeric`: the numbers of a document are spelled as numbers;
* `printed_spells`: the text of such a document spells it, however it is indented.
-/

namespace SpanTree.Json

/-- What stands before a member and before a closing bracket: a line break and as many spaces as
the depth asks for, where lines are broken at all. -/
def gap (indent depth : Nat) : Text :=
  (if 0 < indent then [unit '\n'] else []) ++ .spaces (indent * depth)

def colon (indent : Nat) : Text := if 0 < indent then lit ": " else lit ":"

/-- What stands before a closing bracket: nothing where there are no members. -/
def lastGap {α : Type} (indent depth : Nat) (members : List α) : Text :=
  if members.isEmpty then [] else gap indent depth

mutual

/-- A document as a text whose first line is at a depth already. -/
def printed (indent : Nat) : Json → Nat → Text
  | null, _ => lit "null"
  | boolean b, _ => if b then lit "true" else lit "false"
  | number digits, _ => digits
  | string t, _ => Quoted.quote t
  | array items, depth =>
    unit '[' :: (Text.join [unit ','] (printedItems indent items (depth + 1)) ++
      (lastGap indent depth items ++ [unit ']']))
  | object members, depth =>
    unit '\x7b' :: (Text.join [unit ','] (printedMembers indent members (depth + 1)) ++
      (lastGap indent depth members ++ [unit '\x7d']))

def printedItems (indent : Nat) : List Json → Nat → List Text
  | [], _ => []
  | item :: rest, depth =>
    (gap indent depth ++ printed indent item depth) :: printedItems indent rest depth

def printedMembers (indent : Nat) : List (Text × Json) → Nat → List Text
  | [], _ => []
  | (key, value) :: rest, depth =>
    (gap indent depth ++ (Quoted.quote key ++ colon indent) ++ printed indent value depth) ::
      printedMembers indent rest depth

end

theorem printedItems_eq (indent : Nat) (items : List Json) (depth : Nat) :
    printedItems indent items depth =
      items.map fun item => gap indent depth ++ printed indent item depth := by
  induction items with
  | nil => rfl
  | cons item rest ih => rw [printedItems, ih, List.map_cons]

theorem printedMembers_eq (indent : Nat) (members : List (Text × Json)) (depth : Nat) :
    printedMembers indent members depth = members.map fun m =>
      gap indent depth ++ (Quoted.quote m.1 ++ colon indent) ++ printed indent m.2 depth := by
  induction members with
  | nil => rfl
  | cons m rest ih => rw [printedMembers, ih, List.map_cons]

mutual

def Numeric : Json → Prop
  | number digits => Numeral digits
  | array items => NumericItems items
  | object members => NumericMembers members
  | _ => True

/-- Every number in the items of an array is spelled as one. -/
def NumericItems : List Json → Prop
  | [] => True
  | item :: rest => Numeric item ∧ NumericItems rest

/-- Every number in the members of an object is spelled as one. -/
def NumericMembers : List (Text × Json) → Prop
  | [] => True
  | (_, value) :: rest => Numeric value ∧ NumericMembers rest

end

theorem blank_gap (indent depth : Nat) : Blank (gap indent depth) := by
  apply Blank.append
  · split
    · intro u hu
      rw [List.mem_singleton.1 hu]
      rfl
    · exact blank_nil
  · intro u hu
    rw [List.eq_of_mem_replicate hu]
    rfl

theorem blank_lastGap {α : Type} (indent depth : Nat) (members : List α) :
    Blank (lastGap indent depth members) := by
  unfold lastGap
  split
  · exact blank_nil
  · exact blank_gap indent depth

theorem colon_eq (indent : Nat) : ∃ w, Blank w ∧ colon indent = unit ':' :: w := by
  unfold colon
  split
  · refine ⟨[unit ' '], ?_, rfl⟩
    intro u hu
    rw [List.mem_singleton.1 hu]
    rfl
  · exact ⟨[], blank_nil, rfl⟩

mutual

/-- The text of a document spells it. -/
theorem printed_spells (indent : Nat) : ∀ (j : Json) (depth : Nat), j.Numeric →
    j.Spells (printed indent j depth)
  | null, _, _ => rfl
  | boolean _, _, _ => rfl
  | number _, _, h => ⟨rfl, h⟩
  | string t, _, _ => ⟨Quoted.escape t, units_escape t, rfl⟩
  | array items, depth, h =>
    ⟨[], _, _, blank_nil, printedItems_spells indent items (depth + 1) h,
      blank_lastGap indent depth items, rfl⟩
  | object members, depth, h =>
    ⟨[], _, _, blank_nil, printedMembers_spells indent members (depth + 1) h,
      blank_lastGap indent depth members, rfl⟩

theorem printedItems_spells (indent : Nat) : ∀ (items : List Json) (depth : Nat),
    NumericItems items → SpellsItems items (printedItems indent items depth)
  | [], _, _ => rfl
  | item :: rest, depth, h =>
    ⟨gap indent depth, printed indent item depth, [], _, blank_gap indent depth,
      printed_spells indent item depth h.1, blank_nil,
      printedItems_spells indent rest depth h.2, by rw [List.append_nil]; rfl⟩

theorem printedMembers_spells (indent : Nat) : ∀ (members : List (Text × Json)) (depth : Nat),
    NumericMembers members → SpellsMembers members (printedMembers indent members depth)
  | [], _, _ => rfl
  | (key, value) :: rest, depth, h => by
    obtain ⟨w, hw, hcolon⟩ := colon_eq indent
    refine ⟨gap indent depth, Quoted.escape key, [], w, printed indent value depth, [], _,
      blank_gap indent depth, units_escape key, blank_nil, hw,
      printed_spells indent value depth h.1, blank_nil,
      printedMembers_spells indent rest depth h.2, ?_⟩
    rw [printedMembers, hcolon, Quoted.quote]
    simp only [List.append_assoc, List.cons_append, List.nil_append, List.append_nil]

end

theorem printed_sentence {j : Json} (h : j.Numeric) (indent depth : Nat) :
    Sentence j (printed indent j depth) := by
  refine ⟨[], _, [], blank_nil, printed_spells indent j depth h, blank_nil, ?_⟩
  rw [List.nil_append, List.append_nil]

end SpanTree.Json
