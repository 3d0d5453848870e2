import Mathlib.Data.List.Nodup
import Mathlib.Data.List.Perm.Basic
import SpanTree.Value

/-!
# Members of objects

The keys of an object are different from each other, and it lists its members in an order that
depends on the keys alone.

* `nodup_ofList`, `ofList_of_nodup`: a key that is set again stays where it is, and different keys
  stay in order;
* `enumerate_perm`: every member is listed once;
* `Orderly`, `keys_enumerate_iff`: which members are listed as they are written;
* `enumerate_enumerate`: what was listed is listed in the same order again;
* `enumerate_map`: other values under the same keys are listed in the same order.
-/

namespace SpanTree.Members

variable {α β : Type}

/-! ## Setting members -/

theorem define_new {key : Text} {members : List (Text × α)} (h : key ∉ members.map (·.1))
    (value : α) : define key value members = members ++ [(key, value)] := by
  induction members with
  | nil => rfl
  | cons m rest ih =>
    simp only [List.map_cons, List.mem_cons, not_or] at h
    rw [define, if_neg (Ne.symm h.1), ih h.2]
    rfl

theorem keys_define {key : Text} {members : List (Text × α)} (h : key ∈ members.map (·.1))
    (value : α) : (define key value members).map (·.1) = members.map (·.1) := by
  induction members with
  | nil => cases h
  | cons m rest ih =>
    rw [define]
    split
    · rfl
    · next other =>
      rcases List.mem_cons.1 h with same | inside
      · exact absurd same.symm other
      · rw [List.map_cons, ih inside]
        rfl

theorem nodup_define {members : List (Text × α)} (h : (members.map (·.1)).Nodup) (key : Text)
    (value : α) : ((define key value members).map (·.1)).Nodup := by
  by_cases taken : key ∈ members.map (·.1)
  · rwa [keys_define taken]
  · rw [define_new taken, List.map_append]
    apply List.Nodup.append h (List.nodup_singleton key)
    intro k inside same
    rw [List.mem_singleton.1 same] at inside
    exact taken inside

theorem mem_define {key : Text} {value : α} {members : List (Text × α)} {m : Text × α}
    (h : m ∈ define key value members) : m = (key, value) ∨ m ∈ members := by
  induction members with
  | nil => exact .inl (List.mem_singleton.1 h)
  | cons first rest ih =>
    rw [define] at h
    split at h
    · next same =>
      rcases List.mem_cons.1 h with rfl | h
      · rw [same]
        exact .inl rfl
      · exact .inr (List.mem_cons_of_mem _ h)
    · rcases List.mem_cons.1 h with rfl | h
      · exact .inr List.mem_cons_self
      · rcases ih h with here | there
        · exact .inl here
        · exact .inr (List.mem_cons_of_mem _ there)

/-- An object has no key twice. -/
theorem nodup_ofList (members : List (Text × α)) : ((ofList members).map (·.1)).Nodup := by
  have run (later done : List (Text × α)) (h : (done.map (·.1)).Nodup) :
      ((later.foldl (fun done m => define m.1 m.2 done) done).map (·.1)).Nodup := by
    induction later generalizing done with
    | nil => exact h
    | cons m rest ih => exact ih _ (nodup_define h m.1 m.2)
  exact run members [] List.nodup_nil

theorem mem_ofList {members : List (Text × α)} {m : Text × α} (h : m ∈ ofList members) :
    m ∈ members := by
  have run (later done : List (Text × α))
      (h : m ∈ later.foldl (fun done m => define m.1 m.2 done) done) :
      m ∈ done ∨ m ∈ later := by
    induction later generalizing done with
    | nil => exact .inl h
    | cons first rest ih =>
      rcases ih _ h with inside | later
      · rcases mem_define inside with rfl | before
        · exact .inr List.mem_cons_self
        · exact .inl before
      · exact .inr (List.mem_cons_of_mem _ later)
  rcases run members [] h with none | inside
  · cases none
  · exact inside

/-- Members with different keys are kept as they are. -/
theorem ofList_of_nodup {members : List (Text × α)} (h : (members.map (·.1)).Nodup) :
    ofList members = members := by
  have run (later done : List (Text × α)) (h : ((done ++ later).map (·.1)).Nodup) :
      later.foldl (fun done m => define m.1 m.2 done) done = done ++ later := by
    induction later generalizing done with
    | nil => rw [List.foldl_nil, List.append_nil]
    | cons m rest ih =>
      have new : m.1 ∉ done.map (·.1) := by
        rw [List.map_append] at h
        intro inside
        exact List.disjoint_of_nodup_append h inside List.mem_cons_self
      have again : ((done ++ [m] ++ rest).map (·.1)).Nodup := by
        rw [List.append_assoc]
        exact h
      rw [List.foldl_cons, define_new new, ih _ again, List.append_assoc]
      rfl
  exact run members [] h

/-! ## Listing members -/

/-- Members with their indices, of which none is less than one before it. -/
structure Ascending (entries : List (Nat × (Text × α))) : Prop where
  labelled : ∀ e ∈ entries, index? e.2.1 = some e.1
  ordered : entries.Pairwise fun e e' => e.1 ≤ e'.1

/-- Lists members behind those that have an index. -/
def indexedFrom (done : List (Nat × (Text × α))) (members : List (Text × α)) :
    List (Nat × (Text × α)) :=
  members.foldl (fun done m => match index? m.1 with
    | some i => insertIndexed i m done
    | none => done) done

theorem indexed_eq (members : List (Text × α)) : indexed members = indexedFrom [] members := rfl

theorem indexedFrom_cons (done : List (Nat × (Text × α))) (m : Text × α)
    (rest : List (Text × α)) : indexedFrom done (m :: rest) =
      indexedFrom (match index? m.1 with
        | some i => insertIndexed i m done
        | none => done) rest := rfl

theorem indexedFrom_append (done : List (Nat × (Text × α))) (a b : List (Text × α)) :
    indexedFrom done (a ++ b) = indexedFrom (indexedFrom done a) b := List.foldl_append

theorem insertIndexed_perm (i : Nat) (m : Text × α) (entries : List (Nat × (Text × α))) :
    (insertIndexed i m entries).Perm ((i, m) :: entries) := by
  induction entries with
  | nil => exact .refl _
  | cons e rest ih =>
    rw [insertIndexed]
    split
    · exact .refl _
    · exact (ih.cons e).trans (.swap _ _ _)

theorem insertIndexed_last {i : Nat} {entries : List (Nat × (Text × α))}
    (h : ∀ e ∈ entries, e.1 ≤ i) (m : Text × α) :
    insertIndexed i m entries = entries ++ [(i, m)] := by
  induction entries with
  | nil => rfl
  | cons e rest ih =>
    have least := h e List.mem_cons_self
    rw [insertIndexed, if_neg (by omega), ih fun other ho => h other (List.mem_cons_of_mem _ ho)]
    rfl

theorem Ascending.insert {i : Nat} {m : Text × α} {entries : List (Nat × (Text × α))}
    (h : Ascending entries) (index : index? m.1 = some i) :
    Ascending (insertIndexed i m entries) := by
  constructor
  · intro e he
    rcases List.mem_cons.1 ((insertIndexed_perm i m entries).mem_iff.1 he) with rfl | he
    · exact index
    · exact h.labelled e he
  · have ordered := h.ordered
    clear h
    induction entries with
    | nil => exact List.pairwise_singleton _ _
    | cons e rest ih =>
      obtain ⟨first, later⟩ := List.pairwise_cons.1 ordered
      rw [insertIndexed]
      split
      · next less =>
        refine List.pairwise_cons.2 ⟨?_, ordered⟩
        intro other ho
        rcases List.mem_cons.1 ho with rfl | ho
        · exact Nat.le_of_lt less
        · exact Nat.le_trans (Nat.le_of_lt less) (first other ho)
      · next least =>
        refine List.pairwise_cons.2 ⟨?_, ih later⟩
        intro other ho
        rcases List.mem_cons.1 ((insertIndexed_perm i m rest).mem_iff.1 ho) with rfl | ho
        · exact Nat.le_of_not_lt least
        · exact first other ho

theorem Ascending.indexedFrom {entries : List (Nat × (Text × α))} (h : Ascending entries)
    (members : List (Text × α)) : Ascending (indexedFrom entries members) := by
  induction members generalizing entries with
  | nil => exact h
  | cons m rest ih =>
    rw [indexedFrom_cons]
    apply ih
    split
    · next i index => exact h.insert index
    · exact h

theorem ascending_indexed (members : List (Text × α)) : Ascending (indexed members) :=
  Ascending.indexedFrom ⟨fun _ he => absurd he List.not_mem_nil, .nil⟩ members

theorem indexedFrom_perm (done : List (Nat × (Text × α))) (members : List (Text × α)) :
    ((indexedFrom done members).map (·.2)).Perm
      (done.map (·.2) ++ members.filter fun m => (index? m.1).isSome) := by
  induction members generalizing done with
  | nil => rw [List.filter_nil, List.append_nil]; rfl
  | cons m rest ih =>
    rw [indexedFrom_cons, List.filter_cons]
    cases index : index? m.1 with
    | none =>
      rw [Option.isSome_none, if_neg Bool.false_ne_true]
      exact ih done
    | some i =>
      rw [Option.isSome_some, if_pos rfl]
      refine (ih _).trans ?_
      refine (((insertIndexed_perm i m done).map (·.2)).append_right _).trans ?_
      rw [List.map_cons]
      exact List.perm_middle.symm

/-- All members are listed, and none of them twice. -/
theorem enumerate_perm (members : List (Text × α)) : (enumerate members).Perm members := by
  have first := indexedFrom_perm [] members
  rw [List.map_nil, List.nil_append] at first
  refine (first.append_right _).trans ?_
  have rest : (members.filter fun m => (index? m.1).isNone) =
      members.filter fun m => !(index? m.1).isSome := by
    simp only [Option.not_isSome]
  rw [rest]
  exact List.filter_append_perm _ members

/-- In ascending order, members with indices are listed as they stand. -/
theorem indexedFrom_ascending {done entries : List (Nat × (Text × α))}
    (h : Ascending (done ++ entries)) : indexedFrom done (entries.map (·.2)) = done ++ entries := by
  induction entries generalizing done with
  | nil => rw [List.append_nil]; rfl
  | cons e rest ih =>
    have last : ∀ other ∈ done, other.1 ≤ e.1 := by
      intro other ho
      exact (List.pairwise_append.1 h.ordered).2.2 other ho e List.mem_cons_self
    have index : index? e.2.1 = some e.1 := h.labelled e (by simp)
    rw [List.map_cons, indexedFrom_cons, index]
    dsimp only
    rw [insertIndexed_last last, ih (by simpa using h), List.append_assoc]
    rfl

theorem indexedFrom_none {members : List (Text × α)} (h : ∀ m ∈ members, index? m.1 = none)
    (done : List (Nat × (Text × α))) : indexedFrom done members = done := by
  induction members with
  | nil => rfl
  | cons m rest ih =>
    rw [indexedFrom_cons, h m List.mem_cons_self]
    exact ih fun other ho => h other (List.mem_cons_of_mem _ ho)

/-- Every key that is an index comes behind indices alone, none of them greater. -/
def Orderly (keys : List Text) : Prop :=
  keys.Pairwise fun k k' => ∀ i', index? k' = some i' → ∃ i, index? k = some i ∧ i ≤ i'

theorem orderly_enumerate (members : List (Text × α)) :
    Orderly ((enumerate members).map (·.1)) := by
  have ascending := ascending_indexed members
  have named {m : Text × α} (hm : m ∈ members.filter fun m => (index? m.1).isNone) (i : Nat) :
      index? m.1 ≠ some i := by
    have none := (List.mem_filter.1 hm).2
    intro index
    rw [index] at none
    cases none
  refine List.pairwise_map.2 (List.pairwise_append.2 ⟨List.pairwise_map.2 ?_, ?_, ?_⟩)
  · refine ascending.ordered.imp_of_mem ?_
    intro e e' he he' le i index
    rw [ascending.labelled e' he'] at index
    cases index
    exact ⟨e.1, ascending.labelled e he, le⟩
  · exact List.pairwise_of_forall_mem_list fun _ _ m' hm' i index => absurd index (named hm' i)
  · intro m _ m' hm' i index
    exact absurd index (named hm' i)

/-- Orderly members have their indices in front, and these ascend. -/
theorem Orderly.split {members : List (Text × α)} (h : Orderly (members.map (·.1))) :
    ∃ entries rest, members = entries.map (·.2) ++ rest ∧ Ascending entries ∧
      ∀ m ∈ rest, index? m.1 = none := by
  induction members with
  | nil => exact ⟨[], [], rfl, ⟨nofun, .nil⟩, nofun⟩
  | cons m rest ih =>
    obtain ⟨first, later⟩ := List.pairwise_cons.1 h
    cases index : index? m.1 with
    | none =>
      refine ⟨[], m :: rest, rfl, ⟨nofun, .nil⟩, List.forall_mem_cons.2 ⟨index, fun m' hm' => ?_⟩⟩
      cases index' : index? m'.1 with
      | none => rfl
      | some i' =>
        obtain ⟨i, known, _⟩ := first m'.1 (List.mem_map_of_mem hm') i' index'
        rw [index] at known
        cases known
    | some k =>
      obtain ⟨entries, named, rfl, ascending, none⟩ := ih later
      refine ⟨(k, m) :: entries, named, rfl, ⟨?_, ?_⟩, none⟩
      · exact List.forall_mem_cons.2 ⟨index, ascending.labelled⟩
      · refine List.pairwise_cons.2 ⟨fun e he => ?_, ascending.ordered⟩
        have inside : e.2 ∈ entries.map (·.2) ++ named :=
          List.mem_append_left named (List.mem_map_of_mem he)
        obtain ⟨i, known, le⟩ := first e.2.1 (List.mem_map_of_mem inside) e.1
          (ascending.labelled e he)
        rw [index] at known
        cases known
        exact le

theorem Orderly.enumerate_eq {members : List (Text × α)} (h : Orderly (members.map (·.1))) :
    enumerate members = members := by
  obtain ⟨entries, rest, rfl, ascending, none⟩ := h.split
  have numbered : (entries.map (·.2)).filter (fun m => (index? m.1).isNone) = [] := by
    rw [List.filter_eq_nil_iff]
    intro m hm
    obtain ⟨e, he, rfl⟩ := List.mem_map.1 hm
    rw [ascending.labelled e he]
    exact Bool.false_ne_true
  have named : rest.filter (fun m => (index? m.1).isNone) = rest := by
    rw [List.filter_eq_self]
    intro m hm
    rw [none m hm]
    rfl
  rw [enumerate, indexed_eq, indexedFrom_append, indexedFrom_none none,
    @indexedFrom_ascending _ [] _ ascending, List.filter_append, numbered, named]
  rfl

/-- Members are listed as they are written exactly if their keys are orderly. -/
theorem keys_enumerate_iff {members : List (Text × α)} :
    (enumerate members).map (·.1) = members.map (·.1) ↔ Orderly (members.map (·.1)) := by
  constructor
  · intro same
    rw [← same]
    exact orderly_enumerate members
  · intro orderly
    rw [orderly.enumerate_eq]

/-- What was listed is listed in the same order again. -/
theorem enumerate_enumerate (members : List (Text × α)) :
    enumerate (enumerate members) = enumerate members :=
  (orderly_enumerate members).enumerate_eq

def mapValues (f : α → β) (members : List (Text × α)) : List (Text × β) :=
  members.map fun m => (m.1, f m.2)

theorem keys_mapValues (f : α → β) (members : List (Text × α)) :
    (mapValues f members).map (·.1) = members.map (·.1) := by
  rw [mapValues, List.map_map]
  rfl

theorem mapValues_mapValues {γ : Type} (g : β → γ) (f : α → β) (members : List (Text × α)) :
    mapValues g (mapValues f members) = mapValues (g ∘ f) members := by
  rw [mapValues, mapValues, List.map_map]
  rfl

theorem insertIndexed_map (f : α → β) (i : Nat) (m : Text × α)
    (entries : List (Nat × (Text × α))) :
    insertIndexed i (m.1, f m.2) (entries.map fun e => (e.1, e.2.1, f e.2.2)) =
      (insertIndexed i m entries).map fun e => (e.1, e.2.1, f e.2.2) := by
  induction entries with
  | nil => rfl
  | cons e rest ih =>
    rw [List.map_cons, insertIndexed, insertIndexed]
    split
    · rfl
    · rw [ih]
      rfl

theorem indexedFrom_map (f : α → β) (done : List (Nat × (Text × α))) (members : List (Text × α)) :
    indexedFrom (done.map fun e => (e.1, e.2.1, f e.2.2)) (mapValues f members) =
      (indexedFrom done members).map fun e => (e.1, e.2.1, f e.2.2) := by
  induction members generalizing done with
  | nil => rfl
  | cons m rest ih =>
    rw [mapValues, List.map_cons, indexedFrom_cons, indexedFrom_cons, ← ih]
    cases index : index? m.1 with
    | none => rfl
    | some i =>
      dsimp only
      rw [insertIndexed_map]
      rfl

/-- Under the same keys other values are listed in the same order. -/
theorem enumerate_map (f : α → β) (members : List (Text × α)) :
    enumerate (mapValues f members) = mapValues f (enumerate members) := by
  have first := indexedFrom_map f [] members
  rw [List.map_nil] at first
  rw [enumerate, indexed_eq, first, List.map_map, enumerate, indexed_eq, mapValues, mapValues,
    List.map_append, List.map_map, List.filter_map]
  rfl

end SpanTree.Members
