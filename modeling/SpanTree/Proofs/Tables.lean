import SpanTree.Proofs.Moments

/-!
# Values of TOML

The tables that a document declares, and the values that the reader of TOML builds.

* `Value.Declared`: what holds of all values that the reader of TOML builds;
* `Entry.Sound`, `Table.Sound`: no table has a key twice, and all values in it are as readers build
  them;
* `Table.declare_sound`, `Table.within_sound`: declarations keep tables sound;
* `Yields`: what holds of all that a reader answers with;
* `readValue_declared`, `readLine_sound`, `read_declared`: values, lines and whole documents.
-/

namespace SpanTree

namespace Toml

/-! ## Tables -/

/-- An entry whose tables have no key twice, and whose values are as readers build them. -/
inductive Entry.Sound : Entry → Prop
  | value {v : Value} (h : v.Declared) : Sound (.value v)
  | table {origin : Origin} {members : Table} (distinct : (members.map (·.1)).Nodup)
      (h : ∀ m ∈ members, Sound m.2) : Sound (.table origin members)
  | tables {last : Table} {earlier : List Table}
      (distinct : ∀ t ∈ last :: earlier, (t.map (·.1)).Nodup)
      (h : ∀ t ∈ last :: earlier, ∀ m ∈ t, Sound m.2) : Sound (.tables last earlier)

/-- A table without repeated keys, of sound entries. -/
structure Table.Sound (t : Table) : Prop where
  distinct : (t.map (·.1)).Nodup
  entries : ∀ m ∈ t, m.2.Sound

/-- What a declaration brings is as readers build it. -/
def Declaration.Fits : Declaration → Prop
  | value v => v.Declared
  | _ => True

theorem fits_value {v : Value} (h : v.Declared) : (Declaration.value v).Fits := h

theorem memberValues_eq (members : Table) :
    memberValues members = Members.mapValues Entry.toValue members := by
  induction members with
  | nil => rfl
  | cons m rest ih =>
    rw [memberValues, ih]
    rfl

theorem elementValues_eq (tables : List Table) :
    elementValues tables = tables.map Table.toValue := by
  induction tables with
  | nil => rfl
  | cons t rest ih =>
    rw [elementValues, ih]
    rfl

theorem toValue_object {members : Table} (distinct : (members.map (·.1)).Nodup)
    (h : ∀ m ∈ members, m.2.toValue.Declared) : (Table.toValue members).Declared := by
  rw [Table.toValue, memberValues_eq]
  constructor
  · rwa [Members.keys_mapValues]
  · intro m hm
    obtain ⟨entry, inside, rfl⟩ := List.mem_map.1 hm
    exact h entry inside

theorem Entry.Sound.declared {e : Entry} (h : e.Sound) : e.toValue.Declared := by
  induction h with
  | value h => exact h
  | table distinct _ ih => exact toValue_object distinct ih
  | @tables last earlier distinct _ ih =>
    rw [toValue, elementValues_eq]
    constructor
    intro item hi
    have table : ∃ t ∈ last :: earlier, Table.toValue t = item := by
      rcases List.mem_append.1 hi with old | new
      · obtain ⟨t, ht, same⟩ := List.mem_map.1 (List.mem_reverse.1 old)
        exact ⟨t, List.mem_cons_of_mem _ ht, same⟩
      · exact ⟨last, List.mem_cons_self, (List.mem_singleton.1 new).symm⟩
    obtain ⟨t, ht, rfl⟩ := table
    exact toValue_object (distinct t ht) (ih t ht)

namespace Table

variable {t t' : Table} {key : Text} {keys : List Text} {d : Declaration}

theorem Sound.nil : Table.Sound [] := ⟨.nil, nofun⟩

theorem Sound.declared (h : t.Sound) : t.toValue.Declared :=
  toValue_object h.distinct fun m hm => (h.entries m hm).declared

theorem Sound.find? {e : Entry} (h : t.Sound) (found : t.find? key = some e) : e.Sound := by
  obtain ⟨m, hm, rfl⟩ := Option.map_eq_some_iff.1 found
  exact h.entries m (List.mem_of_find?_eq_some hm)

theorem Sound.put {e : Entry} (h : t.Sound) (key : Text) (he : e.Sound) : (t.put key e).Sound := by
  constructor
  · exact Members.nodup_define h.distinct key e
  · intro m hm
    rcases Members.mem_define hm with rfl | old
    · exact he
    · exact h.entries m old

/-- A table stands under a name. -/
theorem Sound.table (h : t.Sound) (origin : Origin) : (Entry.table origin t).Sound :=
  .table h.distinct h.entries

theorem sound_table_inv {origin : Origin} (h : (Entry.table origin t).Sound) : t.Sound := by
  cases h with
  | table distinct entries => exact ⟨distinct, entries⟩

/-- A table joins the elements of a table array. -/
theorem Sound.tables {earlier : List Table} (h : t.Sound) (rest : ∀ e ∈ earlier, e.Sound) :
    (Entry.tables t earlier).Sound := by
  have all : ∀ e ∈ t :: earlier, e.Sound := List.forall_mem_cons.2 ⟨h, rest⟩
  exact .tables (fun e he => (all e he).distinct) fun e he => (all e he).entries

theorem sound_tables_inv {earlier : List Table} (h : (Entry.tables t earlier).Sound) :
    t.Sound ∧ ∀ e ∈ earlier, e.Sound := by
  cases h with
  | tables distinct entries =>
    exact List.forall_mem_cons.1 fun e he => ⟨distinct e he, entries e he⟩

theorem declareLast_sound (fits : d.Fits) (h : t.Sound) (declared : declareLast d key t = some t') :
    t'.Sound := by
  unfold declareLast at declared
  split at declared
  · cases declared
    exact h.put key (.value fits)
  · cases declared
    exact h.put key (Sound.nil.table _)
  · cases declared
    exact h.put key (Sound.nil.tables nofun)
  · next found =>
    cases declared
    exact h.put key ((sound_table_inv (h.find? found)).table _)
  · next found =>
    cases declared
    exact h.put key ((sound_table_inv (h.find? found)).table _)
  · next found =>
    cases declared
    obtain ⟨last, earlier⟩ := sound_tables_inv (h.find? found)
    exact h.put key (Sound.nil.tables (List.forall_mem_cons.2 ⟨last, earlier⟩))
  · cases declared

/-- Declarations keep tables sound. -/
theorem declare_sound (fits : d.Fits) (h : t.Sound) (declared : t.declare d keys = some t') :
    t'.Sound := by
  induction keys generalizing t t' with
  | nil => cases declared
  | cons key rest ih =>
    cases rest with
    | nil => exact declareLast_sound fits h declared
    | cons next more =>
      rw [declare] at declared
      · split at declared
        · obtain ⟨members, below, rfl⟩ := Option.map_eq_some_iff.1 declared
          exact h.put key ((ih .nil below).table _)
        · cases declared
        · next origin members found =>
          split at declared
          · obtain ⟨members', below, rfl⟩ := Option.map_eq_some_iff.1 declared
            exact h.put key ((ih (sound_table_inv (h.find? found)) below).table _)
          · cases declared
        · next last earlier found =>
          obtain ⟨sound, older⟩ := sound_tables_inv (h.find? found)
          split at declared
          · cases declared
          · obtain ⟨last', below, rfl⟩ := Option.map_eq_some_iff.1 declared
            exact h.put key ((ih sound below).tables older)
      · nofun

/-- Work that keeps tables sound may be done in any table below. -/
theorem within_sound {work : Table → Option Table}
    (keeps : ∀ t t', t.Sound → work t = some t' → t'.Sound) (h : t.Sound)
    (worked : within work keys t = some t') : t'.Sound := by
  induction keys generalizing t t' with
  | nil => exact keeps t t' h worked
  | cons key rest ih =>
    rw [within] at worked
    split at worked
    · next origin members found =>
      obtain ⟨members', below, rfl⟩ := Option.map_eq_some_iff.1 worked
      exact h.put key ((ih (sound_table_inv (h.find? found)) below).table _)
    · next last earlier found =>
      obtain ⟨sound, older⟩ := sound_tables_inv (h.find? found)
      obtain ⟨last', below, rfl⟩ := Option.map_eq_some_iff.1 worked
      exact h.put key ((ih sound below).tables older)
    · cases worked

end Table

/-! ## Readers -/

section Readers

variable {α β : Type} {P : α → Prop} {Q : β → Prop}

/-- What a reader answers with has a property, if it answers at all. -/
def Yields (P : α → Prop) (r : Except Fault α) : Prop := ∀ a, r = .ok a → P a

theorem yields_ok {a : α} (h : P a) : Yields P (.ok a) := by
  rintro _ ⟨⟩
  exact h

theorem yields_fault (cause : Cause) (rest : Text) : Yields P (fault cause rest) := nofun

theorem yields_ite {c : Prop} [Decidable c] {x y : Except Fault α} (hx : Yields P x)
    (hy : Yields P y) : Yields P (if c then x else y) := by
  split
  · exact hx
  · exact hy

theorem Yields.bind {x : Except Fault α} {f : α → Except Fault β} (h : Yields P x)
    (next : ∀ a, P a → Yields Q (f a)) : Yields Q (x >>= f) := by
  cases x with
  | error e => nofun
  | ok a => exact next a (h a rfl)

theorem yields_bind {x : Except Fault α} {f : α → Except Fault β} (next : ∀ a, Yields Q (f a)) :
    Yields Q (x >>= f) :=
  Yields.bind (P := fun _ => True) (fun _ _ => trivial) fun a _ => next a

theorem Yields.map {x : Except Fault α} {f : α → β} (h : Yields P x) (keeps : ∀ a, P a → Q (f a)) :
    Yields Q (x.map f) := h.bind fun a ha => yields_ok (keeps a ha)

theorem yields_map {x : Except Fault α} {f : α → β} (h : ∀ a, Q (f a)) : Yields Q (x.map f) :=
  yields_bind fun a => yields_ok (h a)

end Readers

/-- A reader answers with a value as readers build them. -/
abbrev Builds (r : Except Fault (Value × Text)) : Prop := Yields (fun a => a.1.Declared) r

theorem finishNumber_declared (start : Text) (scanned : Phase × Text × Text) :
    Builds (finishNumber start scanned) := by
  unfold finishNumber
  split
  dsimp only
  split
  · exact yields_ok (.integer _)
  · exact yields_ok (.number _)
  · exact yields_ok (.number _)
  · exact yields_fault _ _

theorem readBased_declared (base : Nat) (close : Option CodeUnit) (t : Text) :
    Builds (readBased base close t) := yields_map fun _ => .integer _

theorem readNumber_declared (close : Option CodeUnit) (start : Text) (sign : Option CodeUnit)
    (t : Text) : Builds (readNumber close start sign t) := by
  have scanned (phase : Phase) (seen t : Text) :
      Builds ((scanNumber close phase seen t).bind (finishNumber start)) :=
    yields_bind (finishNumber_declared start)
  have invalid : Builds (fault .invalidValue start) := yields_fault _ _
  unfold readNumber
  split
  · exact invalid
  · dsimp only
    apply yields_ite
    · exact yields_ite (yields_ok (.number _)) invalid
    apply yields_ite
    · exact yields_ite (yields_ok (.number _)) invalid
    apply yields_ite
    · split
      · exact yields_ok (.integer 0)
      apply yields_ite
      · exact yields_ok (.integer 0)
      apply yields_ite
      · exact readBased_declared _ _ _
      apply yields_ite
      · exact readBased_declared _ _ _
      apply yields_ite
      · exact readBased_declared _ _ _
      apply yields_ite
      · exact scanned _ _ _
      apply yields_ite
      · exact scanned _ _ _
      · exact yields_fault _ _
    · exact yields_ite (scanned _ _ _) invalid

theorem finishMoment_declared (start rest : Text) {m : Moment} (h : m.Within) :
    Builds (finishMoment start m rest) :=
  yields_ite (yields_ok (.date h.written)) (yields_fault _ _)

theorem readTimed_declared (t : Text) : Builds (readTimed t) := by
  apply yields_ite
  · exact yields_fault _ _
  · dsimp only
    split
    · exact finishMoment_declared _ _ (Moment.ofLocal_within _)
    apply yields_ite
    · exact finishMoment_declared _ _ (Moment.ofZoned_within _)
    apply yields_ite
    · exact finishMoment_declared _ _ (Moment.ofZoned_within _)
    · exact finishMoment_declared _ _ (Moment.ofLocal_within _)

theorem readDateTime_declared (close : Option CodeUnit) (t : Text) :
    Builds (readDateTime close t) := by
  apply yields_ite
  · exact readNumber_declared _ _ _ _
  apply yields_ite
  · exact yields_fault _ _
  apply yields_ite
  · exact readTimed_declared t
  · exact finishMoment_declared _ _ (Moment.ofDate_within _)

theorem readTime_declared (close : Option CodeUnit) (t : Text) : Builds (readTime close t) := by
  apply yields_ite
  · nofun
  apply yields_ite
  · exact readNumber_declared _ _ _ _
  · exact finishMoment_declared _ _ (Moment.ofTime_within _)

theorem readWord_declared (word t : Text) {v : Value} (h : v.Declared) :
    Builds (readWord word v t) :=
  yields_ite (yields_ok h) (yields_fault _ _)

theorem readScalar_declared (close : Option CodeUnit) (t : Text) : Builds (readScalar close t) := by
  unfold readScalar
  split
  · exact readNumber_declared _ _ _ _
  apply yields_ite
  · exact yields_map fun _ => .string _
  apply yields_ite
  · exact readWord_declared _ _ (.boolean true)
  apply yields_ite
  · exact readWord_declared _ _ (.boolean false)
  apply yields_ite
  · exact readNumber_declared _ _ _ _
  apply yields_ite
  · exact readDateTime_declared _ _
  apply yields_ite
  · exact readTime_declared _ _
  · exact readNumber_declared _ _ _ _

/-! ## Values and lines -/

section Values

variable {read : Text → Except Fault (Value × Text)} (builds : ∀ t, Builds (read t))

include builds

theorem readItems_declared (start fuel t : Text) :
    Yields (fun a => ∀ v ∈ a.1, v.Declared) (readItems read start fuel t) := by
  induction fuel generalizing t with
  | nil => exact yields_fault _ _
  | cons _ fuel ih =>
    apply yields_ite
    · exact yields_fault _ _
    refine yields_bind fun t => ?_
    apply yields_ite
    · exact yields_ok nofun
    refine (builds t).bind ?_
    rintro ⟨v, t⟩ hv
    refine yields_bind fun t => ?_
    split
    · exact yields_fault _ _
    apply yields_ite
    · exact yields_ok (List.forall_mem_singleton.2 hv)
    apply yields_ite
    · refine (ih _).bind ?_
      rintro ⟨more, rest⟩ hmore
      exact yields_ok (List.forall_mem_cons.2 ⟨hv, hmore⟩)
    · exact yields_fault _ _

theorem readMembers_sound (start fuel t : Text) {done : Table} (h : done.Sound) :
    Yields (fun a => Table.Sound a.1) (readMembers read start fuel done t) := by
  induction fuel generalizing t done with
  | nil => exact yields_fault _ _
  | cons _ fuel ih =>
    apply yields_ite
    · exact yields_fault _ _
    refine yields_bind fun t => ?_
    apply yields_ite
    · exact yields_ok h
    refine yields_bind fun named => ?_
    obtain ⟨key, rest⟩ := named
    apply yields_ite
    · exact yields_fault _ _
    refine (builds _).bind ?_
    rintro ⟨v, t⟩ hv
    have grown : ((done.declare (.value v) key).getD done).Sound := by
      cases declared : done.declare (.value v) key with
      | none => exact h
      | some t' => exact Table.declare_sound (fits_value hv) h declared
    refine yields_bind fun t => ?_
    split
    · exact yields_fault _ _
    apply yields_ite
    · exact yields_ok grown
    apply yields_ite
    · exact ih _ grown
    · exact yields_fault _ _

end Values

/-- The reader of values builds them so, however deep they nest. -/
theorem readValue_declared (depth : Nat) (close : Option CodeUnit) (t : Text) :
    Builds (readValue depth close t) := by
  induction depth generalizing close t with
  | zero => exact yields_ite (yields_fault _ _) (readScalar_declared close t)
  | succ depth ih =>
    apply yields_ite
    · exact (readItems_declared (ih _) t t t.tail).map fun _ items => .array items
    apply yields_ite
    · exact (readMembers_sound (ih _) t t t.tail .nil).map fun _ members => members.declared
    · exact readScalar_declared close t

theorem readHeader_sound {s : Progress} (h : s.root.Sound) (t : Text) :
    Yields (fun a => a.1.root.Sound) (readHeader s t) := by
  refine yields_bind fun named => ?_
  obtain ⟨key, rest⟩ := named
  apply yields_ite
  · exact yields_fault _ _
  split
  · exact yields_fault _ _
  · next root declared =>
    refine yields_ok (Table.declare_sound ?_ h declared)
    split
    · trivial
    · trivial

theorem readPair_sound {s : Progress} (h : s.root.Sound) (t : Text) :
    Yields (fun a => a.1.root.Sound) (readPair s t) := by
  refine yields_bind fun named => ?_
  obtain ⟨key, rest⟩ := named
  apply yields_ite
  · exact yields_fault _ _
  refine (readValue_declared _ _ _).bind ?_
  rintro ⟨v, t⟩ hv
  refine yields_ok ?_
  dsimp only
  cases worked : Table.within (Table.declare (.value v) key) s.header s.root with
  | none => exact h
  | some root =>
    refine Table.within_sound (fun t t' sound declared => ?_) h worked
    exact Table.declare_sound (fits_value hv) sound declared

/-- A line keeps the document sound. -/
theorem readLine_sound {s : Progress} (h : s.root.Sound) (t : Text) :
    Yields (fun a => a.1.root.Sound) (readLine s t) := by
  apply yields_ite
  · refine (readHeader_sound h _).bind ?_
    rintro ⟨s', rest⟩ sound
    refine yields_bind fun rest => ?_
    split
    · exact yields_ok sound
    · exact yields_ite (yields_bind fun _ => yields_ok sound) (yields_fault _ _)
  · refine (readPair_sound h t).bind ?_
    rintro ⟨s', rest⟩ sound
    refine yields_bind fun rest => ?_
    split
    · exact yields_ok sound
    · exact yields_ite (yields_bind fun _ => yields_ok sound) (yields_fault _ _)

theorem readLines_sound (fuel : Nat) {s : Progress} (h : s.root.Sound) (t : Text) :
    Yields Table.Sound (readLines fuel s t) := by
  induction fuel generalizing s t with
  | zero => exact yields_ok h
  | succ fuel ih =>
    apply yields_ite
    · exact yields_ok h
    refine (readLine_sound h t).bind ?_
    rintro ⟨s', rest⟩ sound
    exact ih sound rest

/-- Every document of TOML is built of tables without repeated keys and of legible dates, and of no
null. -/
theorem read_declared (t : Text) : Yields Value.Declared (read t) := by
  unfold read
  refine yields_bind fun rest => ?_
  exact (readLines_sound _ .nil rest).bind fun root sound => yields_ok sound.declared

theorem Reader.standard_documented : Reader.standard.Documented where
  declared {text v} h := by
    unfold Reader.standard at h
    dsimp only at h
    cases parsed : Toml.read text with
    | error fault =>
      rw [parsed] at h
      cases h
    | ok value =>
      rw [parsed] at h
      cases h
      exact read_declared text _ parsed

end Toml

end SpanTree
