import SpanTree.Proofs.Change
import SpanTree.Proofs.Mirror

/-!
# Writing one value

All that writing a value to a node can do, apart from its parts.

* `Tree.Sprouts`: a node has more children than before, and nothing else was touched;
* `Tree.Opens`: a node shows a value and has a new child for each part of it;
* `Source.fault?`, `Tree.Declines`: why a value is refused for its own sake, and by a node;
* `put_written`: whatever the value and the node are, the value is refused before any node is
  touched, or its node is opened, or there was no buffer for a text;
* `writeAll_begun`: and so it is with the topmost value of a stack.
-/

namespace SpanTree

/-- A value and a container agree: a table with a map, an array with a seq. -/
def Source.Extends : Source → Kind → Prop
  | .table _ _, .map => True
  | .array _ _, .seq => True
  | _, _ => False

/-- Why a value is refused, whatever its parts are and wherever it lies. -/
def Source.fault? (node : Quantity) : Source → Option Failure
  | .table _ (.broken error) => some (.interrupted error)
  | .array _ (.broken error) => some (.interrupted error)
  | .unsupported description => some (.unsupported description node)
  | .unknown kind => some (.unknownKind kind node)
  | .absent => some .missingValue
  | _ => none

namespace Source

theorem Plain.fault {value : Source} (plain : value.Plain) (node : Quantity) :
    value.fault? node = none := by
  cases plain <;> rfl

theorem fault_ne_stuck {value : Source} {node : Quantity} {f : Failure}
    (h : value.fault? node = some f) : f ≠ .arena .stuck := by
  rintro rfl
  cases value with
  | table members ending => cases ending <;> cases h
  | array items ending => cases ending <;> cases h
  | scalar | unsupported | unknown | absent => cases h

/-- Whether a value is refused for its own sake does not depend on the node. -/
theorem fault_none {value : Source} {node : Quantity} (h : value.fault? node = none)
    (node' : Quantity) : value.fault? node' = none := by
  cases value with
  | table members ending => cases ending <;> first | rfl | cases h
  | array items ending => cases ending <;> first | rfl | cases h
  | scalar => rfl
  | unsupported | unknown | absent => cases h

/-- What is not refused for its own sake is plain if its parts are. -/
theorem plain_of_fault {value : Source} {node : Quantity} (sound : value.fault? node = none)
    (parts : ∀ part ∈ value.parts, part.Plain) : value.Plain := by
  cases value with
  | scalar value => exact .scalar value
  | table members ending =>
    cases ending with
    | complete => exact .table fun m hm => parts m.2 (List.mem_map_of_mem hm)
    | broken error => cases sound
  | array items ending =>
    cases ending with
    | complete => exact .array parts
    | broken error => cases sound
  | unsupported | unknown | absent => cases sound

end Source

namespace Tree

/-! ## New children -/

/-- Node `id`, which was `n`, has one more child for each label, and nothing else was touched. -/
structure Sprouts (t : Tree) (id : Nat) (n : Node) (labels : List (Option Text)) (t' : Tree) :
    Prop where
  size : t'.size = t.size + labels.length
  bytes : t.arena.bytes <+: t'.arena.bytes
  capacity : t.arena.capacity ≤ t'.arena.capacity
  kept : ∀ j, j < t.size → j ≠ id → t'.nodes[j]? = t.nodes[j]?
  here : t'.nodes[id]? =
    some { n with children := n.children ++ (List.range' t.size labels.length).toArray }
  new : ∀ i label, labels[i]? = some label → ∃ c, t'.nodes[t.size + i]? = some c ∧
    c.parent = some id ∧ c.children = #[] ∧ c.value = .blank ∧ t'.arena.Names c.key label

theorem Sprouts.nil {t : Tree} {id : Nat} {n : Node} (h : t.nodes[id]? = some n) :
    Sprouts t id n [] t where
  size := rfl
  bytes := List.prefix_rfl
  capacity := Nat.le_refl _
  kept _ _ _ := rfl
  here := by rw [h]; simp
  new _ _ h := by simp at h

theorem Sprouts.cons {t t' t'' : Tree} {id : Nat} {n : Node} {label : Option Text}
    {labels : List (Option Text)} (hid : id < t.size) (first : Sprouts t id n [label] t')
    (later : Sprouts t' id { n with children := n.children.push t.size } labels t'') :
    Sprouts t id n (label :: labels) t'' := by
  have hsize : t'.size = t.size + 1 := first.size
  refine ⟨?_, first.bytes.trans later.bytes, Nat.le_trans first.capacity later.capacity, ?_, ?_, ?_⟩
  · rw [later.size, hsize, List.length_cons]
    omega
  · intro j hj hne
    rw [later.kept j (by omega) hne, first.kept j hj hne]
  · have hnext : n.children.push t.size ++ (List.range' (t.size + 1) labels.length).toArray =
        n.children ++ (t.size :: List.range' (t.size + 1) labels.length).toArray := by
      apply Array.ext'
      simp
    rw [later.here, hsize, List.length_cons, List.range'_succ, ← hnext]
  · intro i label' hi
    cases i with
    | zero =>
      obtain ⟨c, hc, hp, he, hv, hn⟩ := first.new 0 label rfl
      rw [List.getElem?_cons_zero, Option.some.injEq] at hi
      subst hi
      exact ⟨c, by rw [later.kept _ (by omega) (by omega), hc], hp, he, hv, hn.mono later.bytes⟩
    | succ i =>
      rw [List.getElem?_cons_succ] at hi
      obtain ⟨c, hc, rest⟩ := later.new i label' hi
      exact ⟨c, by rw [← hc, hsize]; congr 1; omega, rest⟩

theorem addItems_sprouts {t : Tree} {id : Nat} {n : Node} (items : List Source)
    (h : t.nodes[id]? = some n) (container : n.kind.isContainer = true) :
    ∃ t', addItems (.natural id) items.length t = (.ok (), t') ∧
      Sprouts t id n (items.map fun _ => none) t' := by
  induction items generalizing t n with
  | nil => exact ⟨t, rfl, .nil h⟩
  | cons item rest ih =>
    have hid : id < t.size := lt_size h
    obtain ⟨t', hr, hs⟩ := ih (t := t.withChild id) (withChild_parent h) container
    refine ⟨t', ?_, Sprouts.cons hid ?_ hs⟩
    · rw [List.length_cons, addItems_succ, Edit.bind_ok (addChild_eq h container), hr]
    · refine ⟨withChild_size, List.prefix_rfl, Nat.le_refl _, ?_, ?_, ?_⟩
      · intro j hj hne
        exact withChild_other hne hj
      · rw [withChild_parent h]
        simp
      · intro i label hi
        obtain ⟨rfl, rfl⟩ : i = 0 ∧ label = none := by
          cases i <;> simp_all
        exact ⟨_, withChild_new, rfl, rfl, rfl, rfl⟩

/-- All members are added, or there was no buffer for a key. -/
theorem addMembers_sprouts {t : Tree} {id : Nat} {n : Node} (keys : List Text)
    (h : t.nodes[id]? = some n) (container : n.kind.isContainer = true) :
    (t.arena.capacity = 0 ∧ ∃ t', addMembers (.natural id) keys t = (.error (.arena .stuck), t')) ∨
      ∃ t', addMembers (.natural id) keys t = (.ok (), t') ∧
        Sprouts t id n (keys.map some) t' := by
  induction keys generalizing t n with
  | nil => exact .inr ⟨t, rfl, .nil h⟩
  | cons key rest ih =>
    have hid : id < t.size := lt_size h
    rw [addMembers_cons, Edit.bind_ok (addChild_eq h container)]
    rcases copy_cases key (t.withChild id) with
      ⟨empty, stuck⟩ | ⟨arena, span, hcopy, hbytes, hmore, hspells⟩
    · exact .inl ⟨empty, _, Edit.bind_error stuck⟩
    let t₁ : Tree := { t.withChild id with arena }
    let child : Node := { kind := .scalar, key := .known span, parent := some id }
    have hnew : t₁.nodes[t.size]? = some { parent := some id } := withChild_new
    have hlt : t.size < t₁.size := lt_size hnew
    have hscalar : makeScalar (.natural t.size) (.known span) .blank t₁ =
        (.ok (), t₁.withNode t.size child) := makeScalar_eq _ _ hnew rfl
    have hhere : (t₁.withNode t.size child).nodes[id]? =
        some { n with children := n.children.push t.size } := by
      rw [withNode_other (by omega)]
      exact withChild_parent h
    rw [Edit.bind_ok hcopy, Edit.bind_ok hscalar]
    rcases ih hhere container with ⟨empty, t', hr⟩ | ⟨t', hr, hs⟩
    · exact .inl ⟨Nat.eq_zero_of_le_zero (Nat.le_trans hmore (Nat.le_of_eq empty)), t', hr⟩
    refine .inr ⟨t', hr, Sprouts.cons hid ?_ hs⟩
    refine ⟨?_, ⟨Utf8.encode key, hbytes.symm⟩, hmore, ?_, ?_, ?_⟩
    · rw [withNode_size]
      exact withChild_size
    · intro j hj hne
      rw [withNode_other (by omega)]
      exact withChild_other hne hj
    · rw [hhere]
      simp
    · intro i label hi
      obtain ⟨rfl, rfl⟩ : i = 0 ∧ label = some key := by
        cases i <;> simp_all
      exact ⟨child, withNode_self hlt, rfl, rfl, rfl, hspells⟩

/-! ## Writing one value -/

/-- Node `id`, which was `n`, shows a value and has one more child for each part of it; nothing
else was touched. A node that had children before keeps its kind. -/
structure Opens (t : Tree) (id : Nat) (n : Node) (value : Source) (first : Nat) (t' : Tree) :
    Prop where
  size : t'.size = t.size + value.parts.length
  first : value.parts ≠ [] → first = t.size
  bytes : t.arena.bytes <+: t'.arena.bytes
  capacity : t.arena.capacity ≤ t'.arena.capacity
  kept : ∀ j, j < t.size → j ≠ id → t'.nodes[j]? = t.nodes[j]?
  here : ∃ n', t'.nodes[id]? = some n' ∧ value.Shown t'.arena n' ∧
    n'.key = value.keptKey n.key ∧ n'.parent = n.parent ∧
    n'.children = n.children ++ (List.range' t.size value.parts.length).toArray ∧
    (n.children = #[] ∨ n'.kind = n.kind)
  new : ∀ i label, value.labels[i]? = some label → ∃ c, t'.nodes[t.size + i]? = some c ∧
    c.parent = some id ∧ c.children = #[] ∧ c.value = .blank ∧ t'.arena.Names c.key label

/-- A container is opened by giving its node another kind and then a child for each part. -/
theorem Sprouts.opens {t t' : Tree} {id : Nat} {n : Node} {value : Source} {kind : Kind}
    (hs : Sprouts (t.withNode id (n.reassigned kind n.key.orBlank .blank)) id
      (n.reassigned kind n.key.orBlank .blank) value.labels t')
    (shown : ∀ n' : Node, n'.kind = kind → n'.value = .blank → n'.flags = 0 →
      value.Shown t'.arena n') (key : value.keptKey n.key = n.key.orBlank)
    (free : n.children = #[] ∨ n.kind = kind) : Opens t id n value t.size t' where
  size := by rw [hs.size, withNode_size, value.labels_length]
  first _ := rfl
  bytes := hs.bytes
  capacity := hs.capacity
  kept j hj hne := by rw [hs.kept j (by rw [withNode_size]; exact hj) hne, withNode_other hne]
  here := by
    refine ⟨_, hs.here, shown _ rfl rfl rfl, key.symm, rfl, ?_, free.imp (fun none => none) Eq.symm⟩
    rw [withNode_size, value.labels_length]
    rfl
  new i label hi := by
    obtain ⟨c, hc, rest⟩ := hs.new i label hi
    rw [withNode_size] at hc
    exact ⟨c, hc, rest⟩

variable {t : Tree} {id : Nat} {n : Node}

/-- A scalar is shown by a node with its text, whatever the flags were before. -/
theorem opens_scalar {t' : Tree} {arena : Arena} {span : Span} {value : Scalar} {flags : BitVec 32}
    (harena : t'.arena = arena) (hbytes : arena.bytes = t.arena.bytes ++ Utf8.encode value.text)
    (hmore : t.arena.capacity ≤ arena.capacity) (hspells : arena.Spells (.known span) value.text)
    (size : t'.size = t.size) (kept : ∀ j, j < t.size → j ≠ id → t'.nodes[j]? = t.nodes[j]?)
    (free : n.children = #[])
    (here : t'.nodes[id]? = some { n.reassigned .scalar n.key (.known span) with flags })
    (hflags : flags = if value.isQuoted then Node.quotedFlag else 0) :
    Opens t id n (.scalar value) 0 t' where
  size := size
  first h := absurd rfl h
  bytes := by rw [harena]; exact ⟨_, hbytes.symm⟩
  capacity := by rw [harena]; exact hmore
  kept := kept
  here := by
    refine ⟨_, here, ⟨rfl, by rw [harena]; exact hspells, hflags⟩, rfl, rfl, ?_, .inl free⟩
    exact Array.append_empty.symm
  new i label hi := by simp [Source.labels] at hi

/-- The text of a scalar is stored and shown, or there was no buffer for it. -/
theorem putScalar_opens (value : Scalar) (h : t.nodes[id]? = some n) (free : n.children = #[]) :
    (t.arena.capacity = 0 ∧ putScalar (.natural id) value t = (.error (.arena .stuck), t)) ∨
      ∃ t', putScalar (.natural id) value t = (.ok (), t') ∧
        Opens t id n (.scalar value) 0 t' := by
  rw [putScalar_def]
  rcases copy_cases value.text t with
    ⟨empty, stuck⟩ | ⟨arena, span, hcopy, hbytes, hmore, hspells⟩
  · exact .inl ⟨empty, Edit.bind_error stuck⟩
  right
  have hid : id < t.size := lt_size h
  let t₁ : Tree := { t with arena }
  let m : Node := n.reassigned .scalar n.key (.known span)
  have hkey : Edit.ask (·.key (.natural id)) t₁ = (.ok n.key, t₁) := ask_key (t := t₁) h
  have hscalar : makeScalar (.natural id) n.key (.known span) t₁ = (.ok (), t₁.withNode id m) :=
    makeScalar_eq _ _ (t := t₁) h free
  have hm : (t₁.withNode id m).nodes[id]? = some m := withNode_self hid
  rw [Edit.bind_ok hcopy, Edit.bind_ok hkey, Edit.bind_ok hscalar]
  by_cases quoted : value.isQuoted = true
  · rw [if_pos quoted, flag_eq _ hm]
    refine ⟨_, rfl, opens_scalar rfl hbytes hmore hspells ?_ ?_ free
      (withNode_self (by rw [withNode_size]; exact hid)) ?_⟩
    · rw [withNode_size, withNode_size]
      rfl
    · intro j hj hne
      rw [withNode_other hne, withNode_other hne]
    · rw [if_pos quoted]
      exact BitVec.zero_or
  · rw [if_neg quoted]
    refine ⟨_, rfl, opens_scalar rfl hbytes hmore hspells withNode_size ?_ free hm ?_⟩
    · intro j hj hne
      rw [withNode_other hne]
    · rw [if_neg quoted]

/-- A node declines a value, with a report: it is not there, or it has children and does not become
what the value makes of it. -/
inductive Declines (t : Tree) (node : Quantity) (value : Source) : Failure → Report → Prop
  | unknown (nowhere : t.node? node = none) : Declines t node value (.unknownNode node t.size)
      ⟨lit "Unknown node id " ++ node.text ++ lit " (tree has " ++ .ofNat t.size ++
        lit " nodes).", none⟩
  | container {n : Node} {wanted : Kind} (found : t.node? node = some n)
      (taken : n.children ≠ #[]) (made : value.Extends wanted) (other : n.kind ≠ wanted) :
      Declines t node value (.populated node wanted n.children.size n.kind)
        ⟨lit "Cannot reassign node " ++ node.text ++ lit " to " ++ wanted.text ++
          lit ": it already holds " ++ .ofNat n.children.size ++ lit " children as " ++
          n.kind.text ++ lit ".", none⟩
  | scalar {n : Node} {s : Scalar} (found : t.node? node = some n) (taken : n.children ≠ #[])
      (made : value = .scalar s) : Declines t node value (.populatedScalar node n.children.size)
        ⟨lit "Cannot reassign node " ++ node.text ++ lit " to scalar: it holds " ++
          .ofNat n.children.size ++ lit " children.", none⟩

theorem Declines.reported {node : Quantity} {value : Source} {f : Failure} {report : Report}
    (h : Declines t node value f report) : f.report? = some report := by
  cases h <;> rfl

/-- What the arena holds is no matter. -/
theorem Declines.of_arena {arena : Arena} {node : Quantity} {value : Source} {f : Failure}
    {report : Report} (h : Declines { t with arena } node value f report) :
    Declines t node value f report := by
  cases h with
  | unknown nowhere => exact .unknown nowhere
  | container found taken made other => exact .container found taken made other
  | scalar found taken made => exact .scalar found taken made

/-- Why a value is refused before any node is touched: the node declines it, or it is refused for
its own sake. -/
inductive Refusal (t : Tree) (node : Quantity) (value : Source) : Failure → Prop
  | declined {f : Failure} {report : Report} (declines : Declines t node value f report) :
      Refusal t node value f
  | fault {f : Failure} (fault : value.fault? node = some f) : Refusal t node value f

namespace Refusal

variable {node : Quantity} {value : Source} {f : Failure}

theorem ne_stuck (h : Refusal t node value f) : f ≠ .arena .stuck := by
  cases h with
  | declined declines => cases declines <;> nofun
  | fault fault => exact Source.fault_ne_stuck fault

/-- A node that is there and has no children refuses a value for its own sake only. -/
theorem fault_of_free (h : Refusal t node value f) (found : t.node? node = some n)
    (free : n.children = #[]) : value.fault? node = some f := by
  cases h with
  | declined declines =>
    cases declines with
    | unknown nowhere =>
      rw [nowhere] at found
      cases found
    | container found' taken | scalar found' taken =>
      rw [found'] at found
      cases found
      exact absurd free taken
  | fault fault => exact fault

end Refusal

/-- What comes of writing a value to a node. Without a buffer there may be no room for a text; or
the value is refused before any node is touched; or the node is opened, and then only a listing that
broke off is an error. -/
inductive Written (t : Tree) (node : Quantity) (value : Source) :
    Except Failure Nat × Tree → Prop
  | stuck {t' : Tree} (empty : t.arena.capacity = 0) :
      Written t node value (.error (.arena .stuck), t')
  | refused {f : Failure} {arena : Arena} (cause : Refusal t node value f)
      (bytes : t.arena.bytes <+: arena.bytes) (capacity : t.arena.capacity ≤ arena.capacity) :
      Written t node value (.error f, { t with arena })
  | opened {id : Nat} {n : Node} {first : Nat} {t' : Tree} (same : node = .natural id)
      (found : t.nodes[id]? = some n) (opens : Opens t id n value first t') :
      Written t node value ((value.fault? node).elim (.ok first) .error, t')

theorem Written.unchanged {node : Quantity} {value : Source} {f : Failure}
    (cause : Refusal t node value f) : Written t node value (.error f, t) :=
  .refused cause List.prefix_rfl (Nat.le_refl _)

/-- A scalar is refused by a node that is not there or has children, once its text was copied. -/
theorem putScalar_refused {node : Quantity} (value : Scalar)
    (taken : ∀ n, t.node? node = some n → n.children ≠ #[]) :
    (t.arena.capacity = 0 ∧ putScalar node value t = (.error (.arena .stuck), t)) ∨
      ∃ f arena, putScalar node value t = (.error f, { t with arena }) ∧
        Refusal t node (.scalar value) f ∧ t.arena.bytes <+: arena.bytes ∧
        t.arena.capacity ≤ arena.capacity := by
  rw [putScalar_def]
  rcases copy_cases value.text t with ⟨empty, stuck⟩ | ⟨arena, span, hcopy, hbytes, hmore, _⟩
  · exact .inl ⟨empty, Edit.bind_error stuck⟩
  right
  rw [Edit.bind_ok hcopy]
  have bytes : t.arena.bytes <+: arena.bytes := ⟨_, hbytes.symm⟩
  cases hn : t.node? node with
  | none =>
    have nowhere : Tree.node? { t with arena } node = none := hn
    exact ⟨_, arena, Edit.bind_error (ask_key_none nowhere), .declined (.unknown hn), bytes, hmore⟩
  | some n =>
    obtain ⟨id, rfl, found⟩ := node?_natural hn
    have found : (Tree.mk arena t.nodes).nodes[id]? = some n := found
    rw [Edit.bind_ok (ask_key found),
      Edit.bind_error (makeScalar_error n.key (.known span) found (taken n hn))]
    exact ⟨_, arena, rfl, .declined (.scalar hn (taken n hn) rfl), bytes, hmore⟩

theorem put_scalar_written (node : Quantity) (value : Scalar) (t : Tree) :
    Written t node (.scalar value) (put node (.scalar value) t) := by
  rw [put_scalar]
  by_cases takes : ∃ n, t.node? node = some n ∧ n.children = #[]
  · obtain ⟨n, hn, free⟩ := takes
    obtain ⟨id, rfl, found⟩ := node?_natural hn
    rcases putScalar_opens value found free with ⟨empty, stuck⟩ | ⟨t', stored, opens⟩
    · rw [Edit.bind_error stuck]
      exact .stuck empty
    · rw [Edit.bind_ok stored]
      exact .opened rfl found opens
  · have taken : ∀ n, t.node? node = some n → n.children ≠ #[] := fun n hn free =>
      takes ⟨n, hn, free⟩
    rcases putScalar_refused value taken with
      ⟨empty, stuck⟩ | ⟨f, arena, refused, cause, bytes, more⟩
    · rw [Edit.bind_error stuck]
      exact .stuck empty
    · rw [Edit.bind_error refused]
      exact .refused cause bytes more

/-- A container is opened by giving its node another kind and adding its parts, unless it has
children and is of another kind. -/
theorem container_written (wanted : Kind) {node : Quantity} {value : Source} {ending : Ending}
    {add : Edit Unit} (made : value.Extends wanted) (container : wanted.isContainer = true)
    (adds : ∀ {t : Tree} {id : Nat} {n : Node}, node = .natural id → t.nodes[id]? = some n →
      n.kind.isContainer = true →
        (t.arena.capacity = 0 ∧ ∃ t', add t = (.error (.arena .stuck), t')) ∨
          ∃ t', add t = (.ok (), t') ∧ Sprouts t id n value.labels t')
    (shown : ∀ (a : Arena) (n' : Node), n'.kind = wanted → n'.value = .blank → n'.flags = 0 →
      value.Shown a n') (key : ∀ slot, value.keptKey slot = slot.orBlank)
    (fault : ∀ first : Nat, ∀ t, (do finish ending; return first : Edit Nat) t =
      ((value.fault? node).elim (.ok first) .error, t)) (t : Tree) :
    Written t node value ((do
      makeContainer wanted node (← Edit.ask (·.key node))
      let first ← Edit.ask fun t => .ok t.size
      add
      finish ending
      return first : Edit Nat) t) := by
  cases hn : t.node? node with
  | none =>
    rw [Edit.bind_error (ask_key_none hn)]
    exact .unchanged (.declined (.unknown hn))
  | some n =>
    obtain ⟨id, rfl, found⟩ := node?_natural hn
    rw [Edit.bind_ok (ask_key found)]
    by_cases free : n.children = #[] ∨ n.kind = wanted
    · rw [Edit.bind_ok (makeContainer_eq n.key found free), Edit.bind_ok (ask_size _)]
      rcases adds (n := n.reassigned wanted n.key.orBlank .blank) rfl
        (withNode_self (lt_size found)) container with
        ⟨empty, t', stuck⟩ | ⟨t', added, sprouts⟩
      · rw [Edit.bind_error stuck]
        exact .stuck empty
      · rw [Edit.bind_ok added, fault, withNode_size]
        exact .opened rfl found (sprouts.opens (shown _) (key _) free)
    · obtain ⟨some, other⟩ := not_or.1 free
      rw [Edit.bind_error (makeContainer_error n.key found some other)]
      exact .unchanged (.declined (.container hn some made other))

/-- **What comes of writing one value.** -/
theorem put_written (node : Quantity) (value : Source) (t : Tree) :
    Written t node value (put node value t) := by
  cases value with
  | scalar value => exact put_scalar_written node value t
  | table members ending =>
    rw [put_table]
    refine container_written .map (by trivial) rfl ?_ ?_ ?_ ?_ t
    · rintro t id n rfl found container
      have h := addMembers_sprouts (members.map (·.1)) found container
      rwa [List.map_map] at h
    · exact fun _ _ kind value flags => ⟨kind, value, flags⟩
    · exact fun _ => rfl
    · intro first t
      cases ending <;> rfl
  | array items ending =>
    rw [put_array]
    refine container_written .seq (by trivial) rfl ?_ ?_ ?_ ?_ t
    · rintro t id n rfl found container
      exact .inr (addItems_sprouts items found container)
    · exact fun _ _ kind value flags => ⟨kind, value, flags⟩
    · exact fun _ => rfl
    · intro first t
      cases ending <;> rfl
  | unsupported | unknown | absent => exact .unchanged (.fault rfl)

/-! ## Writing a stack -/

theorem consecutive_nodes (depth : Nat) (values : List Source) (first : Nat) :
    (Pending.consecutive depth values first).map (·.node) =
      (List.range' first values.length).map .natural := by
  induction values generalizing first with
  | nil => rfl
  | cons value rest ih =>
    simp only [Pending.consecutive, List.map_cons, List.length_cons, List.range'_succ, ih]

theorem mem_consecutive {depth first : Nat} {values : List Source} {item : Pending} :
    item ∈ Pending.consecutive depth values first ↔
      ∃ i value, values[i]? = some value ∧ item = ⟨value, .natural (first + i), depth⟩ := by
  induction values generalizing first with
  | nil => simp [Pending.consecutive]
  | cons value rest ih =>
    rw [Pending.consecutive, List.mem_cons, ih]
    constructor
    · rintro (rfl | ⟨i, v, hv, rfl⟩)
      · exact ⟨0, value, rfl, rfl⟩
      · exact ⟨i + 1, v, hv, by rw [Nat.add_right_comm, Nat.add_assoc]⟩
    · rintro ⟨i, v, hv, rfl⟩
      cases i with
      | zero =>
        rw [List.getElem?_cons_zero, Option.some.injEq] at hv
        subst hv
        exact .inl rfl
      | succ i =>
        refine .inr ⟨i, v, hv, ?_⟩
        rw [Nat.add_right_comm, Nat.add_assoc]

/-- The parts of a value reach no deeper than the value. -/
theorem children_within {value : Source} (plain : value.Plain) (node : Quantity) (first : Nat) :
    ∀ other ∈ Pending.children ⟨value, node, 0⟩ first,
      other.value.Plain ∧ other.depth + other.value.height ≤ value.height := by
  intro other inside
  obtain ⟨i, part, hpart, rfl⟩ := mem_consecutive.1 inside
  have mem := List.mem_of_getElem? hpart
  have lower := Source.height_part mem
  refine ⟨plain.part mem, ?_⟩
  dsimp only at lower ⊢
  omega

theorem writeAll_cons {limit : Quantity} {item : Pending} {rest : List Pending} {first : Nat}
    {t' : Tree} (shallow : limit.exceededBy item.depth = false)
    (h : put item.node item.value t = (.ok first, t')) :
    writeAll limit (item :: rest) t = writeAll limit (item.children first ++ rest) t' := by
  rw [writeAll_def, shallow, h]
  rfl

/-- What comes of the topmost value of a stack. It is too deep, or it is refused, or its node is
opened; then its parts and the rest are written, unless its listing broke off. -/
inductive Begun (limit : Quantity) (item : Pending) (rest : List Pending) (t : Tree) :
    Except Failure Unit × Tree → Prop
  | deep (deep : limit.exceededBy item.depth = true) :
      Begun limit item rest t (.error (.tooDeep limit item.node), t)
  | stuck {t' : Tree} (empty : t.arena.capacity = 0) :
      Begun limit item rest t (.error (.arena .stuck), t')
  | refused {f : Failure} {arena : Arena} (shallow : limit.exceededBy item.depth = false)
      (cause : Refusal t item.node item.value f) (bytes : t.arena.bytes <+: arena.bytes)
      (capacity : t.arena.capacity ≤ arena.capacity) :
      Begun limit item rest t (.error f, { t with arena })
  | broken {id : Nat} {n : Node} {first : Nat} {t' : Tree} {f : Failure}
      (shallow : limit.exceededBy item.depth = false) (same : item.node = .natural id)
      (found : t.nodes[id]? = some n) (opens : Opens t id n item.value first t')
      (fault : item.value.fault? item.node = some f) : Begun limit item rest t (.error f, t')
  | opened {id : Nat} {n : Node} {first : Nat} {t' : Tree}
      (shallow : limit.exceededBy item.depth = false) (same : item.node = .natural id)
      (found : t.nodes[id]? = some n) (opens : Opens t id n item.value first t')
      (fault : item.value.fault? item.node = none)
      (wrote : put item.node item.value t = (.ok first, t')) :
      Begun limit item rest t (writeAll limit (item.children first ++ rest) t')

theorem writeAll_begun (limit : Quantity) (item : Pending) (rest : List Pending) (t : Tree) :
    Begun limit item rest t (writeAll limit (item :: rest) t) := by
  rw [writeAll_def]
  split
  next deep => exact .deep deep
  next shallow =>
  have shallow := Bool.eq_false_iff.2 shallow
  have written := put_written item.node item.value t
  generalize wrote : put item.node item.value t = p at written
  cases written with
  | stuck empty => exact .stuck empty
  | refused cause bytes capacity => exact .refused shallow cause bytes capacity
  | opened same found opens =>
    cases fault : item.value.fault? item.node with
    | some f => exact .broken shallow same found opens fault
    | none =>
      rw [fault] at wrote
      exact .opened shallow same found opens fault wrote

/-- The parts of a value that was written go to the new nodes. -/
theorem Opens.mem_children {item other : Pending} {first : Nat} {t' : Tree}
    (ho : Opens t id n item.value first t') (mem : other ∈ item.children first) :
    ∃ i part, item.value.parts[i]? = some part ∧
      other = ⟨part, .natural (t.size + i), item.depth + 1⟩ := by
  obtain ⟨i, part, hp, rfl⟩ := mem_consecutive.1 mem
  have some : item.value.parts ≠ [] := by
    intro none
    rw [none] at hp
    cases hp
  rw [ho.first some]
  exact ⟨i, part, hp, rfl⟩

end Tree

end SpanTree
