import SpanTree.Proofs.Histories

/-!
# Two runs side by side

Writing a value never asks where the texts of nodes lie. So two trees that differ in nothing else
still differ in nothing else after the same changes, and the changes end alike.

* `Node.Agrees`, `Tree.Twin`: nodes and trees that differ at most in where their texts lie;
* `Edit.Alike`, `Edit.Alike.bind`: two changes that end alike, one after another;
* `Edit.Blind`: a change that ends alike in all such trees, as those of a value do;
* `revise_alike`, `copy_alike`: changes that are given texts, which may lie in different places;
* `put_blind`, `writeAll_blind`, `load_blind`: one value, a stack of values and a document.
-/

namespace SpanTree

/-- An arena has more bytes behind those of another, and no less room. -/
structure Arena.Extends (a base : Arena) : Prop where
  bytes : base.bytes <+: a.bytes
  capacity : base.capacity ≤ a.capacity

/-- Two slots hold the same, or each spells the same text in its own arena. -/
def Slot.Agrees (a b : Arena) (s s' : Slot Span) : Prop :=
  s = s' ∨ ∃ text, a.Spells s text ∧ b.Spells s' text

/-- Two nodes differ at most in where their texts lie. -/
structure Node.Agrees (a b : Arena) (n n' : Node) : Prop where
  kind : n.kind = n'.kind
  flags : n.flags = n'.flags
  parent : n.parent = n'.parent
  children : n.children = n'.children
  key : n.key.Agrees a b n'.key
  value : n.value.Agrees a b n'.value

/-- Two trees whose arenas began alike differ at most in where the texts of nodes lie. -/
structure Tree.Twin (base : Arena) (t u : Tree) : Prop where
  size : t.size = u.size
  left : t.arena.Extends base
  right : u.arena.Extends base
  nodes : ∀ (i : Nat) (n n' : Node), t.nodes[i]? = some n → u.nodes[i]? = some n' →
    n.Agrees t.arena u.arena n'

namespace Arena.Extends

variable {a a' base : Arena}

theorem refl (a : Arena) : a.Extends a := ⟨List.prefix_rfl, Nat.le_refl _⟩

theorem trans (h : a.Extends base) (h' : a'.Extends a) : a'.Extends base :=
  ⟨h.bytes.trans h'.bytes, Nat.le_trans h.capacity h'.capacity⟩

end Arena.Extends

theorem Slot.Agrees.mono {a a' b b' : Arena} {s s' : Slot Span} (h : s.Agrees a b s')
    (left : a'.Extends a) (right : b'.Extends b) : s.Agrees a' b' s' :=
  h.imp_right fun ⟨text, spelled, spelled'⟩ =>
    ⟨text, spelled.mono left.bytes, spelled'.mono right.bytes⟩

theorem Slot.Agrees.orBlank {a b : Arena} {s s' : Slot Span} (h : s.Agrees a b s') :
    s.orBlank.Agrees a b s'.orBlank := by
  rcases h with rfl | ⟨text, ⟨_, _, rfl, spelled⟩, _, _, rfl, spelled'⟩
  · exact .inl rfl
  · exact .inr ⟨text, ⟨_, _, rfl, spelled⟩, _, _, rfl, spelled'⟩

theorem Node.Agrees.mono {a a' b b' : Arena} {n n' : Node} (h : n.Agrees a b n')
    (left : a'.Extends a) (right : b'.Extends b) : n.Agrees a' b' n' :=
  { h with key := h.key.mono left right, value := h.value.mono left right }

/-! ## Changes that end alike -/

/-- Two changes end alike: with answers that are related, or with the same failure, and in trees
that differ at most in where their texts lie. -/
inductive Edit.Alike (base : Arena) {α β : Type} (R : Tree → Tree → α → β → Prop) :
    Except Failure α × Tree → Except Failure β × Tree → Prop
  | done {a : α} {b : β} {t u : Tree} (twin : t.Twin base u) (related : R t u a b) :
      Alike base R (.ok a, t) (.ok b, u)
  | failed (f : Failure) {t u : Tree} (twin : t.Twin base u) :
      Alike base R (.error f, t) (.error f, u)

/-- Two changes end alike, and what they answer is the same. -/
abbrev Edit.Same (base : Arena) {α : Type} (x y : Except Failure α × Tree) : Prop :=
  Edit.Alike base (fun _ _ a b => a = b) x y

/-- A change ends alike in trees that differ at most in where their texts lie. -/
def Edit.Blind (base : Arena) {α : Type} (e : Edit α) : Prop :=
  ∀ t u, Tree.Twin base t u → Edit.Same base (e t) (e u)

namespace Edit

variable {α β γ δ : Type} {base : Arena} {R : Tree → Tree → α → β → Prop}
  {Q : Tree → Tree → γ → δ → Prop} {t u : Tree}

theorem Alike.bind {e : Edit α} {e' : Edit β} {f : α → Edit γ} {f' : β → Edit δ}
    (first : Alike base R (e t) (e' u))
    (later : ∀ a b t u, Tree.Twin base t u → R t u a b → Alike base Q (f a t) (f' b u)) :
    Alike base Q ((e >>= f) t) ((e' >>= f') u) := by
  generalize he : e t = x at first
  generalize he' : e' u = y at first
  cases first with
  | done twin related =>
    rw [bind_ok he, bind_ok he']
    exact later _ _ _ _ twin related
  | failed failure twin =>
    rw [bind_error he, bind_error he']
    exact .failed failure twin

theorem Same.bind {e e' : Edit α} {f : α → Edit γ} (first : Same base (e t) (e' u))
    (later : ∀ a, Blind base (f a)) : Same base ((e >>= f) t) ((e' >>= f) u) := by
  refine Alike.bind first ?_
  rintro a _ t u twin rfl
  exact later a t u twin

theorem Blind.bind {e : Edit α} {f : α → Edit γ} (he : Blind base e)
    (hf : ∀ a, Blind base (f a)) : Blind base (e >>= f) :=
  fun t u twin => (he t u twin).bind hf

theorem blind_pure (a : α) : Blind base (pure a : Edit α) := fun _ _ twin => .done twin rfl

theorem blind_fail (f : Failure) : Blind base (fail f : Edit α) := fun _ _ twin => .failed f twin

end Edit

namespace Tree

variable {base : Arena} {t u : Tree} {id : Nat} {n n' : Node}

theorem Twin.node (h : Twin base t u) (found : t.nodes[id]? = some n) :
    ∃ n', u.nodes[id]? = some n' ∧ n.Agrees t.arena u.arena n' := by
  have inside := lt_size found
  rw [h.size] at inside
  obtain ⟨n', found'⟩ := exists_node inside
  exact ⟨n', found', h.nodes id n n' found found'⟩

theorem Twin.node_none (h : Twin base t u) (outside : t.nodes[id]? = none) :
    u.nodes[id]? = none := by
  have size : t.nodes.size = u.nodes.size := h.size
  rw [Array.getElem?_eq_none_iff] at outside ⊢
  omega

/-- More bytes in either arena make no other difference. -/
theorem Twin.extend (h : Twin base t u) {a b : Arena} (left : a.Extends t.arena)
    (right : b.Extends u.arena) : Twin base { t with arena := a } { u with arena := b } where
  size := h.size
  left := h.left.trans left
  right := h.right.trans right
  nodes i n n' found found' := (h.nodes i n n' found found').mono left right

theorem Twin.withNode (h : Twin base t u) (agree : n.Agrees t.arena u.arena n') :
    Twin base (t.withNode id n) (u.withNode id n') where
  size := by rw [withNode_size, withNode_size, h.size]
  left := h.left
  right := h.right
  nodes i m m' found found' := by
    by_cases here : i = id
    · subst here
      have inside := lt_size found
      have inside' := lt_size found'
      rw [withNode_size] at inside inside'
      rw [withNode_self inside] at found
      rw [withNode_self inside'] at found'
      cases found
      cases found'
      exact agree
    · rw [withNode_other here] at found found'
      exact h.nodes i m m' found found'

theorem Twin.withChild (h : Twin base t u) (inside : id < t.size) :
    Twin base (t.withChild id) (u.withChild id) where
  size := by rw [withChild_size, withChild_size, h.size]
  left := h.left
  right := h.right
  nodes i m m' found found' := by
    obtain ⟨n, here⟩ := exists_node inside
    obtain ⟨n', here', agree⟩ := h.node here
    have below := lt_size found
    rw [withChild_size] at below
    by_cases new : i = t.size
    · subst new
      rw [withChild_new] at found
      rw [h.size, withChild_new] at found'
      cases found
      cases found'
      exact ⟨rfl, rfl, rfl, rfl, .inl rfl, .inl rfl⟩
    by_cases parent : i = id
    · subst parent
      rw [withChild_parent here] at found
      rw [withChild_parent here'] at found'
      cases found
      cases found'
      exact { agree with children := by rw [agree.children, h.size] }
    · have old : i < t.size := by omega
      rw [withChild_other parent old] at found
      rw [withChild_other parent (h.size ▸ old)] at found'
      exact h.nodes i m m' found found'

/-! ## Single changes -/

theorem revise_alike (h : Twin base t u) (node : Quantity)
    {change change' : Node → Except Failure Node}
    (alike : ∀ n n', n.Agrees t.arena u.arena n' →
      (∃ f, change n = .error f ∧ change' n' = .error f) ∨
        ∃ m m', change n = .ok m ∧ change' n' = .ok m' ∧ m.Agrees t.arena u.arena m') :
    Edit.Same base (revise node change t) (revise node change' u) := by
  cases node with
  | irregular x =>
    simp only [revise, h.size]
    exact .failed _ h
  | natural id =>
    cases found : t.nodes[id]? with
    | none =>
      simp only [revise, found, h.node_none found, h.size]
      exact .failed _ h
    | some n =>
      obtain ⟨n', found', agree⟩ := h.node found
      rcases alike n n' agree with ⟨f, fails, fails'⟩ | ⟨m, m', gives, gives', agree'⟩
      · rw [revise_error found fails, revise_error found' fails']
        exact .failed f h
      · rw [revise_eq found gives, revise_eq found' gives']
        exact .done (h.withNode agree') rfl

theorem makeContainer_alike (h : Twin base t u) (wanted : Kind) (node : Quantity)
    {key key' : Slot Span} (keys : key.Agrees t.arena u.arena key') :
    Edit.Same base (makeContainer wanted node key t) (makeContainer wanted node key' u) := by
  rw [makeContainer_eq_revise, makeContainer_eq_revise]
  refine revise_alike h node fun n n' agree => ?_
  rw [agree.children, agree.kind]
  split
  · exact .inl ⟨_, rfl, rfl⟩
  · exact .inr ⟨_, _, rfl, rfl, rfl, rfl, agree.parent, agree.children, keys.orBlank, .inl rfl⟩

theorem makeScalar_alike (h : Twin base t u) (node : Quantity) {key key' value value' : Slot Span}
    (keys : key.Agrees t.arena u.arena key') (values : value.Agrees t.arena u.arena value') :
    Edit.Same base (makeScalar node key value t) (makeScalar node key' value' u) := by
  rw [makeScalar_eq_revise, makeScalar_eq_revise]
  refine revise_alike h node fun n n' agree => ?_
  rw [agree.children]
  split
  · exact .inl ⟨_, rfl, rfl⟩
  · exact .inr ⟨_, _, rfl, rfl, rfl, rfl, agree.parent, agree.children, keys, values⟩

theorem flag_blind (node : Quantity) (flags : BitVec 32) : Edit.Blind base (flag node flags) := by
  intro t u h
  rw [flag_eq_revise]
  refine revise_alike h node fun n n' agree => .inr ⟨_, _, rfl, rfl, ?_⟩
  exact { agree with flags := by rw [agree.flags] }

theorem addChild_blind (node : Quantity) : Edit.Blind base (addChild node) := by
  intro t u h
  have none (missing : t.node? node = none) (missing' : u.node? node = none) :
      Edit.Same base (addChild node t) (addChild node u) := by
    rw [addChild_none missing, addChild_none missing', h.size]
    exact .failed _ h
  cases node with
  | irregular x => exact none rfl rfl
  | natural id =>
    cases found : t.nodes[id]? with
    | none => exact none found (h.node_none found)
    | some n =>
      obtain ⟨n', found', agree⟩ := h.node found
      by_cases container : n.kind.isContainer = true
      · have container' := container
        rw [agree.kind] at container'
        rw [addChild_eq found container, addChild_eq found' container']
        exact .done (h.withChild (lt_size found)) h.size
      · have container' := container
        rw [agree.kind] at container'
        rw [addChild_error found container, addChild_error found' container', agree.kind]
        exact .failed _ h

/-- A copied text lies elsewhere, but it is spelled in both arenas. -/
theorem copy_alike (h : Twin base t u) (buffer : 0 < base.capacity) (text : Text) :
    Edit.Alike base (fun t u span span' => Slot.Agrees t.arena u.arena (.known span) (.known span'))
      (copy text t) (copy text u) := by
  rcases copy_cases text t with ⟨empty, _⟩ | ⟨a, span, copied, bytes, more, spells⟩
  · have := h.left.capacity
    omega
  rcases copy_cases text u with ⟨empty, _⟩ | ⟨b, span', copied', bytes', more', spells'⟩
  · have := h.right.capacity
    omega
  rw [copied, copied']
  exact .done (h.extend ⟨⟨_, bytes.symm⟩, more⟩ ⟨⟨_, bytes'.symm⟩, more'⟩)
    (.inr ⟨text, spells, spells'⟩)

theorem ask_key_alike (h : Twin base t u) (node : Quantity) :
    Edit.Alike base (fun t₁ u₁ key key' => (t₁ = t ∧ u₁ = u) ∧ key.Agrees t.arena u.arena key')
      (Edit.ask (·.key node) t) (Edit.ask (·.key node) u) := by
  cases found : t.node? node with
  | none =>
    have none' : u.node? node = none := by
      cases node with
      | irregular x => rfl
      | natural id => exact h.node_none found
    rw [ask_key_none found, ask_key_none none', h.size]
    exact .failed _ h
  | some n =>
    obtain ⟨id, rfl, found⟩ := node?_natural found
    obtain ⟨n', found', agree⟩ := h.node found
    rw [ask_key found, ask_key found']
    exact .done h ⟨⟨rfl, rfl⟩, agree.key⟩

theorem ask_size_blind : Edit.Blind base (Edit.ask fun t => .ok t.size) :=
  fun _ _ h => .done h h.size

/-! ## Values -/

theorem addMembers_blind (buffer : 0 < base.capacity) (node : Quantity) (keys : List Text) :
    Edit.Blind base (addMembers node keys) := by
  induction keys with
  | nil => exact Edit.blind_pure ()
  | cons key rest ih =>
    refine (addChild_blind node).bind fun child t u h => ?_
    refine (copy_alike h buffer key).bind fun span span' t u h spelled => ?_
    exact (makeScalar_alike h _ spelled (.inl rfl)).bind fun _ => ih

theorem addItems_blind (node : Quantity) (count : Nat) :
    Edit.Blind base (addItems node count) := by
  induction count with
  | zero => exact Edit.blind_pure ()
  | succ count ih => exact (addChild_blind node).bind fun _ => ih

theorem finish_blind (ending : Ending) : Edit.Blind base (finish ending) := by
  cases ending with
  | complete => exact Edit.blind_pure ()
  | broken error => exact Edit.blind_fail _

theorem putScalar_blind (buffer : 0 < base.capacity) (node : Quantity) (value : Scalar) :
    Edit.Blind base (putScalar node value) := by
  rw [putScalar_def]
  intro t u h
  refine (copy_alike h buffer value.text).bind fun span span' t u h spelled => ?_
  refine (ask_key_alike h node).bind ?_
  rintro key key' _ _ h ⟨⟨rfl, rfl⟩, keys⟩
  refine (makeScalar_alike h node keys spelled).bind fun _ => ?_
  split
  · exact flag_blind _ _
  · exact Edit.blind_pure ()

/-- A container is opened alike where its parts are added alike. -/
theorem container_blind (wanted : Kind) (node : Quantity) (ending : Ending) {add : Edit Unit}
    (adds : Edit.Blind base add) : Edit.Blind base (do
      makeContainer wanted node (← Edit.ask (·.key node))
      let first ← Edit.ask fun t => .ok t.size
      add
      finish ending
      return first : Edit Nat) := by
  intro t u h
  refine (ask_key_alike h node).bind ?_
  rintro key key' _ _ h ⟨⟨rfl, rfl⟩, keys⟩
  refine (makeContainer_alike h wanted node keys).bind fun _ => ?_
  refine ask_size_blind.bind fun first => ?_
  exact adds.bind fun _ => (finish_blind ending).bind fun _ => Edit.blind_pure first

theorem put_blind (buffer : 0 < base.capacity) (node : Quantity) (value : Source) :
    Edit.Blind base (put node value) := by
  cases value with
  | table members ending =>
    rw [put_table]
    exact container_blind .map node ending (addMembers_blind buffer node _)
  | array items ending =>
    rw [put_array]
    exact container_blind .seq node ending (addItems_blind node _)
  | scalar value => exact (putScalar_blind buffer node value).bind fun _ => Edit.blind_pure 0
  | unsupported | unknown | absent => exact Edit.blind_fail _

theorem writeAll_blind (buffer : 0 < base.capacity) (limit : Quantity) (stack : List Pending) :
    Edit.Blind base (writeAll limit stack) := by
  induction stack using Pending.stack_induction with
  | nil =>
    rw [writeAll_nil]
    exact Edit.blind_pure ()
  | cons item rest ih =>
    intro t u h
    rw [writeAll_def, writeAll_def]
    split
    · exact .failed _ h
    · have first := put_blind buffer item.node item.value t u h
      generalize put item.node item.value t = x at first
      generalize put item.node item.value u = y at first
      cases first with
      | failed f h => exact .failed f h
      | done h same =>
        subst same
        exact ih _ _ _ h

theorem load_blind (buffer : 0 < base.capacity) (format : Format) (text : Text)
    (name : Option Text) (node limit : Quantity) :
    Edit.Blind base (load format text name node limit) := by
  rw [load_def]
  cases format.parse text with
  | error c => exact Edit.blind_fail _
  | ok value =>
    dsimp only
    cases format.presenter.present value with
    | error e => exact Edit.blind_fail _
    | ok source => exact writeAll_blind buffer limit _

end Tree

end SpanTree
