import Mathlib.Data.List.Nodup
import SqlAlgebra.Tree.Build

/-!
# The nodes that exist

A heap is the set of nodes that exist at some time.  In a valid heap every node comes with its
children, and an identity belongs to one node.  What builds nodes only adds to the heap, under
identities that were free, so whatever is put together from valid heaps is coherent.
-/

namespace SqlAlgebra

theorem Node.sizeOf_occurs {x n : Node} (h : Occurs x n) : sizeOf x ≤ sizeOf n := by
  induction h with
  | root => exact Nat.le_refl _
  | deeper hc _ ih => exact Nat.le_trans ih (Nat.le_of_lt (sizeOf_child hc))

/-- The nodes that exist. -/
abbrev Heap := Node → Prop

namespace Heap

/-- Whether a heap has with every node its children, and an identity below `next` for each node
alone. -/
structure Valid (K : Heap) (next : Identity) : Prop where
  closed : ∀ ⦃x : Node⦄, K x → ∀ c ∈ x.children, K c
  unique : ∀ ⦃x y : Node⦄, K x → K y → x.id = y.id → x = y
  bounded : ∀ ⦃x : Node⦄, K x → x.id < next

/-- Whether a heap has all nodes of another one, and otherwise nodes with later identities only. -/
structure Extends (K : Heap) (next : Identity) (K' : Heap) : Prop where
  keeps : ∀ ⦃x : Node⦄, K x → K' x
  fresh : ∀ ⦃x : Node⦄, K' x → K x ∨ next ≤ x.id

/-- A heap with one more node. -/
def insert (K : Heap) (n : Node) : Heap := fun x => K x ∨ x = n

variable {K K' K'' S : Heap} {next next' : Identity} {n x : Node}

theorem Valid.occurs (h : K.Valid next) (hn : K n) (hx : Node.Occurs x n) : K x := by
  induction hx with
  | root => exact hn
  | deeper hc _ ih => exact ih (h.closed hn _ hc)

/-- Every tree of a valid heap is coherent. -/
theorem Valid.isCoherent (h : K.Valid next) (hn : K n) : n.IsCoherent :=
  fun _ _ ha hb => h.unique (h.occurs hn ha) (h.occurs hn hb)

theorem Valid.eq_of_ids (h : K.Valid next) {as bs : List Node} (ha : ∀ a ∈ as, K a)
    (hb : ∀ b ∈ bs, K b) (ids : as.map Node.id = bs.map Node.id) : as = bs := by
  induction as generalizing bs with
  | nil => exact (List.map_eq_nil_iff.1 ids.symm).symm
  | cons a as ih =>
    cases bs with
    | nil => cases ids
    | cons b bs =>
      obtain ⟨id, ids⟩ := List.cons.inj ids
      rw [h.unique (ha a List.mem_cons_self) (hb b List.mem_cons_self) id,
        ih (fun x hx => ha x (List.mem_cons_of_mem _ hx))
        (fun x hx => hb x (List.mem_cons_of_mem _ hx))
          ids]

/-- The nodes of a list are a valid heap if it has with every node its children, and each once. -/
theorem valid_of_list {ns : List Node} (closed : ∀ x ∈ ns, ∀ c ∈ x.children, c ∈ ns)
    (identities : (ns.map Node.id).Nodup) (bounded : ∀ x ∈ ns, x.id < next) :
    Heap.Valid (· ∈ ns) next :=
  ⟨closed, fun _ _ hx hy => List.inj_on_of_nodup_map identities hx hy, bounded⟩

theorem Valid.mono (h : K.Valid next) (le : next ≤ next') : K.Valid next' :=
  ⟨h.closed, h.unique, fun _ hx => Nat.lt_of_lt_of_le (h.bounded hx) le⟩

theorem Valid.insert (h : K.Valid next) (hid : n.id = next) (hn : ∀ c ∈ n.children, K c) :
    (K.insert n).Valid (next + 1) where
  closed x hx c hc := by
    obtain hx | rfl := hx
    · exact .inl (h.closed hx c hc)
    · exact .inl (hn c hc)
  unique x y hx hy eq := by
    obtain hx | rfl := hx <;> obtain hy | rfl := hy
    · exact h.unique hx hy eq
    · exact absurd (h.bounded hx) (by rw [eq, hid]; exact Nat.lt_irrefl next)
    · exact absurd (h.bounded hy) (by rw [← eq, hid]; exact Nat.lt_irrefl next)
    · rfl
  bounded x hx := by
    obtain hx | rfl := hx
    · exact Nat.lt_succ_of_lt (h.bounded hx)
    · exact hid ▸ Nat.lt_succ_self _

theorem Extends.refl (K : Heap) (next : Identity) : K.Extends next K :=
  ⟨fun _ h => h, fun _ h => .inl h⟩

theorem Extends.trans (h : K.Extends next K') (le : next ≤ next') (h' : K'.Extends next' K'') :
    K.Extends next K'' where
  keeps _ hx := h'.keeps (h.keeps hx)
  fresh _ hx := (h'.fresh hx).elim (h.fresh ·) fun later => .inr (Nat.le_trans le later)

theorem Extends.insert (hid : n.id = next) : K.Extends next (K.insert n) where
  keeps _ := .inl
  fresh x hx := hx.imp_right fun eq => Nat.le_of_eq (by rw [eq, hid])

/-- Heaps that grew apart from a common part, with different identities, are valid together. -/
theorem Valid.union (hK : K.Valid next') (hK' : K'.Valid next')
    (sub : ∀ ⦃x⦄, S x → K x) (ext : S.Extends next K') (hb : ∀ ⦃x⦄, K x → x.id < next) :
    Heap.Valid (fun x => K x ∨ K' x) next' where
  closed x hx c hc := hx.imp (hK.closed · c hc) (hK'.closed · c hc)
  unique x y hx hy eq := by
    have apart {x y : Node} (hx : K x) (hy : K' y) (eq : x.id = y.id) : x = y := by
      obtain hy | later := ext.fresh hy
      · exact hK.unique hx (sub hy) eq
      · exact absurd (hb hx) (by rw [eq]; exact Nat.not_lt.2 later)
    obtain hx | hx := hx <;> obtain hy | hy := hy
    · exact hK.unique hx hy eq
    · exact apart hx hy eq
    · exact (apart hy hx eq.symm).symm
    · exact hK'.unique hx hy eq
  bounded x hx := hx.elim (hK.bounded ·) (hK'.bounded ·)

end Heap

namespace Build

variable {α β σ : Type} {K S : Heap} {P Q : Heap → α → Prop} {R : Heap → β → Prop}

theorem bind_ok {x : Build α} {f : α → Build β} {i : Identity} {r : β × Identity}
    (run : (x >>= f) i = .ok r) : ∃ a i₁, x i = .ok (a, i₁) ∧ f a i₁ = .ok r := by
  change (x i >>= fun p => f p.1 p.2) = _ at run
  cases first : x i with
  | error e =>
    rw [first] at run
    cases run
  | ok p =>
    rw [first] at run
    exact ⟨p.1, p.2, rfl, run⟩

theorem bind_run {x : Build α} {f : α → Build β} {a : α} {i j : Identity}
    (h : x i = .ok (a, j)) : (x >>= f) i = f a j := by
  show (x i >>= fun p => f p.1 p.2) = _
  rw [h]
  rfl

theorem bind_run_error {x : Build α} {f : α → Build β} {i : Identity} {e : Error}
    (h : x i = .error e) : (x >>= f) i = .error e := by
  show (x i >>= fun p => f p.1 p.2) = _
  rw [h]
  rfl

theorem bind_ok_over {x : StateT σ Build α} {f : α → StateT σ Build β} {s : σ} {i : Identity}
    {r : (β × σ) × Identity} (run : (x >>= f) s i = .ok r) :
    ∃ a s₁ i₁, x s i = .ok ((a, s₁), i₁) ∧ f a s₁ i₁ = .ok r := by
  obtain ⟨p, i₁, first, rest⟩ := bind_ok (x := x s) (f := fun p => f p.1 p.2) run
  exact ⟨p.1, p.2, i₁, first, rest⟩

theorem bind_run_over {x : StateT σ Build α} {f : α → StateT σ Build β} {s s' : σ} {a : α}
    {i j : Identity} (h : x s i = .ok ((a, s'), j)) : (x >>= f) s i = f a s' j :=
  bind_run (x := x s) (f := fun p => f p.1 p.2) h

theorem bind_run_error_over {x : StateT σ Build α} {f : α → StateT σ Build β} {s : σ}
    {i : Identity} {e : Error} (h : x s i = .error e) : (x >>= f) s i = .error e :=
  bind_run_error (x := x s) (f := fun p => f p.1 p.2) h

theorem lift_run {x : Build α} {s : σ} {a : α} {i i' : Identity} (run : x i = .ok (a, i')) :
    (liftM x : StateT σ Build α) s i = .ok ((a, s), i') :=
  bind_run (f := fun a => Pure.pure (a, s)) run

theorem lift_run_error {x : Build α} {s : σ} {i : Identity} {e : Error} (h : x i = .error e) :
    (liftM x : StateT σ Build α) s i = .error e :=
  bind_run_error (f := fun a => Pure.pure (a, s)) h

theorem lift_ok {x : Build α} {s s' : σ} {a : α} {i i' : Identity}
    (run : (liftM x : StateT σ Build α) s i = .ok ((a, s'), i')) : x i = .ok (a, i') ∧ s' = s := by
  obtain ⟨a₁, i₁, first, last⟩ := bind_ok (x := x) (f := fun a => Pure.pure (a, s)) run
  cases last
  exact ⟨first, rfl⟩

theorem exists_of_toOption {x : Except Error α} {f : α → β} {b : β}
    (h : x.toOption.map f = some b) : ∃ a, x = .ok a ∧ f a = b := by
  cases x with
  | error e => cases h
  | ok a => exact ⟨a, rfl, Option.some.inj h⟩

/-- Whether a step builds onto a heap: what it gives back is a result of the kind `Q` in a heap with
the nodes that it built. -/
def Grows (K : Heap) (x : Build α) (Q : Heap → α → Prop) : Prop :=
  ∀ ⦃next : Identity⦄ ⦃a : α⦄ ⦃next' : Identity⦄, K.Valid next → x next = .ok (a, next') →
    next ≤ next' ∧ ∃ K', K.Extends next K' ∧ K'.Valid next' ∧ Q K' a

namespace Grows

theorem pure {a : α} (h : Q K a) : Grows K (pure a) Q := by
  rintro next b next' hK ⟨⟩
  exact ⟨Nat.le_refl _, K, .refl K next, hK, h⟩

theorem throw (e : Error) : Grows K (throw e) Q := by
  rintro next b next' hK ⟨⟩

theorem fail (fault : ConstructionFault) : Grows K (Build.fail fault) Q := throw _

theorem mono {x : Build α} (hx : Grows K x P) (h : ∀ ⦃K' : Heap⦄ ⦃a : α⦄, P K' a → Q K' a) :
    Grows K x Q := by
  intro next a next' hK run
  obtain ⟨le, K', ext, valid, ha⟩ := hx hK run
  exact ⟨le, K', ext, valid, h ha⟩

theorem bind {x : Build α} {f : α → Build β} (hx : Grows K x Q)
    (hf : ∀ ⦃K' : Heap⦄ ⦃a : α⦄, (∀ n, K n → K' n) → Q K' a → Grows K' (f a) R) :
    Grows K (x >>= f) R := by
  intro next b next' hK run
  obtain ⟨a, mid, first, rest⟩ := bind_ok run
  obtain ⟨le, K', ext, hK', ha⟩ := hx hK first
  obtain ⟨le', K'', ext', hK'', hb⟩ := hf (fun n hn => ext.keeps hn) ha hK' rest
  exact ⟨Nat.le_trans le le', K'', ext.trans le ext', hK'', hb⟩

theorem ite {c : Prop} [Decidable c] {x y : Build α} (hx : Grows K x Q) (hy : Grows K y Q) :
    Grows K (if c then x else y) Q := by
  split
  · exact hx
  · exact hy

/-- A heap that is built onto has the children of its nodes. -/
theorem of_closed {x : Build α}
    (hx : (∀ ⦃n : Node⦄, K n → ∀ c ∈ n.children, K c) → Grows K x Q) : Grows K x Q :=
  fun _ _ _ hK run => hx hK.closed hK run

/-- What builds onto a part of a heap builds onto the heap. -/
theorem frame {x : Build α} (closed : ∀ ⦃n : Node⦄, K n → ∀ c ∈ n.children, K c)
    (sub : ∀ ⦃n : Node⦄, K n → S n)
    (mono : ∀ ⦃K K' : Heap⦄ ⦃a : α⦄, (∀ n, K n → K' n) → Q K a → Q K' a) (hx : Grows K x Q) :
    Grows S x Q := by
  intro next a next' hS run
  have part : K.Valid next :=
    ⟨closed, fun _ _ hx hy => hS.unique (sub hx) (sub hy), fun _ hx => hS.bounded (sub hx)⟩
  obtain ⟨le, K', ext, valid, ha⟩ := hx part run
  refine ⟨le, fun x => S x ∨ K' x, ⟨fun _ => .inl, fun x hx => ?_⟩,
    (hS.mono le).union valid sub ext fun _ hx => hS.bounded hx, mono (fun _ => .inr) ha⟩
  exact hx.elim .inl fun hx => (ext.fresh hx).imp_left (sub ·)

theorem mapM {l : List β} {f : β → Build α}
    (mono : ∀ ⦃K K' : Heap⦄ ⦃a : α⦄, (∀ n, K n → K' n) → Q K a → Q K' a)
    (hf : ∀ ⦃K' : Heap⦄, (∀ n, K n → K' n) → ∀ b ∈ l, Grows K' (f b) Q) :
    Grows K (l.mapM f) fun K' as => ∀ a ∈ as, Q K' a := by
  induction l generalizing K with
  | nil =>
    rw [List.mapM_nil]
    exact pure fun a ha => nomatch ha
  | cons b l ih =>
    rw [List.mapM_cons]
    refine (hf (fun _ h => h) b List.mem_cons_self).bind fun K' a keeps ha => ?_
    refine (ih fun K'' keeps' b hb => hf (fun n hn => keeps' n (keeps n hn)) b
      (List.mem_cons_of_mem _ hb)).bind fun K'' as keeps' has => pure fun x hx => ?_
    rcases List.mem_cons.1 hx with rfl | hx
    · exact mono keeps' ha
    · exact has x hx

end Grows

/-- Whether a step with a state of its own builds onto a heap. -/
def GrowsOver (K : Heap) (x : StateT σ Build α) (Q : Heap → α → Prop) : Prop :=
  ∀ s, Grows K (x s) fun K' p => Q K' p.1

namespace GrowsOver

theorem pure {a : α} (h : Q K a) : GrowsOver K (pure a : StateT σ Build α) Q :=
  fun _ => Grows.pure h

theorem throw (e : Error) : GrowsOver K (throw e : StateT σ Build α) Q := fun _ => Grows.throw e

theorem mono {x : StateT σ Build α} (hx : GrowsOver K x P)
    (h : ∀ ⦃K' : Heap⦄ ⦃a : α⦄, P K' a → Q K' a) : GrowsOver K x Q :=
  fun s => (hx s).mono fun _ _ hp => h hp

theorem bind {x : StateT σ Build α} {f : α → StateT σ Build β} (hx : GrowsOver K x Q)
    (hf : ∀ ⦃K' : Heap⦄ ⦃a : α⦄, (∀ n, K n → K' n) → Q K' a → GrowsOver K' (f a) R) :
    GrowsOver K (x >>= f) R :=
  fun s => (hx s).bind fun _ p keeps ha => hf keeps ha p.2

theorem map {x : StateT σ Build α} {f : α → β} (hx : GrowsOver K x Q)
    (h : ∀ ⦃K' : Heap⦄ ⦃a : α⦄, Q K' a → R K' (f a)) : GrowsOver K (f <$> x) R := by
  rw [map_eq_pure_bind]
  exact hx.bind fun _ _ _ ha => pure (h ha)

theorem lift {x : Build α} (hx : Grows K x Q) :
    GrowsOver K (liftM x : StateT σ Build α) Q := by
  intro s
  show Grows K (x >>= fun a => Pure.pure (a, s)) _
  exact hx.bind fun _ _ _ ha => Grows.pure ha

theorem modify (f : σ → σ) {Q : Heap → PUnit → Prop} (h : Q K ⟨⟩) : GrowsOver K (modify f) Q :=
  fun _ => Grows.pure h

theorem ite {c : Prop} [Decidable c] {x y : StateT σ Build α} (hx : GrowsOver K x Q)
    (hy : GrowsOver K y Q) : GrowsOver K (if c then x else y) Q := by
  split
  · exact hx
  · exact hy

theorem mapM {l : List β} {f : β → StateT σ Build α}
    (mono : ∀ ⦃K K' : Heap⦄ ⦃a : α⦄, (∀ n, K n → K' n) → Q K a → Q K' a)
    (hf : ∀ ⦃K' : Heap⦄, (∀ n, K n → K' n) → ∀ b ∈ l, GrowsOver K' (f b) Q) :
    GrowsOver K (l.mapM f) fun K' as => ∀ a ∈ as, Q K' a := by
  induction l generalizing K with
  | nil =>
    rw [List.mapM_nil]
    exact pure fun a ha => nomatch ha
  | cons b l ih =>
    rw [List.mapM_cons]
    refine (hf (fun _ h => h) b List.mem_cons_self).bind fun K' a keeps ha => ?_
    refine (ih fun K'' keeps' b hb => hf (fun n hn => keeps' n (keeps n hn)) b
      (List.mem_cons_of_mem _ hb)).bind fun K'' as keeps' has => pure fun x hx => ?_
    rcases List.mem_cons.1 hx with rfl | hx
    · exact mono keeps' ha
    · exact has x hx

end GrowsOver

/-! ## What is built -/

/-- The result is a node of the heap. -/
abbrev Made (K : Heap) (n : Node) : Prop := K n

theorem grows_new {n : Identity → Node} (hid : ∀ i, (n i).id = i)
    (hn : ∀ i, ∀ c ∈ (n i).children, K c) :
    Grows K (do let id ← identity; Pure.pure (n id)) Made := by
  rintro next _ _ hK ⟨⟩
  exact ⟨Nat.le_succ next, K.insert (n next), .insert (hid next), hK.insert (hid next) (hn next),
    .inr rfl⟩

theorem grows_reported {kind : Kind Node} {type : SqlType} {diagnostics : List Diagnostic}
    (h : ∀ c ∈ kind.children, K c) : Grows K (reported kind type diagnostics) Made :=
  grows_new (n := fun id => ⟨id, kind, type, [], diagnostics⟩) (fun _ => rfl) fun _ => h

theorem grows_typed {kind : Kind Node} {type : SqlType} (h : ∀ c ∈ kind.children, K c) :
    Grows K (typed kind type) Made := grows_reported h

theorem grows_untyped {kind : Kind Node} (h : ∀ c ∈ kind.children, K c) :
    Grows K (untyped kind) Made := grows_reported h

theorem grows_copy {n : Node} (h : ∀ c ∈ n.children, K c) : Grows K (copy n) Made :=
  grows_new (n := fun id => { n with id := id }) (fun _ => rfl) fun _ => h

end Build

end SqlAlgebra
