import SqlAlgebra.Proofs.Tree.Heap
import SqlAlgebra.Proofs.Tree.Refill

/-!
# Going over a tree

What `transform` does with one node after another: a node that was met is known, a node may be
replaced as a whole, and any other is finished from what became of its children.  What holds of a
run is proved by induction on these cases.
-/

namespace SqlAlgebra.Node

variable {σ : Type}

/-- How far a run has come: what became of the nodes that were met, the state, and the identity that
is free next. -/
structure Stage (σ : Type) where
  memo : Memo
  state : σ
  next : Identity

/-- The stage after one more node. -/
def Stage.settled (g : Stage σ) (n out : Node) : Stage σ := { g with memo := (n.id, out) :: g.memo }

section Memo

variable {memo : Memo} {n out a : Node} {i : Identity}

theorem ne_of_lookup (unknown : memo.lookup n.id = none) (hl : memo.lookup i = some a) :
    i ≠ n.id := by
  rintro rfl
  rw [unknown] at hl
  cases hl

theorem lookup_cons_of_ne (hi : i ≠ n.id) (hl : memo.lookup i = some a) :
    ((n.id, out) :: memo).lookup i = some a := by
  rw [List.lookup_cons, beq_eq_false_iff_ne.2 hi]
  exact hl

/-- What a memo tells of is not changed by a node that it did not tell of. -/
theorem lookup_cons_of_some (unknown : memo.lookup n.id = none) (hl : memo.lookup i = some a) :
    ((n.id, out) :: memo).lookup i = some a :=
  lookup_cons_of_ne (ne_of_lookup unknown hl) hl

theorem eq_or_of_lookup_cons (hl : ((n.id, out) :: memo).lookup i = some a) :
    i = n.id ∧ a = out ∨ memo.lookup i = some a := by
  rw [List.lookup_cons] at hl
  split at hl
  · next same => exact .inl ⟨beq_iff_eq.1 same, (Option.some.inj hl).symm⟩
  · exact .inr hl

end Memo

section Transforms

variable (offer : Node → StateT σ Build (Option Node))
  (finish : Node → List Node → StateT σ Build Node)

/-- What becomes of some nodes, one after another. -/
inductive Transforms : List Node → Stage σ → List Node → Stage σ → Prop
  | nil {g : Stage σ} : Transforms [] g [] g
  | known {n done : Node} {ns outs : List Node} {g g' : Stage σ} :
      g.memo.lookup n.id = some done → Transforms ns g outs g' →
        Transforms (n :: ns) g (done :: outs) g'
  | replaced {n out : Node} {ns outs : List Node} {memo : Memo} {s s₁ : σ} {i i₁ : Identity}
      {g' : Stage σ} :
      memo.lookup n.id = none → offer n s i = .ok ((some out, s₁), i₁) →
        Transforms ns ((⟨memo, s₁, i₁⟩ : Stage σ).settled n out) outs g' →
          Transforms (n :: ns) ⟨memo, s, i⟩ (out :: outs) g'
  | rebuilt {n out : Node} {ns news outs : List Node} {memo memo₂ : Memo} {s s₁ s₂ s₃ : σ}
      {i i₁ i₂ i₃ : Identity} {g' : Stage σ} :
      memo.lookup n.id = none → offer n s i = .ok ((none, s₁), i₁) →
        Transforms n.children ⟨memo, s₁, i₁⟩ news ⟨memo₂, s₂, i₂⟩ →
          finish n news s₂ i₂ = .ok ((out, s₃), i₃) →
            Transforms ns ((⟨memo₂, s₃, i₃⟩ : Stage σ).settled n out) outs g' →
              Transforms (n :: ns) ⟨memo, s, i⟩ (out :: outs) g'

end Transforms

variable {offer : Node → StateT σ Build (Option Node)}
  {finish : Node → List Node → StateT σ Build Node} {n out : Node} {ns outs : List Node}
  {g g' g'' : Stage σ}

theorem Transforms.length_eq (h : Transforms offer finish ns g outs g') :
    outs.length = ns.length := by
  induction h with
  | nil => rfl
  | known _ _ ih => exact congrArg Nat.succ ih
  | replaced _ _ _ ih => exact congrArg Nat.succ ih
  | rebuilt _ _ _ _ _ _ ih => exact congrArg Nat.succ ih

theorem Transforms.cons (h : Transforms offer finish [n] g [out] g')
    (h' : Transforms offer finish ns g' outs g'') :
    Transforms offer finish (n :: ns) g (out :: outs) g'' := by
  cases h with
  | known known h =>
    cases h
    exact .known known h'
  | replaced unknown offered h =>
    cases h
    exact .replaced unknown offered h'
  | rebuilt unknown offered below finished h =>
    cases h
    exact .rebuilt unknown offered below finished h'

theorem Transforms.found (h : Transforms offer finish ns g outs g') {i : Identity} {a : Node}
    (hl : g.memo.lookup i = some a) : g'.memo.lookup i = some a := by
  induction h with
  | nil => exact hl
  | known _ _ ih => exact ih hl
  | replaced unknown _ _ ih => exact ih (lookup_cons_of_some unknown hl)
  | rebuilt unknown _ _ _ _ ihb ih => exact ih (lookup_cons_of_ne (ne_of_lookup unknown hl) (ihb hl))

theorem Transforms.images (h : Transforms offer finish ns g outs g') :
    List.Forall₂ (fun n out => g'.memo.lookup n.id = some out) ns outs := by
  have head {memo : Memo} {n out : Node} : ((n.id, out) :: memo).lookup n.id = some out := by
    rw [List.lookup_cons_self]
  induction h with
  | nil => exact .nil
  | known known h ih => exact .cons (h.found known) ih
  | replaced _ _ h ih => exact .cons (h.found head) ih
  | rebuilt _ _ _ _ h _ ih => exact .cons (h.found head) ih

theorem Transforms.keys (h : Transforms offer finish ns g outs g') {i : Identity} {a : Node}
    (hl : g'.memo.lookup i = some a) :
    (∃ b, g.memo.lookup i = some b) ∨ ∃ n ∈ ns, ∃ x, Occurs x n ∧ x.id = i := by
  induction h generalizing a with
  | nil => exact .inl ⟨a, hl⟩
  | known _ _ ih =>
    obtain before | ⟨n, hn, found⟩ := ih hl
    · exact .inl before
    · exact .inr ⟨n, List.mem_cons_of_mem _ hn, found⟩
  | replaced _ _ _ ih =>
    obtain ⟨b, before⟩ | ⟨n, hn, found⟩ := ih hl
    · obtain ⟨rfl, -⟩ | before := eq_or_of_lookup_cons before
      · exact .inr ⟨_, List.mem_cons_self, _, .root, rfl⟩
      · exact .inl ⟨b, before⟩
    · exact .inr ⟨n, List.mem_cons_of_mem _ hn, found⟩
  | rebuilt _ _ _ _ _ ihb ih =>
    obtain ⟨b, before⟩ | ⟨n, hn, found⟩ := ih hl
    · obtain ⟨rfl, -⟩ | before := eq_or_of_lookup_cons before
      · exact .inr ⟨_, List.mem_cons_self, _, .root, rfl⟩
      · obtain before | ⟨c, hc, x, hx, id⟩ := ihb before
        · exact .inl before
        · exact .inr ⟨_, List.mem_cons_self, x, .deeper hc hx, id⟩
    · exact .inr ⟨n, List.mem_cons_of_mem _ hn, found⟩

/-- A node does not occur below itself, so going over its children does not settle it. -/
theorem Transforms.unknown_of_children {K : Heap} {free : Identity} {news : List Node}
    (h : Transforms offer finish n.children g news g') (valid : K.Valid free) (hn : K n)
    (unknown : g.memo.lookup n.id = none) : g'.memo.lookup n.id = none := by
  cases hl : g'.memo.lookup n.id with
  | none => rfl
  | some a =>
    obtain ⟨b, before⟩ | ⟨c, hc, x, hx, id⟩ := h.keys hl
    · rw [before] at unknown
      cases unknown
    · obtain rfl := valid.unique (valid.occurs (valid.closed hn _ hc) hx) hn id
      exact absurd (sizeOf_child hc) (Nat.not_lt.2 (sizeOf_occurs hx))

/-- A run of `transform` takes its node through the cases. -/
theorem transforms_of_transform {memo memo' : Memo} {s s' : σ} {i i' : Identity}
    (run : transform offer finish n memo s i = .ok (((out, memo'), s'), i')) :
    Transforms offer finish [n] ⟨memo, s, i⟩ [out] ⟨memo', s', i'⟩ := by
  induction n using Node.induct generalizing out memo memo' s s' i i' with
  | step n ih =>
    have each (l : List { c // c ∈ n.children }) {before outs : List Node}
        {memo memo' : Memo} {s s' : σ} {i i' : Identity}
        (run : (l.foldlM (fun (done : List Node × Memo) child => do
          let new ← transform offer finish child.1 done.2
          pure (done.1 ++ [new.1], new.2)) (before, memo) : StateT σ Build (List Node × Memo)) s i =
            .ok (((outs, memo'), s'), i')) :
        ∃ news, outs = before ++ news ∧
          Transforms offer finish (l.map Subtype.val) ⟨memo, s, i⟩ news ⟨memo', s', i'⟩ := by
      induction l generalizing before memo s i with
      | nil =>
        cases run
        exact ⟨[], (List.append_nil _).symm, .nil⟩
      | cons child l ihl =>
        rw [List.foldlM_cons] at run
        obtain ⟨⟨done₁, memo₁⟩, s₁, i₁, first, rest⟩ := Build.bind_ok_over run
        obtain ⟨⟨new, memo₁⟩, s₁, i₁, first, last⟩ := Build.bind_ok_over first
        cases last
        obtain ⟨news, rfl, others⟩ := ihl rest
        exact ⟨new :: news, List.append_assoc _ _ _, (ih child.1 child.2 first).cons others⟩
    rw [transform] at run
    cases known : memo.lookup n.id with
    | some done =>
      rw [known] at run
      cases run
      exact .known known .nil
    | none =>
      rw [known] at run
      obtain ⟨offered, s₁, i₁, first, rest⟩ := Build.bind_ok_over run
      cases offered with
      | some replacement =>
        cases rest
        exact .replaced known first .nil
      | none =>
        obtain ⟨⟨news, memo₂⟩, s₂, i₂, below, rest⟩ := Build.bind_ok_over rest
        obtain ⟨out, s₃, i₃, finished, last⟩ := Build.bind_ok_over rest
        cases last
        obtain ⟨news, rfl, below⟩ := each _ below
        rw [List.attach_map_subtype_val] at below
        exact .rebuilt known first below finished .nil

/-! ## The nodes that are built -/

/-- Whether nothing is offered in place of a node, so that it is left to be finished. -/
def Passes (offer : Node → StateT σ Build (Option Node)) (n : Node) : Prop :=
  ∃ s i s' i', offer n s i = .ok ((none, s'), i')

/-- A run that replaces and finishes nodes of a heap builds onto it, and what the nodes become is of
a kind if that is so of every replacement and of what is finished from such nodes. -/
theorem Transforms.grows {K : Heap} {P : Node → Prop} (h : Transforms offer finish ns g outs g')
    (hoffer : ∀ ⦃K' : Heap⦄ ⦃n : Node⦄, (∀ x, K x → K' x) → K' n →
      Build.GrowsOver K' (offer n) fun K'' o => ∀ r ∈ o, K'' r ∧ P r)
    (hfinish : ∀ ⦃K' : Heap⦄ ⦃n : Node⦄ ⦃news : List Node⦄, (∀ x, K x → K' x) → K' n →
      Passes offer n → (∀ c ∈ news, K' c ∧ P c) → news.length = n.children.length →
        Build.GrowsOver K' (finish n news) fun K'' out => K'' out ∧ P out)
    (valid : K.Valid g.next) (hns : ∀ n ∈ ns, K n) (hmemo : ∀ p ∈ g.memo, K p.2 ∧ P p.2) :
    g.next ≤ g'.next ∧ ∃ K', K.Extends g.next K' ∧ K'.Valid g'.next ∧
      (∀ n ∈ outs, K' n ∧ P n) ∧ ∀ p ∈ g'.memo, K' p.2 ∧ P p.2 := by
  have settled {K : Heap} {memo : Memo} {n out : Node} (hout : K out ∧ P out)
      (hmemo : ∀ p ∈ memo, K p.2 ∧ P p.2) : ∀ p ∈ (n.id, out) :: memo, K p.2 ∧ P p.2 := by
    intro p hp
    rcases List.mem_cons.1 hp with rfl | hp
    · exact hout
    · exact hmemo p hp
  induction h generalizing K with
  | nil => exact ⟨Nat.le_refl _, K, .refl K _, valid, (fun n hn => nomatch hn), hmemo⟩
  | @known n out ns outs g g' found _ ih =>
    obtain ⟨le, K', ext, valid', houts, hmemo'⟩ := ih hoffer hfinish valid
      (fun n hn => hns n (List.mem_cons_of_mem _ hn)) hmemo
    obtain ⟨before, after, eq, -⟩ := List.lookup_eq_some_iff.1 found
    obtain ⟨hout, kind⟩ : K out ∧ P out := hmemo (n.id, out) (by rw [eq]; simp)
    refine ⟨le, K', ext, valid', fun x hx => ?_, hmemo'⟩
    rcases List.mem_cons.1 hx with rfl | hx
    · exact ⟨ext.keeps hout, kind⟩
    · exact houts x hx
  | replaced _ offered _ ih =>
    obtain ⟨le, K', ext, valid', hout⟩ := hoffer (fun _ h => h) (hns _ List.mem_cons_self) _ valid
      offered
    obtain ⟨le', K'', ext', valid'', houts, hmemo'⟩ := ih
      (fun _ _ keeps => hoffer fun x hx => keeps x (ext.keeps hx))
      (fun _ _ _ keeps => hfinish fun x hx => keeps x (ext.keeps hx)) valid'
      (fun n hn => ext.keeps (hns n (List.mem_cons_of_mem _ hn)))
      (settled (hout _ rfl) fun p hp => (hmemo p hp).imp_left (ext.keeps ·))
    refine ⟨Nat.le_trans le le', K'', ext.trans le ext', valid'', fun x hx => ?_, hmemo'⟩
    rcases List.mem_cons.1 hx with rfl | hx
    · exact (hout _ rfl).imp_left (ext'.keeps ·)
    · exact houts x hx
  | @rebuilt n out ns news outs memo memo₂ s s₁ s₂ s₃ i i₁ i₂ i₃ g' _ offered below finished _ ihb
    ih =>
    have hn : K n := hns _ List.mem_cons_self
    obtain ⟨le₁, K₁, ext₁, valid₁, -⟩ := hoffer (fun _ h => h) hn _ valid offered
    obtain ⟨le₂, K₂, ext₂, valid₂, hnews, hmemo₂⟩ := ihb
      (fun _ _ keeps => hoffer fun x hx => keeps x (ext₁.keeps hx))
      (fun _ _ _ keeps => hfinish fun x hx => keeps x (ext₁.keeps hx)) valid₁
      (valid₁.closed (ext₁.keeps hn)) fun p hp => (hmemo p hp).imp_left (ext₁.keeps ·)
    have ext₁₂ := ext₁.trans le₁ ext₂
    obtain ⟨le₃, K₃, ext₃, valid₃, hout⟩ := hfinish (fun x hx => ext₁₂.keeps hx) (ext₁₂.keeps hn)
      ⟨_, _, _, _, offered⟩ hnews below.length_eq _ valid₂ finished
    have ext₁₃ := ext₁₂.trans (Nat.le_trans le₁ le₂) ext₃
    obtain ⟨le₄, K₄, ext₄, valid₄, houts, hmemo'⟩ := ih
      (fun _ _ keeps => hoffer fun x hx => keeps x (ext₁₃.keeps hx))
      (fun _ _ _ keeps => hfinish fun x hx => keeps x (ext₁₃.keeps hx)) valid₃
      (fun n hn => ext₁₃.keeps (hns n (List.mem_cons_of_mem _ hn)))
      (settled hout fun p hp => (hmemo₂ p hp).imp_left (ext₃.keeps ·))
    have le := Nat.le_trans le₁ (Nat.le_trans le₂ le₃)
    refine ⟨Nat.le_trans le le₄, K₄, ext₁₃.trans le ext₄, valid₄, fun x hx => ?_, hmemo'⟩
    rcases List.mem_cons.1 hx with rfl | hx
    · exact hout.imp_left (ext₄.keeps ·)
    · exact houts x hx

/-- Going over a tree builds onto the heap of the tree. -/
theorem growsOver_transform {K : Heap} {P : Node → Prop} {n : Node}
    (hoffer : ∀ ⦃K' : Heap⦄ ⦃n : Node⦄, (∀ x, K x → K' x) → K' n →
      Build.GrowsOver K' (offer n) fun K'' o => ∀ r ∈ o, K'' r ∧ P r)
    (hfinish : ∀ ⦃K' : Heap⦄ ⦃n : Node⦄ ⦃news : List Node⦄, (∀ x, K x → K' x) → K' n →
      Passes offer n → (∀ c ∈ news, K' c ∧ P c) → news.length = n.children.length →
        Build.GrowsOver K' (finish n news) fun K'' out => K'' out ∧ P out)
    (hn : K n) : Build.GrowsOver K (transform offer finish n []) fun K' p => K' p.1 ∧ P p.1 := by
  rintro s next ⟨⟨out, memo'⟩, s'⟩ next' valid run
  obtain ⟨le, K', ext, valid', houts, -⟩ := (transforms_of_transform run).grows hoffer hfinish valid
    (fun x hx => List.mem_singleton.1 hx ▸ hn) fun p hp => nomatch hp
  exact ⟨le, K', ext, valid', houts out List.mem_cons_self⟩

/-- A node that is filled with other children is of a kind that takes no account of its identity, if
that is so of what it can be filled with. -/
theorem grows_rebuild {K : Heap} {P : Node → Prop} {n : Node} {news : List Node} (hn : K n)
    (hnews : ∀ c ∈ news, K c) (h : news.length = n.children.length)
    (filled : ∀ i, P { n with kind := n.kind.refill news, id := i }) :
    Build.Grows K (n.rebuild news) fun K' out => K' out ∧ P out := by
  intro next out next' valid run
  unfold rebuild withChildren? at run
  by_cases same : sameAll news n.children = true
  · rw [if_pos same] at run
    cases run
    have itself : news = n.children :=
      valid.eq_of_ids hnews (valid.closed hn) (by simpa [sameAll] using same)
    have kind := filled n.id
    rw [itself, children, Kind.refill_children] at kind
    refine ⟨Nat.le_refl _, K, .refl K _, valid, hn, ?_⟩
    rcases n with ⟨id, k, type, annotations, diagnostics⟩
    exact kind
  · rw [if_neg same] at run
    have children : (n.kind.refill news).children = news := Kind.children_refill h
    have made : Build.Grows K (Build.copy { n with kind := n.kind.refill news }) Build.Made :=
      Build.grows_copy fun c hc => hnews c (by rwa [← children])
    obtain ⟨le, K', ext, valid', hout⟩ := made valid run
    cases run
    exact ⟨le, K', ext, valid', hout, filled _⟩

/-- Replacing nodes of a tree builds onto the heap of the tree. -/
theorem growsOver_substitute {K : Heap} {P : Node → Prop} {n : Node}
    {replace : Node → StateT σ Build (Option Node)}
    (h : ∀ ⦃K' : Heap⦄ ⦃n : Node⦄, (∀ x, K x → K' x) → K' n →
      Build.GrowsOver K' (replace n) fun K'' o => ∀ r ∈ o, K'' r ∧ P r)
    (filled : ∀ ⦃n : Node⦄ ⦃news : List Node⦄ (i : Identity), Passes replace n →
      (∀ c ∈ news, P c) → news.length = n.children.length →
        P { n with kind := n.kind.refill news, id := i })
    (hn : K n) : Build.GrowsOver K (substitute replace n) fun K' out => K' out ∧ P out :=
  (growsOver_transform h (fun _ _ _ _ hn passes hnews length =>
    .lift (grows_rebuild hn (fun c hc => (hnews c hc).1) length fun i =>
      filled i passes (fun c hc => (hnews c hc).2) length)) hn).bind fun _ _ _ hout => .pure hout

end SqlAlgebra.Node
