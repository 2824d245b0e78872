import SqlAlgebra.Proofs.Tree.Transform

/-!
# Trees with some nodes in another shape

A substitution that gives some nodes another shape and leaves the others alone is described here as
a map of nodes.  A node whose shape gives way is replaced by a new node of the same type.  Any other
node stays what it is, with what its children became in their places, and is the same node if these
are.  Nothing below a replaced node is looked at, and different nodes become different nodes.
-/

namespace SqlAlgebra.Node

open List (Forall₂)

/-- The nodes that a walk from a root meets if it does not go below nodes of some kind. -/
inductive Met (P : Node → Prop) (x : Node) : Node → Prop where
  | root : Met P x x
  | deeper {c n : Node} : ¬ P n → c ∈ n.children → Met P x c → Met P x n

section Rewrites

variable {R R' : Kind Node → Kind Node → Prop} {T T' : Node → Node → Prop} {f : Node → Node}
  {c n x y a : Node} {P : Node → Prop} {low low' : Identity}

theorem Met.occurs (h : x.Met P n) : Occurs x n := by
  induction h with
  | root => exact .root
  | deeper _ hc _ ih => exact .deeper hc ih

/-- A walk goes on where it came to. -/
theorem Met.child (h : x.Met P n) (hx : ¬ P x) (hc : c ∈ x.children) : c.Met P n := by
  induction h with
  | root => exact .deeper hx hc .root
  | deeper hn hc' _ ih => exact .deeper hn hc' ih

theorem Met.mono {P' : Node → Prop} (h : x.Met P n) (sub : ∀ y, P' y → P y) : x.Met P' n := by
  induction h with
  | root => exact .root
  | deeper hn hc _ ih => exact .deeper (fun h => hn (sub _ h)) hc ih

/-- Whether a shape gives way to another one. -/
def GivesWay (R : Kind Node → Kind Node → Prop) (n : Node) : Prop := ∃ k, R n.kind k

/-- What a node becomes, where `T` says what its children became. -/
inductive Image (R : Kind Node → Kind Node → Prop) (T : Node → Node → Prop) (x : Node) :
    Node → Prop where
  | replaced {k : Kind Node} {i : Identity} : R x.kind k → Image R T x ⟨i, k, x.type, [], []⟩
  | kept {news : List Node} {i : Identity} : ¬ x.GivesWay R → Forall₂ T x.children news →
      (news = x.children → i = x.id) → Image R T x { x with id := i, kind := x.kind.refill news }

theorem Image.mono (h : Image R T x a) (sub : ∀ b c, T b c → T' b c) : Image R T' x a := by
  cases h with
  | replaced gives => exact .replaced gives
  | kept stays below same => exact .kept stays (below.imp sub) same

/-- Whether a map takes the nodes of a tree to what they become, where the new nodes have the
identities from `low` on. -/
structure Rewrites (low : Identity) (R : Kind Node → Kind Node → Prop) (f : Node → Node)
    (n : Node) : Prop where
  image : ∀ x, x.Met (GivesWay R) n → Image R (fun c b => f c = b) x (f x)
  fresh : ∀ x, x.Met (GivesWay R) n → f x = x ∨ low ≤ (f x).id
  injective : ∀ x y, x.Met (GivesWay R) n → y.Met (GivesWay R) n → (f x).id = (f y).id → x = y

/-- Whether a tree becomes another one. -/
def RewritesTo (low : Identity) (R : Kind Node → Kind Node → Prop) (n m : Node) : Prop :=
  ∃ f, Rewrites low R f n ∧ m = f n

theorem Rewrites.mono (h : Rewrites low' R f n) (le : low ≤ low') : Rewrites low R f n :=
  ⟨h.image, fun x hx => (h.fresh x hx).imp_right (Nat.le_trans le), h.injective⟩

theorem RewritesTo.mono {m : Node} (h : RewritesTo low' R n m) (le : low ≤ low') :
    RewritesTo low R n m := by
  obtain ⟨f, rewrites, rfl⟩ := h
  exact ⟨f, rewrites.mono le, rfl⟩

theorem Rewrites.child (h : Rewrites low R f n) (stays : ¬ n.GivesWay R) (hc : c ∈ n.children) :
    Rewrites low R f c where
  image x hx := h.image x (.deeper stays hc hx)
  fresh x hx := h.fresh x (.deeper stays hc hx)
  injective x y hx hy := h.injective x y (.deeper stays hc hx) (.deeper stays hc hy)

theorem Rewrites.of_replaced (h : Rewrites low R f n) (hx : x.Met (GivesWay R) n)
    (gives : x.GivesWay R) : R x.kind (f x).kind := by
  generalize hfx : f x = a
  have image := h.image x hx
  rw [hfx] at image
  cases image with
  | replaced gives => exact gives
  | kept stays => exact absurd gives stays

theorem Rewrites.of_kept (h : Rewrites low R f n) (hx : x.Met (GivesWay R) n)
    (stays : ¬ x.GivesWay R) :
    (f x).kind = x.kind.refill (x.children.map f) ∧ (x.children.map f = x.children → f x = x) := by
  generalize hfx : f x = a
  have image := h.image x hx
  rw [hfx] at image
  cases image with
  | replaced gives => exact absurd ⟨_, gives⟩ stays
  | @kept news i _ below same =>
    have images : x.children.map f = news := by
      rw [← List.forall₂_eq_eq_eq, List.forall₂_map_left_iff]
      exact below
    rw [images]
    refine ⟨rfl, fun itself => ?_⟩
    obtain rfl := same itself
    rw [itself, children, Kind.refill_children]
    rcases x with ⟨id, kind, type, annotations, diagnostics⟩
    rfl

theorem Rewrites.children_of_kept (h : Rewrites low R f n) (hx : x.Met (GivesWay R) n)
    (stays : ¬ x.GivesWay R) : (f x).children = x.children.map f := by
  rw [children, (h.of_kept hx stays).1]
  exact Kind.children_refill (List.length_map _)

/-- Maps that take the root to the same node agree on what both leave in its shape. -/
theorem Rewrites.agree {f' : Node → Node} (h : Rewrites low R f n) (h' : Rewrites low' R' f' n)
    (sub : ∀ y, GivesWay R' y → GivesWay R y) (root : f n = f' n) (hx : x.Met (GivesWay R) n) :
    f x = f' x := by
  induction hx with
  | root => exact root
  | @deeper c n stays hc _ ih =>
    have stays' : ¬ n.GivesWay R' := fun gives => stays (sub n gives)
    have images : n.children.map f = n.children.map f' := by
      rw [← h.children_of_kept .root stays, ← h'.children_of_kept .root stays', root]
    exact ih (h.child stays hc) (h'.child stays' hc) (List.map_inj_left.1 images c hc)

/-- What is met in a rewritten tree, not going below nodes that replace others, are the images of
what is met in the tree. -/
theorem Rewrites.exists_of_met (h : Rewrites low R f n) (hy : y.Met P (f n))
    (stops : ∀ x, GivesWay R x → x.Met (GivesWay R) n → P (f x)) :
    ∃ x, x.Met (GivesWay R) n ∧ y = f x := by
  generalize hr : f n = r at hy
  induction hy generalizing n with
  | root => exact ⟨n, .root, hr.symm⟩
  | @deeper c r goes hc _ ih =>
    subst hr
    have stays : ¬ n.GivesWay R := fun gives => goes (stops n gives .root)
    rw [h.children_of_kept .root stays] at hc
    obtain ⟨d, hd, rfl⟩ := List.mem_map.1 hc
    obtain ⟨x, hx, eq⟩ := ih (h.child stays hd)
      (fun x gives hx => stops x gives (.deeper stays hd hx)) rfl
    exact ⟨x, .deeper stays hd hx, eq⟩

end Rewrites

/-! ## The run of a substitution -/

section Run

variable {σ : Type} {R : Kind Node → Kind Node → Prop} {K : Heap} {low : Identity}
  {replace : Node → StateT σ Build (Option Node)} {n out : Node} {g : Stage σ}

/-- Whether what a substitution does at a node is to give it another shape if its shape gives way,
and nothing otherwise. -/
def Reshapes (R : Kind Node → Kind Node → Prop) (replace : Node → StateT σ Build (Option Node))
    (n : Node) : Prop :=
  (∃ k, R n.kind k ∧
      ∀ s i, replace n s i = .ok ((some ⟨i, k, n.type, [], []⟩, s), i + 1)) ∨
    ¬ n.GivesWay R ∧ ∀ s i, replace n s i = .ok ((none, s), i)

/-- Whether a memo tells what the nodes of a heap became.  A node that is new is among those that
were built since `low`, and later than all before it. -/
structure Recorded (low : Identity) (R : Kind Node → Kind Node → Prop) (K : Heap) (g : Stage σ) :
    Prop where
  next : low ≤ g.next
  image : ∀ ⦃x a : Node⦄, K x → g.memo.lookup x.id = some a →
    Image R (fun c b => g.memo.lookup c.id = some b) x a
  fresh : ∀ ⦃x a : Node⦄, K x → g.memo.lookup x.id = some a → a = x ∨ low ≤ a.id
  bounded : ∀ ⦃x a : Node⦄, K x → g.memo.lookup x.id = some a → a.id < g.next
  injective : ∀ ⦃x y a b : Node⦄, K x → K y → g.memo.lookup x.id = some a →
    g.memo.lookup y.id = some b → a.id = b.id → x = y

/-- One more node in the memo. -/
theorem Recorded.settled {memo : Memo} {s s' : σ} {i i' : Identity} (valid : K.Valid low)
    (h : Recorded low R K ⟨memo, s, i⟩) (hn : K n) (unknown : memo.lookup n.id = none)
    (image : Image R (fun c b => memo.lookup c.id = some b) n out)
    (fresh : out = n ∨ i ≤ out.id) (le : i ≤ i') (bounded : out.id < i') :
    Recorded low R K ((⟨memo, s', i'⟩ : Stage σ).settled n out) := by
  have found {j : Identity} {b : Node} (hl : memo.lookup j = some b) :
      ((n.id, out) :: memo).lookup j = some b := lookup_cons_of_some unknown hl
  have apart {y b : Node} (hy : K y) (hl : memo.lookup y.id = some b) : out.id ≠ b.id := by
    intro same
    obtain rfl | later := fresh
    · obtain rfl | new := h.fresh hy hl
      · rw [same, hl] at unknown
        cases unknown
      · exact absurd (valid.bounded hn) (by rw [same]; exact Nat.not_lt.2 new)
    · exact absurd (h.bounded hy hl) (by rw [← same]; exact Nat.not_lt.2 later)
  refine ⟨Nat.le_trans h.next le, fun x a hx hl => ?_, fun x a hx hl => ?_, fun x a hx hl => ?_,
    fun x y a b hx hy ha hb same => ?_⟩
  · obtain ⟨id, rfl⟩ | hl := eq_or_of_lookup_cons hl
    · obtain rfl := valid.unique hx hn id
      exact image.mono fun _ _ => found
    · exact (h.image hx hl).mono fun _ _ => found
  · obtain ⟨id, rfl⟩ | hl := eq_or_of_lookup_cons hl
    · obtain rfl := valid.unique hx hn id
      exact fresh.imp_right (Nat.le_trans h.next)
    · exact h.fresh hx hl
  · obtain ⟨-, rfl⟩ | hl := eq_or_of_lookup_cons hl
    · exact bounded
    · exact Nat.lt_of_lt_of_le (h.bounded hx hl) le
  · obtain ⟨idx, eqx⟩ | hlx := eq_or_of_lookup_cons ha
    · obtain ⟨idy, -⟩ | hly := eq_or_of_lookup_cons hb
      · exact valid.unique hx hy (idx.trans idy.symm)
      · exact absurd (eqx ▸ same) (apart hy hly)
    · obtain ⟨-, eqy⟩ | hly := eq_or_of_lookup_cons hb
      · exact absurd (eqy ▸ same.symm) (apart hx hlx)
      · exact h.injective hx hy hlx hly same

/-- What became of some nodes are these nodes, if it has their identities. -/
theorem Recorded.eq_of_ids (valid : K.Valid low) (h : Recorded low R K g) {cs news : List Node}
    (hcs : ∀ c ∈ cs, K c) (below : Forall₂ (fun c b => g.memo.lookup c.id = some b) cs news)
    (ids : news.map Node.id = cs.map Node.id) : news = cs := by
  induction below with
  | nil => rfl
  | @cons c b cs news hb _ ih =>
    obtain ⟨id, ids⟩ := List.cons.inj ids
    have hc : K c := hcs c List.mem_cons_self
    rw [ih (fun c hc => hcs c (List.mem_cons_of_mem _ hc)) ids]
    obtain rfl | later := h.fresh hc hb
    · rfl
    · exact absurd (valid.bounded hc) (by rw [← id]; exact Nat.not_lt.2 later)

/-- A node is finished as itself if its children are the same ones, and otherwise as a new node. -/
theorem Recorded.rebuilt {memo : Memo} {s s' : σ} {i i' : Identity} {news : List Node}
    (valid : K.Valid low) (h : Recorded low R K ⟨memo, s, i⟩) (hn : K n)
    (unknown : memo.lookup n.id = none) (stays : ¬ n.GivesWay R)
    (below : Forall₂ (fun c b => memo.lookup c.id = some b) n.children news)
    (run : n.rebuild news i = .ok (out, i')) :
    Recorded low R K ((⟨memo, s', i'⟩ : Stage σ).settled n out) := by
  unfold rebuild withChildren? at run
  by_cases same : sameAll news n.children = true
  · rw [if_pos same] at run
    cases run
    have ids : news.map Node.id = n.children.map Node.id := by simpa [sameAll] using same
    have itself : news = n.children := h.eq_of_ids valid (valid.closed hn) below ids
    refine h.settled valid hn unknown ?_ (.inl rfl) (Nat.le_refl _) ?_
    · have image := Image.kept stays below fun _ => rfl
      rw [itself, children, Kind.refill_children] at image
      rcases n with ⟨id, kind, type, annotations, diagnostics⟩
      exact image
    · exact Nat.lt_of_lt_of_le (valid.bounded hn) h.next
  · rw [if_neg same] at run
    cases run
    refine h.settled valid hn unknown ?_ (.inr (Nat.le_refl _)) (Nat.le_succ _) (Nat.lt_succ_self _)
    refine .kept stays below fun eq => absurd ?_ same
    rw [eq, sameAll, beq_self_eq_true]

/-- A run of a substitution that gives some nodes another shape keeps the memo true. -/
theorem Transforms.recorded {ns outs : List Node} {g g' : Stage σ}
    (h : Transforms replace (fun n news => n.rebuild news) ns g outs g') (valid : K.Valid low)
    (reshapes : ∀ n, K n → Reshapes R replace n) (hns : ∀ n ∈ ns, K n)
    (recorded : Recorded low R K g) : Recorded low R K g' := by
  -- the children are in the memo before their node is, so what it says of them carries over
  induction h with
  | nil => exact recorded
  | known _ _ ih => exact ih (fun n hn => hns n (List.mem_cons_of_mem _ hn)) recorded
  | @replaced n out ns outs memo s s₁ i i₁ g' unknown offered _ ih =>
    refine ih (fun n hn => hns n (List.mem_cons_of_mem _ hn)) ?_
    have hn := hns n List.mem_cons_self
    obtain ⟨k, gives, run⟩ | ⟨-, run⟩ := reshapes n hn
    · rw [run] at offered
      cases offered
      exact recorded.settled valid hn unknown (.replaced gives) (.inr (Nat.le_refl _))
        (Nat.le_succ _) (Nat.lt_succ_self _)
    · rw [run] at offered
      cases offered
  | @rebuilt n out ns news outs memo memo₂ s s₁ s₂ s₃ i i₁ i₂ i₃ g' unknown offered below finished _
    ihb ih =>
    refine ih (fun n hn => hns n (List.mem_cons_of_mem _ hn)) ?_
    have hn := hns n List.mem_cons_self
    obtain ⟨k, -, run⟩ | ⟨stays, run⟩ := reshapes n hn
    · rw [run] at offered
      cases offered
    · rw [run] at offered
      cases offered
      obtain ⟨rebuilt, rfl⟩ := Build.lift_ok finished
      exact (ihb (valid.closed hn) recorded).rebuilt valid hn
        (below.unknown_of_children valid hn unknown) stays below.images rebuilt

/-- A memo that tells of a node tells of all nodes that are met from it. -/
theorem Recorded.lookup_of_met {x : Node} (valid : K.Valid low) (h : Recorded low R K g) (hn : K n)
    (known : ∃ a, g.memo.lookup n.id = some a) (hx : x.Met (GivesWay R) n) :
    K x ∧ ∃ a, g.memo.lookup x.id = some a := by
  induction hx with
  | root => exact ⟨hn, known⟩
  | @deeper c n stays hc _ ih =>
    obtain ⟨a, hl⟩ := known
    cases h.image hn hl with
    | replaced gives => exact absurd ⟨_, gives⟩ stays
    | kept _ below =>
      obtain ⟨i, hi, rfl⟩ := List.mem_iff_getElem.1 hc
      have image := (List.forall₂_iff_get.1 below).2 i hi (below.length_eq ▸ hi)
      exact ih (valid.closed hn _ hc) ⟨_, image⟩

/-- A substitution that gives some nodes another shape rewrites the tree. -/
theorem rewritesTo_of_substitute {s s' : σ} {next' : Identity} (valid : K.Valid low) (hn : K n)
    (reshapes : ∀ n, K n → Reshapes R replace n)
    (run : substitute replace n s low = .ok ((out, s'), next')) : RewritesTo low R n out := by
  obtain ⟨⟨out, memo⟩, s₁, i₁, first, last⟩ := Build.bind_ok_over run
  cases last
  have transforms := transforms_of_transform first
  have recorded : Recorded low R K ⟨memo, s', next'⟩ :=
    transforms.recorded valid reshapes (fun x hx => List.mem_singleton.1 hx ▸ hn)
      ⟨Nat.le_refl _, nofun, nofun, nofun, nofun⟩
  have root : memo.lookup n.id = some out := by
    cases transforms.images with
    | cons found _ => exact found
  have found {x : Node} (hx : x.Met (GivesWay R) n) :=
    recorded.lookup_of_met valid hn ⟨out, root⟩ hx
  -- a node that the walk did not come to stays what it is
  let f (x : Node) : Node := (memo.lookup x.id).getD x
  have map {x a : Node} (hl : memo.lookup x.id = some a) : f x = a := by
    show (memo.lookup x.id).getD x = a
    rw [hl]
    rfl
  refine ⟨f, ⟨fun x hx => ?_, fun x hx => ?_, fun x y hx hy same => ?_⟩, (map root).symm⟩
  · obtain ⟨mem, a, hl⟩ := found hx
    rw [map hl]
    exact (recorded.image mem hl).mono fun _ _ => map
  · obtain ⟨mem, a, hl⟩ := found hx
    rw [map hl]
    exact recorded.fresh mem hl
  · obtain ⟨memx, a, hlx⟩ := found hx
    obtain ⟨memy, b, hly⟩ := found hy
    rw [map hlx, map hly] at same
    exact recorded.injective memx memy hlx hly same

end Run

end SqlAlgebra.Node
