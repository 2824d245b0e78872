import SqlAlgebra.Proofs.Tree.Offers

/-!
# What became of shared nodes

After a tree was gone over, one map says what became of each node that was offered, so a node that
stands at several places becomes one node at all of them.  Where something was given for a node, the
node becomes that.  Any other node is finished from what its children became: it stays itself, or it
becomes a new node, and two such nodes never become one.

The nodes that are given may be new ones, ones that were there before, or ones that the state of the
walk holds.  `Answers` says that all of them exist, and the account of a run is kept in the heap of
the nodes that exist so far.
-/

namespace SqlAlgebra.Node

open List (Forall₂)

variable {σ : Type}

/-- Whether what `offer` gives are nodes that exist.  `I` says whether the nodes that a state holds
are nodes of a heap. -/
structure Answers (I : Heap → σ → Prop) (offer : Node → StateT σ Build (Option Node)) : Prop where
  keeps : ∀ ⦃K K' : Heap⦄ ⦃s : σ⦄, (∀ x, K x → K' x) → I K s → I K' s
  grows : ∀ ⦃K : Heap⦄ ⦃n : Node⦄ ⦃s : σ⦄, K n → I K s →
    Build.Grows K (offer n s) fun K' p => (∀ r ∈ p.1, K' r) ∧ I K' p.2

/-- Whether a node is changed to one whose children are its own or what these became. -/
def Reuses (change : Node → List Node → Option Node) : Prop :=
  ∀ ⦃n : Node⦄ ⦃news : List Node⦄ ⦃m : Node⦄, news.length = n.children.length →
    change n news = some m → ∀ c ∈ m.children, c ∈ news ∨ c ∈ n.children

/-- What becomes of a node for which nothing is given, where `T` says what its children became.  A
new node has an identity from `low` on. -/
inductive Finished (change : Node → List Node → Option Node) (low : Identity)
    (T : Node → Node → Prop) (x : Node) : Node → Prop
  | kept {news : List Node} :
      Forall₂ T x.children news → change x news = none → Finished change low T x x
  | changed {news : List Node} {m : Node} {i : Identity} :
      Forall₂ T x.children news → change x news = some m → low ≤ i →
        Finished change low T x { m with id := i }

variable {I : Heap → σ → Prop} {offer : Node → StateT σ Build (Option Node)}
  {change : Node → List Node → Option Node} {R : Node → Option Node → Prop}
  {K H H' : Heap} {low i i' : Identity} {n x a out : Node} {ns outs news : List Node}
  {memo memo' : Memo} {s s' : σ} {g g' : Stage σ} {log : List Offer} {f : Node → Node}
  {T T' : Node → Node → Prop}

theorem Finished.mono (h : Finished change low T x a) (sub : ∀ b c, T b c → T' b c) :
    Finished change low T' x a := by
  cases h with
  | kept below same => exact .kept (below.imp sub) same
  | changed below changed le => exact .changed (below.imp sub) changed le

theorem Finished.itself_or_new (h : Finished change low T x a) : a = x ∨ low ≤ a.id := by
  cases h with
  | kept => exact .inl rfl
  | changed _ _ le => exact .inr le

/-- What a node becomes if its children become what a map says. -/
theorem Finished.cases_of_map (h : Finished change low (fun c b => f c = b) x a) :
    change x (x.children.map f) = none ∧ a = x ∨
      ∃ m, change x (x.children.map f) = some m ∧ low ≤ a.id ∧ a = { m with id := a.id } := by
  have images {news : List Node} (below : Forall₂ (fun c b => f c = b) x.children news) :
      x.children.map f = news := by
    rw [← List.forall₂_eq_eq_eq, List.forall₂_map_left_iff]
    exact below
  cases h with
  | kept below same => exact .inl ⟨images below ▸ same, rfl⟩
  | changed below changed le => exact .inr ⟨_, images below ▸ changed, le, rfl⟩

/-! ## The account of a run -/

/-- Whether a memo tells what became of nodes of the heap `K`, where `H` is the heap of the nodes
that exist now and `R` says what was given for the nodes that were offered. -/
structure Accounts (low : Identity) (I : Heap → σ → Prop)
    (change : Node → List Node → Option Node) (R : Node → Option Node → Prop) (K H : Heap)
    (g : Stage σ) : Prop where
  next : low ≤ g.next
  grown : K.Extends low H
  valid : H.Valid g.next
  state : I H g.state
  made : ∀ ⦃i : Identity⦄ ⦃a : Node⦄, g.memo.lookup i = some a → H a
  image : ∀ ⦃x a : Node⦄, K x → g.memo.lookup x.id = some a →
    R x (some a) ∨
      R x none ∧ Finished change low (fun c b => g.memo.lookup c.id = some b) x a
  apart : ∀ ⦃x y a b : Node⦄, K x → K y → R x none → R y none → g.memo.lookup x.id = some a →
    g.memo.lookup y.id = some b → a.id = b.id → x = y

/-- The same account, where more nodes exist. -/
theorem Accounts.grow (h : Accounts low I change R K H ⟨memo, s, i⟩) (le : i ≤ i')
    (ext : H.Extends i H') (valid : H'.Valid i') (state : I H' s') :
    Accounts low I change R K H' ⟨memo, s', i'⟩ where
  next := Nat.le_trans h.next le
  grown := h.grown.trans h.next ext
  valid := valid
  state := state
  made _ _ hl := ext.keeps (h.made hl)
  image := h.image
  apart := h.apart

/-- One more node in the memo.  A node for which nothing was given stays itself or becomes one that
is none of those before. -/
theorem Accounts.settled (h : Accounts low I change R K H ⟨memo, s, i⟩) (hK : K.Valid low)
    (exclusive : ∀ x r, R x (some r) → ¬ R x none) (hn : K n) (unknown : memo.lookup n.id = none)
    (image : R n (some out) ∨
      R n none ∧ Finished change low (fun c b => memo.lookup c.id = some b) n out)
    (fresh : R n none → out = n ∨ ∀ i a, memo.lookup i = some a → a.id ≠ out.id) (hout : H out) :
    Accounts low I change R K H ((⟨memo, s, i⟩ : Stage σ).settled n out) := by
  have found {j : Identity} {b : Node} (hl : memo.lookup j = some b) :
      ((n.id, out) :: memo).lookup j = some b := lookup_cons_of_some unknown hl
  have separate {y b : Node} (hy : K y) (hRn : R n none) (hRy : R y none)
      (hl : memo.lookup y.id = some b) (same : out.id = b.id) : n = y := by
    obtain rfl | new := fresh hRn
    · obtain given | ⟨-, finished⟩ := h.image hy hl
      · exact absurd hRy (exclusive _ _ given)
      · obtain rfl | later := finished.itself_or_new
        · exact hK.unique hn hy same
        · exact absurd (hK.bounded hn) (by rw [same]; exact Nat.not_lt.2 later)
    · exact absurd same.symm (new _ _ hl)
  refine ⟨h.next, h.grown, h.valid, h.state, fun j b hl => ?_, fun x b hx hl => ?_,
    fun x y b c hx hy hRx hRy hb hc same => ?_⟩
  · obtain ⟨-, rfl⟩ | hl := eq_or_of_lookup_cons hl
    · exact hout
    · exact h.made hl
  · obtain ⟨id, rfl⟩ | hl := eq_or_of_lookup_cons hl
    · obtain rfl := hK.unique hx hn id
      exact image.imp_right fun ⟨hR, finished⟩ => ⟨hR, finished.mono fun _ _ => found⟩
    · exact (h.image hx hl).imp_right fun ⟨hR, finished⟩ => ⟨hR, finished.mono fun _ _ => found⟩
  · obtain ⟨idx, eqx⟩ | hlx := eq_or_of_lookup_cons hb
    · obtain rfl := hK.unique hx hn idx
      obtain ⟨idy, -⟩ | hly := eq_or_of_lookup_cons hc
      · exact hK.unique hx hy idy.symm
      · exact separate hy hRx hRy hly (eqx ▸ same)
    · obtain ⟨idy, eqy⟩ | hly := eq_or_of_lookup_cons hc
      · obtain rfl := hK.unique hy hn idy
        exact (separate hx hRy hRx hlx (eqy ▸ same.symm)).symm
      · exact h.apart hx hy hRx hRy hlx hly same

/-- A node is finished from what became of its children. -/
theorem Accounts.finish (h : Accounts low I change R K H ⟨memo, s, i⟩) (hK : K.Valid low)
    (answers : Answers I offer) (reuses : Reuses change)
    (exclusive : ∀ x r, R x (some r) → ¬ R x none) (hn : K n) (unknown : memo.lookup n.id = none)
    (left : R n none) (below : Forall₂ (fun c b => memo.lookup c.id = some b) n.children news)
    (run : finishWith change n news i = .ok (out, i')) :
    ∃ H', Accounts low I change R K H' ((⟨memo, s, i'⟩ : Stage σ).settled n out) := by
  obtain ⟨same, rfl, rfl⟩ | ⟨m, changed, rfl, rfl⟩ := finishWith_cases run
  · exact ⟨H, h.settled hK exclusive hn unknown (.inr ⟨left, .kept below same⟩)
      (fun _ => .inl rfl) (h.grown.keeps hn)⟩
  · have children : ∀ c ∈ m.children, H c := by
      intro c hc
      obtain mem | mem := reuses below.length_eq.symm changed c hc
      · obtain ⟨j, hj, rfl⟩ := List.mem_iff_getElem.1 mem
        exact h.made ((List.forall₂_iff_get.1 below).2 j (below.length_eq ▸ hj) hj)
      · exact h.grown.keeps (hK.closed hn c mem)
    have state : I (H.insert { m with id := i }) s := answers.keeps (fun _ => .inl) h.state
    have grown := h.grow (Nat.le_succ i) (.insert (n := { m with id := i }) rfl)
      (h.valid.insert rfl children) state
    refine ⟨_, grown.settled hK exclusive hn unknown
      (.inr ⟨left, .changed below changed h.next⟩) (fun _ => .inr fun j b hl => ?_) (.inr rfl)⟩
    exact Nat.ne_of_lt (h.valid.bounded (h.made hl))

/-- A run keeps account of what becomes of the nodes. -/
theorem Visits.accounts (h : Visits offer change ns g log outs g') (hK : K.Valid low)
    (answers : Answers I offer) (reuses : Reuses change)
    (exclusive : ∀ x r, R x (some r) → ¬ R x none) (hns : ∀ n ∈ ns, K n)
    (told : ∀ call ∈ log, R call.1 call.2) (accounts : Accounts low I change R K H g) :
    ∃ H', Accounts low I change R K H' g' := by
  induction h generalizing H with
  | nil => exact ⟨H, accounts⟩
  | known _ _ ih => exact ih (fun n hn => hns n (List.mem_cons_of_mem _ hn)) told accounts
  | @replaced n out _ _ _ _ _ _ _ _ _ unknown offered _ ih =>
    have hn : K n := hns n List.mem_cons_self
    have given : R n (some out) := told (n, some out) List.mem_cons_self
    obtain ⟨le, H', ext, valid, made, state⟩ :=
      answers.grows (accounts.grown.keeps hn) accounts.state accounts.valid offered
    have grown := accounts.grow le ext valid state
    have settled := grown.settled hK exclusive hn unknown (.inl given)
      (fun left => absurd left (exclusive _ _ given)) (made out rfl)
    exact ih (fun n hn => hns n (List.mem_cons_of_mem _ hn))
      (fun call hc => told call (List.mem_cons_of_mem _ hc)) settled
  | @finished n out _ _ _ _ _ _ _ _ _ _ _ _ _ below log unknown offered visitsBelow finished _ ihb
    ih =>
    have hn : K n := hns n List.mem_cons_self
    obtain ⟨le, H₁, ext, valid, -, state⟩ :=
      answers.grows (accounts.grown.keeps hn) accounts.state accounts.valid offered
    obtain ⟨H₂, accountsBelow⟩ := ihb (hK.closed hn)
      (fun call hc => told call (List.mem_cons_of_mem _ (List.mem_append_left _ hc)))
      (accounts.grow le ext valid state)
    obtain ⟨H₃, settled⟩ := accountsBelow.finish hK answers reuses exclusive hn
      (visitsBelow.transforms.unknown_of_children hK hn unknown) (told (n, none) List.mem_cons_self)
      visitsBelow.transforms.images finished
    exact ih (fun n hn => hns n (List.mem_cons_of_mem _ hn))
      (fun call hc => told call (List.mem_cons_of_mem _ (List.mem_append_right _ hc))) settled

/-! ## What became of the nodes -/

/-- Whether a map says what became of the nodes that were offered. -/
structure Outcomes (change : Node → List Node → Option Node) (low : Identity) (log : List Offer)
    (f : Node → Node) : Prop where
  replaced : ∀ ⦃x r : Node⦄, (x, some r) ∈ log → f x = r
  finished : ∀ ⦃x : Node⦄, (x, none) ∈ log → Finished change low (fun c b => f c = b) x (f x)
  apart : ∀ ⦃x y : Node⦄, (x, none) ∈ log → (y, none) ∈ log → (f x).id = (f y).id → x = y
  itself : ∀ ⦃x : Node⦄ ⦃o : Option Node⦄, (x, o) ∈ log → (f x).id = x.id → f x = x

/-- Whether something was given for a node. -/
def IsReplaced (log : List Offer) (x : Node) : Prop := ∃ r, (x, some r) ∈ log

/-- The same, by identity. -/
def replacedIn (log : List Offer) (x : Node) : Bool :=
  log.any fun call => call.1.id == x.id && call.2.isSome

/-- The nodes that are offered in going over a tree, in order, where `log` tells what is given for
them. -/
def offers (log : List Offer) (n : Node) : List Node :=
  distinctOutside [] (n.walk (replacedIn log))

/-- Of nodes that are offered once each, one answer is told. -/
theorem answer_unique (nodup : (offeredIds log).Nodup) {o o' : Option Node} (h : (x, o) ∈ log)
    (h' : (x, o') ∈ log) : o = o' :=
  (Prod.mk.inj (List.inj_on_of_nodup_map nodup h h' rfl)).2

theorem stopsAt_replacedIn (nodup : (offeredIds log).Nodup) : StopsAt (replacedIn log) log := by
  rintro ⟨x, o⟩ hc
  have told : replacedIn log x = true ↔ o.isSome = true := by
    unfold replacedIn
    rw [List.any_eq_true]
    constructor
    · rintro ⟨call, hcall, is⟩
      rw [Bool.and_eq_true, beq_iff_eq] at is
      obtain rfl := List.inj_on_of_nodup_map nodup hcall hc is.1
      exact is.2
    · intro some
      exact ⟨(x, o), hc, by simp [some]⟩
  exact Bool.eq_iff_iff.2 told

theorem replacedIn_iff (hK : K.Valid low) (hlog : ∀ call ∈ log, K call.1) (hx : K x) :
    replacedIn log x = true ↔ IsReplaced log x := by
  unfold replacedIn IsReplaced
  rw [List.any_eq_true]
  constructor
  · rintro ⟨⟨y, o⟩, hcall, is⟩
    rw [Bool.and_eq_true, beq_iff_eq] at is
    obtain rfl := hK.unique (hlog _ hcall) hx is.1
    obtain ⟨r, rfl⟩ := Option.isSome_iff_exists.1 is.2
    exact ⟨r, hcall⟩
  · rintro ⟨r, hr⟩
    exact ⟨(x, some r), hr, by simp⟩

/-- Where nothing stops the walk it meets all nodes of the tree. -/
theorem Met.of_occurs {P : Node → Prop} (h : Occurs x n) (never : ∀ y, ¬ P y) : x.Met P n := by
  induction h with
  | root => exact .root
  | deeper hc _ ih => exact .deeper (never _) hc ih

/-- Nodes of a heap are met alike by walks that stop at the same nodes of the heap. -/
theorem Met.mono_of_valid {P P' : Node → Prop} (h : x.Met P n) (hK : K.Valid low) (hn : K n)
    (sub : ∀ y, K y → P' y → P y) : x.Met P' n := by
  induction h with
  | root => exact .root
  | deeper goes hc _ ih =>
    exact .deeper (fun h => goes (sub _ hn h)) hc (ih (hK.closed hn _ hc))

theorem Visits.mem_heap (h : Visits offer change [n] g log outs g') (hK : K.Valid low) (hn : K n) :
    ∀ call ∈ log, K call.1 := by
  intro call hc
  obtain ⟨m, hm, occurs⟩ := h.occurs hc
  exact hK.occurs (List.mem_singleton.1 hm ▸ hn) occurs

/-- The nodes that are offered are those that are met on the way down if one does not go below
nodes that are replaced. -/
theorem mem_log_iff (hK : K.Valid low) (hn : K n) (hlog : ∀ call ∈ log, K call.1)
    (order : log.map Prod.fst = offers log n) :
    (∃ o, (x, o) ∈ log) ↔ x.Met (IsReplaced log) n := by
  have listed : (∃ o, (x, o) ∈ log) ↔ x ∈ log.map Prod.fst := by
    rw [List.mem_map]
    constructor
    · rintro ⟨o, h⟩
      exact ⟨_, h, rfl⟩
    · rintro ⟨⟨y, o⟩, h, rfl⟩
      exact ⟨o, h⟩
  have places : ∀ a ∈ n.walk (replacedIn log), K a := fun a ha =>
    hK.occurs hn (mem_walk_iff.1 ha).occurs
  rw [listed, order, offers,
    mem_distinctOutside_iff fun a ha b hb => hK.unique (places a ha) (places b hb), mem_walk_iff]
  constructor
  · intro h
    exact h.1.mono_of_valid hK hn fun y hy => (replacedIn_iff hK hlog hy).2
  · intro h
    exact ⟨h.mono_of_valid hK hn fun y hy => (replacedIn_iff hK hlog hy).1, List.not_mem_nil⟩

/-- The account of a run from the beginning, read off as a map. -/
theorem Accounts.outcomes {g : Stage σ}
    (h : Accounts low I change (fun x o => (x, o) ∈ log) K H g) (hlog : ∀ call ∈ log, K call.1)
    (nodup : (offeredIds log).Nodup) (known : ∀ call ∈ log, g.Knows call.1.id) :
    Outcomes change low log fun x => (g.memo.lookup x.id).getD x := by
  have map {x a : Node} (hl : g.memo.lookup x.id = some a) :
      (g.memo.lookup x.id).getD x = a := by
    rw [hl]
    rfl
  refine ⟨fun x r hx => ?_, fun x hx => ?_, fun x y hx hy same => ?_, fun x o hx same => ?_⟩
  · obtain ⟨a, hl⟩ := known _ hx
    obtain given | ⟨left, -⟩ := h.image (hlog _ hx) hl
    · have same : a = r := Option.some.inj (answer_unique nodup given hx)
      rw [map hl, same]
    · cases answer_unique nodup left hx
  · obtain ⟨a, hl⟩ := known _ hx
    rw [map hl]
    obtain given | ⟨-, finished⟩ := h.image (hlog _ hx) hl
    · cases answer_unique nodup given hx
    · exact finished.mono fun _ _ => map
  · obtain ⟨a, hla⟩ := known _ hx
    obtain ⟨b, hlb⟩ := known _ hy
    rw [map hla, map hlb] at same
    exact h.apart (hlog _ hx) (hlog _ hy) hx hy hla hlb same
  · obtain ⟨a, hl⟩ := known _ hx
    rw [map hl] at same ⊢
    exact h.valid.unique (h.made hl) (h.grown.keeps (hlog _ hx)) same

/-- Going over a tree offers each of its nodes once, in order, and finishes what is left alone.  What
comes of it stands in a valid heap. -/
theorem exists_outcomes (hK : K.Valid low) (hn : K n) (answers : Answers I offer)
    (reuses : Reuses change) (state : I K s)
    (run : transform offer (fun n news => liftM (finishWith change n news)) n [] s low =
      .ok (((out, memo), s'), i')) :
    ∃ log f, Calls offer log s low s' i' ∧ log.map Prod.fst = offers log n ∧
      (offeredIds log).Nodup ∧ (∀ x, (∃ o, (x, o) ∈ log) ↔ x.Met (IsReplaced log) n) ∧
        Outcomes change low log f ∧ out = f n ∧ ∃ H : Heap, H.Valid i' ∧ H out := by
  obtain ⟨log, visits⟩ := (transforms_of_transform run).visits
  have hns : ∀ m ∈ [n], K m := fun m hm => List.mem_singleton.1 hm ▸ hn
  have nodup : (offeredIds log).Nodup := visits.nodup hK hns
  have hlog := visits.mem_heap hK hn
  have order : log.map Prod.fst = offers log n := by
    have known (i : Identity) : i ∈ [] ↔ (⟨[], s, low⟩ : Stage σ).Knows i := by
      simp [not_knows_start]
    have order := visits.order hK hns (stopsAt_replacedIn nodup)
      (fun x _ known => absurd known not_knows_start) known
    rwa [List.flatMap_singleton] at order
  have start : Accounts low I change (fun x o => (x, o) ∈ log) K K ⟨[], s, low⟩ :=
    ⟨Nat.le_refl _, .refl K low, hK, state, nofun, nofun, nofun⟩
  obtain ⟨H, accounts⟩ := visits.accounts hK answers reuses
    (fun x r given left => by cases answer_unique nodup given left) hns (fun _ h => h) start
  have outcomes := accounts.outcomes hlog nodup fun call hc =>
    visits.knows_iff.2 (.inl (List.mem_map_of_mem hc))
  have root : memo.lookup n.id = some out := by
    cases visits.transforms.images with
    | cons found _ => exact found
  refine ⟨log, _, visits.calls, order, nodup, fun x => mem_log_iff hK hn hlog order, outcomes, ?_, H,
    accounts.valid, accounts.made root⟩
  show out = (memo.lookup n.id).getD n
  rw [root]
  rfl

/-! ## Substitution -/

/-- Whether a map says what a substitution makes of a tree, where `log` tells what was offered and
what was given for it. -/
structure Substitutes (low : Identity) (log : List Offer) (n : Node) (f : Node → Node) :
    Prop where
  /-- What is offered are the nodes that are met without passing through a replaced one. -/
  offered : ∀ x, (∃ o, (x, o) ∈ log) ↔ x.Met (IsReplaced log) n
  once : (offeredIds log).Nodup
  replaced : ∀ ⦃x r : Node⦄, (x, some r) ∈ log → f x = r
  kept : ∀ ⦃x : Node⦄, (x, none) ∈ log → (∀ c ∈ x.children, f c = c) → f x = x
  /-- A new node has an identity that no node had before, and all else but its children is kept. -/
  rebuilt : ∀ ⦃x c : Node⦄, (x, none) ∈ log → c ∈ x.children → f c ≠ c →
    low ≤ (f x).id ∧ f x = { x with id := (f x).id, kind := x.kind.refill (x.children.map f) }
  children : ∀ ⦃x : Node⦄, (x, none) ∈ log → (f x).children = x.children.map f
  apart : ∀ ⦃x y : Node⦄, (x, none) ∈ log → (y, none) ∈ log → (f x).id = (f y).id → x = y
  untouched : ∀ ⦃x : Node⦄ ⦃o : Option Node⦄, (x, o) ∈ log →
    (∀ y, Occurs y x → ¬ IsReplaced log y) → f x = x

theorem reuses_withChildren : Reuses withChildren? := by
  intro n news m length changed c hc
  unfold withChildren? at changed
  by_cases same : sameAll news n.children = true
  · rw [if_pos same] at changed
    cases changed
  · rw [if_neg same] at changed
    cases changed
    rw [children, Kind.children_refill length] at hc
    exact .inl hc

/-- A child of a node that is left alone is offered as well. -/
theorem mem_log_child (offered : ∀ x, (∃ o, (x, o) ∈ log) ↔ x.Met (IsReplaced log) n)
    (nodup : (offeredIds log).Nodup) {c : Node} (hx : (x, none) ∈ log) (hc : c ∈ x.children) :
    ∃ o, (c, o) ∈ log := by
  rw [offered]
  refine Met.child ((offered x).1 ⟨none, hx⟩) ?_ hc
  rintro ⟨r, hr⟩
  cases answer_unique nodup hr hx

/-- Whether the children of a node are the same as before shows in their identities. -/
theorem Outcomes.sameAll_iff (h : Outcomes change low log f)
    (below : ∀ c ∈ x.children, ∃ o, (c, o) ∈ log) :
    sameAll (x.children.map f) x.children = true ↔ ∀ c ∈ x.children, f c = c := by
  unfold sameAll
  rw [beq_iff_eq, List.map_map, List.map_inj_left]
  constructor
  · intro ids c hc
    obtain ⟨o, mem⟩ := below c hc
    exact h.itself mem (ids c hc)
  · intro all c hc
    show (f c).id = c.id
    rw [all c hc]

/-- A map that says what became of the nodes of a tree, where the nodes that are left alone are
rebuilt from their children. -/
theorem Outcomes.substitutes (h : Outcomes withChildren? low log f) (nodup : (offeredIds log).Nodup)
    (offered : ∀ x, (∃ o, (x, o) ∈ log) ↔ x.Met (IsReplaced log) n) :
    Substitutes low log n f := by
  have same_iff {x : Node} (hx : (x, none) ∈ log) :
      sameAll (x.children.map f) x.children = true ↔ ∀ c ∈ x.children, f c = c :=
    h.sameAll_iff fun c hc => mem_log_child offered nodup hx hc
  have kept {x : Node} (hx : (x, none) ∈ log) (all : ∀ c ∈ x.children, f c = c) : f x = x := by
    obtain ⟨-, itself⟩ | ⟨m, changed, -⟩ := (h.finished hx).cases_of_map
    · exact itself
    · rw [withChildren?, if_pos ((same_iff hx).2 all)] at changed
      cases changed
  have rebuilt {x c : Node} (hx : (x, none) ∈ log) (hc : c ∈ x.children) (other : f c ≠ c) :
      low ≤ (f x).id ∧
        f x = { x with id := (f x).id, kind := x.kind.refill (x.children.map f) } := by
    have differs : ¬ sameAll (x.children.map f) x.children = true := fun same =>
      other ((same_iff hx).1 same c hc)
    obtain ⟨same, -⟩ | ⟨m, changed, le, eq⟩ := (h.finished hx).cases_of_map
    · rw [withChildren?, if_neg differs] at same
      cases same
    · rw [withChildren?, if_neg differs] at changed
      cases changed
      exact ⟨le, eq⟩
  refine ⟨offered, nodup, h.replaced, fun x => kept, fun x c => rebuilt, fun x hx => ?_, h.apart,
    fun x o hx untouched => ?_⟩
  · by_cases all : ∀ c ∈ x.children, f c = c
    · rw [kept hx all]
      rw [List.map_congr_left all, List.map_id']
    · simp only [not_forall] at all
      obtain ⟨c, hc, other⟩ := all
      rw [(rebuilt hx hc other).2]
      exact Kind.children_refill (List.length_map _)
  · induction x using Node.induct generalizing o with
    | step x ih =>
      cases o with
      | some r => exact absurd ⟨r, hx⟩ (untouched x .root)
      | none =>
        apply kept hx
        intro c hc
        obtain ⟨o, mem⟩ := mem_log_child offered nodup hx hc
        exact ih c hc o mem fun y hy => untouched y (.deeper hc hy)

/-- What a substitution does with a tree, for any way to replace nodes by nodes that exist.  It calls
`replace` for each node that is met without passing through a replaced one, once and in the order
of a walk from the root, until a call fails.  If none fails, one map says what became of every node,
so what is given for a node stands at all its places, and a node that is rebuilt is rebuilt once. -/
theorem substitute_shares {replace : Node → StateT σ Build (Option Node)} (hK : K.Valid low)
    (hn : K n) (answers : Answers I replace) (state : I K s) :
    match substitute replace n s low with
    | .ok ((out, s'), i') =>
      ∃ log f, Calls replace log s low s' i' ∧ log.map Prod.fst = offers log n ∧
        Substitutes low log n f ∧ out = f n ∧ ((∀ x, ¬ IsReplaced log x) → out = n)
    | .error e =>
      ∃ log x s' i', Calls replace log s low s' i' ∧ replace x s' i' = .error e ∧
        log.map Prod.fst ++ [x] <+: offers log n := by
  cases run : substitute replace n s low with
  | ok result =>
    obtain ⟨⟨out, s'⟩, i'⟩ := result
    obtain ⟨⟨out, memo⟩, s₁, i₁, first, last⟩ := Build.bind_ok_over run
    cases last
    obtain ⟨log, f, calls, order, nodup, offered, outcomes, rfl, -⟩ :=
      exists_outcomes hK hn answers reuses_withChildren state first
    have substitutes := outcomes.substitutes nodup offered
    obtain ⟨o, root⟩ := (offered n).2 .root
    exact ⟨log, f, calls, order, substitutes, rfl, fun never =>
      substitutes.untouched root fun y _ => never y⟩
  | error e =>
    obtain failed | ⟨_, _, _, _, last⟩ := Build.bind_error_over run
    · obtain ⟨log, x, s', i', breaks, fails⟩ :
          ∃ log x s' i', (∀ ns, Breaks replace withChildren? x s' i' (n :: ns) ⟨[], s, low⟩ log) ∧
            replace x s' i' = .error e := breaks_of_transform failed
      have breaks := breaks []
      have hns : ∀ m ∈ [n], K m := fun m hm => List.mem_singleton.1 hm ▸ hn
      have known (i : Identity) : i ∈ [] ↔ (⟨[], s, low⟩ : Stage σ).Knows i := by
        simp [not_knows_start]
      have order := breaks.order hK hns (stopsAt_replacedIn (breaks.nodup hK hns))
        (fun x _ known => absurd known not_knows_start) known
      rw [List.flatMap_singleton] at order
      exact ⟨log, x, s', i', breaks.calls, fails, order⟩
    · cases last

section Sample

/-- Two conditions on one column. -/
def sampleRange : Node :=
  ⟨5, .clauseList .and
    [⟨3, .binary (Select.sampleReference 1 (Select.sampleElement 0 "t")) .gt
        ⟨2, .null, .null, [], []⟩, .boolean, [("origin", "caller")], []⟩,
      ⟨4, .binary (Select.sampleReference 1 (Select.sampleElement 0 "t")) .lt
        ⟨2, .null, .null, [], []⟩, .boolean, [], []⟩], .boolean, [], []⟩

/-- Puts the node that the state holds in the place of the column. -/
def sampleSwap (n : Node) : StateT Node Build (Option Node) := fun held =>
  pure (if n.id = 1 then some held else none, held)

theorem answers_sampleSwap : Answers (fun K held => K held) sampleSwap where
  keeps K K' held sub hheld := sub held hheld
  grows K n held hn hheld := by
    refine .pure ⟨fun r hr => ?_, hheld⟩
    by_cases column : n.id = 1
    · rw [if_pos column] at hr
      exact Option.mem_some.1 hr ▸ hheld
    · rw [if_neg column] at hr
      cases hr

theorem valid_sampleRange : Heap.Valid (· ∈ Select.sampleElement 0 "t" ::
    Select.sampleReference 1 (Select.sampleElement 0 "t") :: ⟨2, .null, .null, [], []⟩ ::
    Select.sampleReference 6 (Select.sampleElement 0 "t") :: sampleRange ::
    sampleRange.children) 7 := by
  refine Heap.valid_of_list ?_ ?_ ?_ <;>
    simp [sampleRange, Select.sampleReference, Select.sampleElement, children, Kind.children]

/-- The column is one node in both conditions, and another column takes its place in both. -/
theorem substitute_shares_sampleRange :
    ∃ out s' i' log f,
      substitute sampleSwap sampleRange (Select.sampleReference 6 (Select.sampleElement 0 "t")) 7 =
          .ok ((out, s'), i') ∧
        Calls sampleSwap log (Select.sampleReference 6 (Select.sampleElement 0 "t")) 7 s' i' ∧
          log.map Prod.fst = offers log sampleRange ∧ Substitutes 7 log sampleRange f ∧
            out = f sampleRange := by
  have shares := substitute_shares (n := sampleRange)
    (s := Select.sampleReference 6 (Select.sampleElement 0 "t")) valid_sampleRange (by simp)
    answers_sampleSwap (by simp)
  split at shares
  · next out s' i' run =>
    obtain ⟨log, f, calls, order, substitutes, root, -⟩ := shares
    exact ⟨out, s', i', log, f, run, calls, order, substitutes, root⟩
  · obtain ⟨_, _, _, _, -, fails, -⟩ := shares
    cases fails

end Sample

end SqlAlgebra.Node
