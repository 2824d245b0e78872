import SqlAlgebra.Proofs.Deferred.Becoming

/-!
# The nodes of a resolution

While deferred expressions are resolved there are two sorts of nodes: the sources, which are the
nodes of the statement and of what was made for its deferred nodes, and the copies of sources whose
children were replaced.  A copy is traced back to its source.  Each tree that was gone over is
remembered with what became of its nodes.
-/

namespace SqlAlgebra

open List (Forall₂)
open Node

/-- A tree that was gone over, with what became of its nodes and the calls for its deferred
nodes. -/
structure Rewriting where
  tree : Node
  images : Memo
  calls : List LambdaCall

/-- What there is at some time of a resolution. -/
structure World where
  sources : Heap
  /-- The sources and the copies. -/
  heap : Heap
  /-- The identity of the source that a copy was made from; a source is its own. -/
  origin : Identity → Identity
  next : Identity
  calls : List LambdaCall
  log : List Rewriting

namespace World

/-- What became of a source, where a memo tells it of the children.  A deferred node became what the
tree made for it became.  Another node was filled with what its children became, and is still the
same if these are. -/
inductive Image (w : World) (memo : Memo) : Node → Node → Prop
  | made {x a : Node} {r : Rewriting} :
      x.isDeferred = true → ⟨x, r.tree⟩ ∈ w.calls → r ∈ w.log →
        r.images.lookup r.tree.id = some a → Image w memo x a
  | filled {x a : Node} {news : List Node} :
      x.isDeferred = false → Forall₂ (fun c a => memo.lookup c.id = some a) x.children news →
        w.origin a.id = x.id → a.type = x.type → a.kind = x.kind.refill news →
          (news = x.children → a = x) → Image w memo x a

/-- Whether a memo tells of sources only, and the truth about these. -/
structure Keeps (w : World) (memo : Memo) : Prop where
  keys : ∀ ⦃i : Identity⦄ ⦃a : Node⦄, memo.lookup i = some a → ∃ x, w.sources x ∧ x.id = i
  images : ∀ ⦃x a : Node⦄, w.sources x → memo.lookup x.id = some a → w.Image memo x a
  heap : ∀ ⦃i : Identity⦄ ⦃a : Node⦄, memo.lookup i = some a → w.heap a
  becomes : ∀ ⦃x a : Node⦄, w.sources x → memo.lookup x.id = some a →
    ∃ b, x.Becomes w.calls b

/-- Whether a rewriting is a true record: each deferred node of the tree was asked for once. -/
structure Records (w : World) (r : Rewriting) : Prop where
  source : w.sources r.tree
  keeps : w.Keeps r.images
  root : ∃ a, r.images.lookup r.tree.id = some a
  once : (r.calls.map fun c => c.deferred.id).Nodup
  calls : ∀ d, (∃ c ∈ r.calls, c.deferred = d) ↔ d.isDeferred = true ∧ Occurs d r.tree

structure Valid (w : World) : Prop where
  sources : w.sources.Valid w.next
  heap : w.heap.Valid w.next
  sub : ∀ ⦃x : Node⦄, w.sources x → w.heap x
  origin : ∀ ⦃x : Node⦄, w.sources x → w.origin x.id = x.id
  free : ∀ ⦃i : Identity⦄, w.next ≤ i → w.origin i = i
  log : ∀ r ∈ w.log, w.Records r

/-- Whether a world is a later state of another. -/
structure Extends (w w' : World) : Prop where
  next : w.next ≤ w'.next
  sources : w.sources.Extends w.next w'.sources
  heap : ∀ ⦃x : Node⦄, w.heap x → w'.heap x
  origin : ∀ ⦃i : Identity⦄, i < w.next → w'.origin i = w.origin i
  calls : ∀ c ∈ w.calls, c ∈ w'.calls
  log : ∀ r ∈ w.log, r ∈ w'.log

variable {w w' w'' : World} {memo memo' memo'' : Memo} {x a n out : Node} {r : Rewriting}

theorem Extends.refl (w : World) : w.Extends w :=
  ⟨Nat.le_refl _, .refl _ _, fun _ h => h, fun _ _ => rfl, fun _ h => h, fun _ h => h⟩

theorem Extends.trans (h : w.Extends w') (h' : w'.Extends w'') : w.Extends w'' where
  next := Nat.le_trans h.next h'.next
  sources := h.sources.trans h.next h'.sources
  heap _ hx := h'.heap (h.heap hx)
  origin _ hi := (h'.origin (Nat.lt_of_lt_of_le hi h.next)).trans (h.origin hi)
  calls c hc := h'.calls c (h.calls c hc)
  log r hr := h'.log r (h.log r hr)

theorem Image.mono (h : w.Image memo x a) (ext : w.Extends w') (ha : a.id < w.next)
    (found : ∀ i b, memo.lookup i = some b → memo'.lookup i = some b) : w'.Image memo' x a := by
  cases h with
  | made deferred call logged root =>
    exact .made deferred (ext.calls _ call) (ext.log _ logged) root
  | filled plain below origin type kind same =>
    exact .filled plain (below.imp fun _ _ h => found _ _ h)
      ((ext.origin ha).trans origin) type kind
      same

theorem Keeps.mono (h : w.Keeps memo) (valid : w.Valid) (valid' : w'.sources.Valid w'.next)
    (ext : w.Extends w') : w'.Keeps memo := by
  have old {x a : Node} (hx : w'.sources x) (hl : memo.lookup x.id = some a) : w.sources x := by
    obtain ⟨y, hy, id⟩ := h.keys hl
    exact valid'.unique (ext.sources.keeps hy) hx id ▸ hy
  refine ⟨fun i a hl => ?_, fun x a hx hl => ?_, fun i a hl => ext.heap (h.heap hl),
    fun x a hx hl => ?_⟩
  · obtain ⟨y, hy, id⟩ := h.keys hl
    exact ⟨y, ext.sources.keeps hy, id⟩
  · exact (h.images (old hx hl) hl).mono ext (valid.heap.bounded (h.heap hl)) fun _ _ h => h
  · obtain ⟨b, hb⟩ := h.becomes (old hx hl) hl
    exact ⟨b, hb.mono ext.calls⟩

theorem Records.mono (h : w.Records r) (valid : w.Valid) (valid' : w'.sources.Valid w'.next)
    (ext : w.Extends w') : w'.Records r :=
  ⟨ext.sources.keeps h.source, h.keeps.mono valid valid' ext, h.root, h.once, h.calls⟩

/-- Everything below a node that a memo tells of is told of as well. -/
theorem Keeps.lookup_of_occurs (h : w.Keeps memo) (valid : w.Valid) {y : Node} (hx : w.sources x)
    (hl : memo.lookup x.id = some a) (hy : Occurs y x) : ∃ b, memo.lookup y.id = some b := by
  induction hy generalizing a with
  | root => exact ⟨a, hl⟩
  | @deeper c x hc _ ih =>
    cases h.images hx hl with
    | made deferred =>
      rw [children_of_isDeferred deferred] at hc
      cases hc
    | filled _ below =>
      obtain ⟨i, hi, rfl⟩ := List.mem_iff_getElem.1 hc
      have hi' := below.length_eq ▸ hi
      have := (List.forall₂_iff_get.1 below).2 i hi hi'
      exact ih (valid.sources.closed hx _ hc) this

theorem Keeps.cons (h : w.Keeps memo) (valid : w.Valid) (hn : w.sources n)
    (unknown : memo.lookup n.id = none) (image : w.Image ((n.id, out) :: memo) n out)
    (hout : w.heap out) (becomes : ∃ b, n.Becomes w.calls b) : w.Keeps ((n.id, out) :: memo) := by
  refine ⟨fun i a hl => ?_, fun x a hx hl => ?_, fun i a hl => ?_, fun x a hx hl => ?_⟩
  · obtain ⟨rfl, -⟩ | hl := eq_or_of_lookup_cons hl
    · exact ⟨n, hn, rfl⟩
    · exact h.keys hl
  · obtain ⟨id, rfl⟩ | hl := eq_or_of_lookup_cons hl
    · obtain rfl := valid.sources.unique hx hn id
      exact image
    · exact (h.images hx hl).mono (.refl w) (valid.heap.bounded (h.heap hl)) fun _ _ =>
        lookup_cons_of_some unknown
  · obtain ⟨-, rfl⟩ | hl := eq_or_of_lookup_cons hl
    · exact hout
    · exact h.heap hl
  · obtain ⟨id, rfl⟩ | hl := eq_or_of_lookup_cons hl
    · obtain rfl := valid.sources.unique hx hn id
      exact becomes
    · exact h.becomes hx hl

/-! ## Progress -/

/-- The calls that were made in some rewritings. -/
abbrev callsOf (logs : List Rewriting) : List LambdaCall := logs.flatMap Rewriting.calls

/-- What happens while some nodes of a tree are gone over: the calls `own` are made for deferred
nodes of the tree, and the rewritings `logs` take place on the way. -/
structure Progress (w : World) (memo : Memo) (w' : World) (memo' : Memo) (own : List LambdaCall)
    (logs : List Rewriting) : Prop where
  valid : w'.Valid
  ext : w.Extends w'
  keeps : w'.Keeps memo'
  log : w'.log = w.log ++ logs
  calls : ∃ new, w'.calls = w.calls ++ new ∧ new.Perm (own ++ callsOf logs)
  trees : (logs.map Rewriting.tree).Perm ((own ++ callsOf logs).map LambdaCall.made)
  found : ∀ i a, memo.lookup i = some a → memo'.lookup i = some a
  once : (own.map fun c => c.deferred.id).Nodup
  asked : ∀ c ∈ own, c.deferred.isDeferred = true ∧ w'.sources c.deferred ∧
    memo.lookup c.deferred.id = none ∧ ∃ a, memo'.lookup c.deferred.id = some a
  covers : ∀ ⦃d a⦄, w'.sources d → d.isDeferred = true → memo'.lookup d.id = some a →
    (∃ a', memo.lookup d.id = some a') ∨ ∃ c ∈ own, c.deferred = d

theorem Progress.refl (valid : w.Valid) (keeps : w.Keeps memo) : w.Progress memo w memo [] [] where
  valid := valid
  ext := .refl w
  keeps := keeps
  log := (List.append_nil _).symm
  calls := ⟨[], (List.append_nil _).symm, .refl _⟩
  trees := .refl _
  found _ _ h := h
  once := List.nodup_nil
  asked _ hc := nomatch hc
  covers _ a _ _ hl := .inl ⟨a, hl⟩

theorem Progress.trans {own own' : List LambdaCall} {logs logs' : List Rewriting}
    (h : w.Progress memo w' memo' own logs) (h' : w'.Progress memo' w'' memo'' own' logs') :
    w.Progress memo w'' memo'' (own ++ own') (logs ++ logs') := by
  have shuffle : ((own ++ callsOf logs) ++ (own' ++ callsOf logs')).Perm
      ((own ++ own') ++ callsOf (logs ++ logs')) := by
    have both : callsOf (logs ++ logs') = callsOf logs ++ callsOf logs' := List.flatMap_append
    rw [both, List.append_assoc, List.append_assoc]
    refine .append_left own ?_
    rw [← List.append_assoc, ← List.append_assoc]
    exact .append_right _ List.perm_append_comm
  refine ⟨h'.valid, h.ext.trans h'.ext, h'.keeps, ?_, ?_, ?_, fun i a hl =>
    h'.found i a (h.found i a hl), ?_, fun c hc => ?_, fun d a hd deferred hl => ?_⟩
  · rw [h'.log, h.log, List.append_assoc]
  · obtain ⟨new, eq, perm⟩ := h.calls
    obtain ⟨new', eq', perm'⟩ := h'.calls
    exact ⟨new ++ new', by rw [eq', eq, List.append_assoc], (perm.append perm').trans shuffle⟩
  · rw [List.map_append]
    refine (h.trees.append h'.trees).trans ?_
    rw [← List.map_append]
    exact shuffle.map _
  · rw [List.map_append, List.nodup_append]
    refine ⟨h.once, h'.once, ?_⟩
    rintro i hi j hj rfl
    obtain ⟨c, hc, rfl⟩ := List.mem_map.1 hi
    obtain ⟨c', hc', eq⟩ := List.mem_map.1 hj
    obtain ⟨-, -, -, a, hl⟩ := h.asked c hc
    obtain ⟨-, -, unknown, -⟩ := h'.asked c' hc'
    rw [eq, hl] at unknown
    cases unknown
  · rcases List.mem_append.1 hc with hc | hc
    · obtain ⟨deferred, hs, unknown, a, hl⟩ := h.asked c hc
      exact ⟨deferred, h'.ext.sources.keeps hs, unknown, a, h'.found _ _ hl⟩
    · obtain ⟨deferred, hs, unknown, hl⟩ := h'.asked c hc
      refine ⟨deferred, hs, ?_, hl⟩
      cases before : memo.lookup c.deferred.id with
      | none => rfl
      | some a => rw [h.found _ _ before] at unknown; cases unknown
  · obtain ⟨a', hl'⟩ | ⟨c, hc, rfl⟩ := h'.covers hd deferred hl
    · obtain ⟨y, hy, id⟩ := h.keeps.keys hl'
      obtain rfl := h'.valid.sources.unique (h'.ext.sources.keeps hy) hd id
      obtain known | ⟨c, hc, rfl⟩ := h.covers hy deferred hl'
      · exact .inl known
      · exact .inr ⟨c, List.mem_append_left _ hc, rfl⟩
    · exact .inr ⟨c, List.mem_append_right _ hc, rfl⟩

/-! ## One more record -/

/-- A world whose log goes on with a rewriting. -/
def logged (w : World) (r : Rewriting) : World := { w with log := w.log ++ [r] }

theorem extends_logged (w : World) (r : Rewriting) : w.Extends (w.logged r) :=
  ⟨Nat.le_refl _, .refl _ _, fun _ h => h, fun _ _ => rfl, fun _ h => h,
    fun _ => List.mem_append_left _⟩

theorem Valid.logged (valid : w.Valid) (records : w.Records r) : (w.logged r).Valid := by
  have later {r' : Rewriting} (h : w.Records r') : (w.logged r).Records r' :=
    h.mono valid valid.sources (w.extends_logged r)
  refine ⟨valid.sources, valid.heap, valid.sub, valid.origin, valid.free, fun r' hr' => later ?_⟩
  obtain hr' | hr' := List.mem_append.1 hr'
  · exact valid.log r' hr'
  · exact List.mem_singleton.1 hr' ▸ records

/-- Where nothing was known at first, a tree that was gone over is on true record. -/
theorem Progress.records {t : Node} {own : List LambdaCall} {logs : List Rewriting}
    (h : w.Progress [] w' memo own logs) (ht : w'.sources t)
    (root : memo.lookup t.id = some out)
    (only : ∀ ⦃i a⦄, memo.lookup i = some a → ∃ x, Occurs x t ∧ x.id = i) :
    w'.Records ⟨t, memo, own⟩ := by
  refine ⟨ht, h.keeps, ⟨out, root⟩, h.once, fun d => ⟨?_, ?_⟩⟩
  · rintro ⟨c, hc, rfl⟩
    obtain ⟨deferred, hs, -, a, hl⟩ := h.asked c hc
    obtain ⟨x, hx, id⟩ := only hl
    have same := h.valid.sources.unique (h.valid.sources.occurs ht hx) hs id
    exact ⟨deferred, same ▸ hx⟩
  · rintro ⟨deferred, hd⟩
    obtain ⟨a, hl⟩ := h.keeps.lookup_of_occurs h.valid ht root hd
    obtain ⟨b, before⟩ | asked := h.covers (h.valid.sources.occurs ht hd) deferred hl
    · cases before
    · exact asked

end World

end SqlAlgebra
