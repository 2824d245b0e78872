import SqlAlgebra.Proofs.Deferred.World

/-!
# Resolving deferred expressions

A resolution goes over the statement and over each tree that it makes, once each.  Step by step it
keeps a true record of what became of every node.
-/

namespace SqlAlgebra

open List (Forall₂)
open Node

/-- Whether factories make their inputs of the nodes of a heap and of new ones. -/
def Factories.Within (factories : Factories) (scope : Scope) (K : Heap) : Prop :=
  ∀ f, Build.Grows K (factories f scope) fun K' input => input.Within K'

variable {factories : Factories} {scope : Scope} {K : Heap} {w w' : World} {memo : Memo}
  {n t out : Node} {news : List Node} {next' : Identity}

/-! ## One node -/

theorem tracedStep_of_plain {resolve : Option (Node → StateT Trace Build Node)} {tr : Trace}
    {i : Identity} (plain : n.isDeferred = false) :
    tracedStep factories scope resolve n tr i = .ok ((none, tr), i) := by
  rcases n with ⟨id, kind, type, annotations, diagnostics⟩
  cases kind <;> first | rfl | cases plain

theorem tracedStep_of_deferred {resolve : Option (Node → StateT Trace Build Node)} {tr tr' : Trace}
    {i i' : Identity} {o : Option Node} (deferred : n.isDeferred = true)
    (run : tracedStep factories scope resolve n tr i = .ok ((o, tr'), i')) :
    ∃ lambda role f made diagnostics out i₁, resolve = some f ∧ o = some out ∧
      ((factories lambda scope >>= fun input => coerceNode role input {}) : Build _) i =
          .ok ((made, diagnostics), i₁) ∧
        f made ⟨tr.diagnostics ++ diagnostics, tr.calls ++ [⟨n, made⟩]⟩ i₁ =
          .ok ((out, tr'), i') := by
  have step : ∃ lambda role, n.kind = .deferred lambda role := by
    rcases n with ⟨id, kind, type, annotations, diagnostics⟩
    cases kind <;> first | exact ⟨_, _, rfl⟩ | cases deferred
  obtain ⟨lambda, role, kind⟩ := step
  unfold tracedStep at run
  rw [kind] at run
  cases resolve with
  | none => cases run
  | some f =>
    obtain ⟨input, tr₁, i₁, called, rest₁⟩ := Build.bind_ok_over run
    obtain ⟨input_eq, rfl⟩ := Build.lift_ok called
    obtain ⟨⟨made, diagnostics⟩, tr₂, i₂, coerced, rest₂⟩ := Build.bind_ok_over rest₁
    obtain ⟨made_eq, rfl⟩ := Build.lift_ok coerced
    obtain ⟨_, tr₃, i₃, noted, rest₃⟩ := Build.bind_ok_over rest₂
    cases noted
    rw [map_eq_pure_bind] at rest₃
    obtain ⟨out, tr₄, i₄, resolved, last⟩ := Build.bind_ok_over rest₃
    cases last
    refine ⟨lambda.factory, role, f, made, diagnostics, out, i₂, rfl, rfl, ?_, resolved⟩
    show ((factories lambda.factory scope i).bind fun r => coerceNode role r.1 {} r.2) = _
    rw [input_eq]
    exact made_eq

/-- The world after a node was made for a deferred node. -/
theorem World.Valid.made {made : Node × List Diagnostic} {lambda : Nat} {role : Role}
    (valid : w.Valid) (sound : factories.Within scope K)
    (closed : ∀ ⦃x⦄, K x → ∀ c ∈ x.children, K c)
    (sub : ∀ ⦃x⦄, K x → w.sources x)
    (run : ((factories lambda scope >>= fun input => coerceNode role input {}) : Build _) w.next =
      .ok (made, next')) :
    ∃ w' : World, w'.Valid ∧ w.Extends w' ∧ w'.next = next' ∧ w'.sources made.1 ∧
      w'.log = w.log ∧ w'.calls = w.calls ++ [⟨n, made.1⟩] := by
  have grows : Build.Grows w.sources
      (factories lambda scope >>= fun input => coerceNode role input {})
      fun K' made => K' made.1 :=
    ((sound lambda).frame closed sub fun _ _ _ keeps h n hn => keeps n (h hn)).bind
      fun _ _ _ hinput => grows_coerceNode hinput
  obtain ⟨le, S, ext, hS, hmade⟩ := grows valid.sources run
  let w' : World :=
    { w with
      sources := S, heap := fun x => w.heap x ∨ S x, next := next'
      calls := w.calls ++ [⟨n, made.1⟩] }
  have extends' : w.Extends w' :=
    ⟨le, ext, fun _ => .inl, fun _ _ => rfl, fun _ => List.mem_append_left _, fun _ h => h⟩
  refine ⟨w', ⟨hS, (valid.heap.mono le).union hS valid.sub ext fun _ hx => valid.heap.bounded hx,
    fun _ => .inr, fun x hx => ?_, fun i hi => valid.free (Nat.le_trans le hi),
    fun r hr => (valid.log r hr).mono valid hS extends'⟩, extends', rfl, hmade, rfl, rfl⟩
  exact (ext.fresh hx).elim (valid.origin ·) (valid.free ·)

theorem World.Valid.copied (valid : w.Valid) (n out : Node) (hid : out.id = w.next)
    (hout : ∀ c ∈ out.children, w.heap c) :
    ∃ w' : World, w'.Valid ∧ w.Extends w' ∧ w'.next = w.next + 1 ∧ w'.heap out ∧
      w'.origin out.id = n.id ∧ w'.sources = w.sources ∧ w'.log = w.log ∧ w'.calls = w.calls := by
  let w' : World :=
    { w with
      heap := w.heap.insert out, next := w.next + 1
      origin := fun i => if i = w.next then n.id else w.origin i }
  have sources : w.sources.Valid (w.next + 1) := valid.sources.mono (Nat.le_succ _)
  have origin {i : Identity} (hi : i ≠ w.next) : w'.origin i = w.origin i := if_neg hi
  have extends' : w.Extends w' :=
    ⟨Nat.le_succ _, .refl _ _, fun _ => .inl, fun i hi => origin (Nat.ne_of_lt hi), fun _ h => h,
      fun _ h => h⟩
  refine ⟨w', ⟨sources, valid.heap.insert hid hout, fun _ hx => .inl (valid.sub hx), fun x hx => ?_,
    fun i hi => ?_, fun r hr => (valid.log r hr).mono valid sources extends'⟩, extends', rfl,
    .inr rfl, if_pos hid, rfl, rfl, rfl⟩
  · rw [origin (Nat.ne_of_lt (valid.sources.bounded hx))]
    exact valid.origin hx
  · rw [origin (Nat.ne_of_gt hi)]
    exact valid.free (Nat.le_of_succ_le hi)

theorem World.Progress.plain (valid' : w'.Valid) (ext : w.Extends w')
    (keeps : w'.Keeps ((n.id, out) :: memo)) (hn : w'.sources n) (plain : n.isDeferred = false)
    (unknown : memo.lookup n.id = none) (log : w'.log = w.log) (calls : w'.calls = w.calls) :
    w.Progress memo w' ((n.id, out) :: memo) [] [] where
  valid := valid'
  ext := ext
  keeps := keeps
  log := by rw [log, List.append_nil]
  calls := ⟨[], by rw [calls, List.append_nil], .refl _⟩
  trees := .refl _
  found _ _ := lookup_cons_of_some unknown
  once := List.nodup_nil
  asked _ hc := nomatch hc
  covers d a hd deferred hl := by
    obtain ⟨id, -⟩ | hl := eq_or_of_lookup_cons hl
    · obtain rfl := valid'.sources.unique hd hn id
      rw [plain] at deferred
      cases deferred
    · exact .inl ⟨a, hl⟩

/-- A node is filled with what became of its children. -/
theorem World.Valid.rebuilt (valid : w.Valid) (keeps : w.Keeps memo) (hn : w.sources n)
    (plain : n.isDeferred = false) (unknown : memo.lookup n.id = none)
    (below : Forall₂ (fun c a => memo.lookup c.id = some a) n.children news)
    (run : n.rebuild news w.next = .ok (out, next')) :
    ∃ w' : World, w.Progress memo w' ((n.id, out) :: memo) [] [] ∧ w'.next = next' ∧
      w'.calls = w.calls := by
  have hnews : ∀ c ∈ news, w.heap c := by
    intro c hc
    obtain ⟨i, hi, rfl⟩ := List.mem_iff_getElem.1 hc
    exact keeps.heap ((List.forall₂_iff_get.1 below).2 i (below.length_eq ▸ hi) hi)
  have becomes : ∃ b, n.Becomes w.calls b := by
    have each (c : Node) (hc : c ∈ n.children) : ∃ b, c.Becomes w.calls b := by
      obtain ⟨i, hi, rfl⟩ := List.mem_iff_getElem.1 hc
      exact keeps.becomes (valid.sources.closed hn _ hc)
        ((List.forall₂_iff_get.1 below).2 i hi (below.length_eq ▸ hi))
    obtain ⟨bs, hbs⟩ := exists_forall₂ n.children each
    exact ⟨_, becomes_of_children plain hbs⟩
  have below' : Forall₂ (fun c a => ((n.id, out) :: memo).lookup c.id = some a) n.children news :=
    below.imp fun _ _ hl => lookup_cons_of_some unknown hl
  unfold rebuild withChildren? at run
  by_cases same : sameAll news n.children = true
  · rw [if_pos same] at run
    cases run
    obtain rfl : news = n.children := valid.heap.eq_of_ids hnews
      (fun c hc => valid.sub (valid.sources.closed hn c hc)) (by simpa [sameAll] using same)
    have image : w.Image ((n.id, n) :: memo) n n :=
      .filled plain below' (valid.origin hn) rfl (Kind.refill_children n.kind).symm fun _ => rfl
    have keeps' := keeps.cons valid hn unknown image (valid.sub hn) becomes
    exact ⟨w, .plain valid (.refl w) keeps' hn plain unknown rfl rfl, rfl, rfl⟩
  · rw [if_neg same] at run
    cases run
    have children : (n.kind.refill news).children = news :=
      Kind.children_refill below.length_eq.symm
    obtain ⟨w', valid', ext, next, hout, origin, sources, log, calls⟩ :=
      valid.copied n { n with kind := n.kind.refill news, id := w.next } rfl fun c hc =>
        hnews c (by rwa [← children])
    have hn' : w'.sources n := ext.sources.keeps hn
    have image : w'.Image ((n.id, _) :: memo) n
        { n with kind := n.kind.refill news, id := w.next } :=
      .filled plain below' origin rfl rfl fun eq => by simp [sameAll, eq] at same
    have keeps' := (keeps.mono valid valid'.sources ext).cons valid' hn' unknown image hout
      (calls.symm ▸ becomes)
    exact ⟨w', .plain valid' ext keeps' hn' plain unknown log calls, next, calls⟩

/-! ## One tree -/

/-- What happens while a tree is gone over: the rewritings `logs` take place, of the tree and of
what is made on the way. -/
structure World.Resolution (w : World) (t out : Node) (w' : World) (logs : List Rewriting) :
    Prop where
  valid : w'.Valid
  ext : w.Extends w'
  log : w'.log = w.log ++ logs
  root : ∃ r ∈ w'.log, r.tree = t ∧ r.images.lookup t.id = some out
  calls : ∃ new, w'.calls = w.calls ++ new ∧ new.Perm (World.callsOf logs)
  trees : (logs.map Rewriting.tree).Perm (t :: (World.callsOf logs).map LambdaCall.made)

/-- Whether going over the trees of a world keeps a true record. -/
def Resolves (K : Heap) (resolve : Node → StateT Trace Build Node) : Prop :=
  ∀ ⦃w : World⦄ ⦃t out : Node⦄ ⦃tr tr' : Trace⦄ ⦃next' : Identity⦄, w.Valid →
    (∀ ⦃x⦄, K x → w.sources x) → w.sources t → tr.calls = w.calls →
      resolve t tr w.next = .ok ((out, tr'), next') →
        ∃ w' logs, w.Resolution t out w' logs ∧ w'.next = next' ∧ w'.calls = tr'.calls

/-- A deferred node becomes what the tree made for it becomes. -/
theorem World.Resolution.asked {w₁ : World} {made : Node} {logs : List Rewriting} (valid : w.Valid)
    (keeps : w.Keeps memo) (hn : w.sources n) (deferred : n.isDeferred = true)
    (unknown : memo.lookup n.id = none) (ext : w.Extends w₁) (log : w₁.log = w.log)
    (calls : w₁.calls = w.calls ++ [⟨n, made⟩]) (h : w₁.Resolution made out w' logs) :
    w.Progress memo w' ((n.id, out) :: memo) [⟨n, made⟩] logs := by
  have ext' := ext.trans h.ext
  have hn' : w'.sources n := ext'.sources.keeps hn
  obtain ⟨r, hr, rfl, root⟩ := h.root
  have records := h.valid.log r hr
  have call : ⟨n, r.tree⟩ ∈ w'.calls :=
    h.ext.calls _ (by rw [calls]; exact List.mem_append_right _ List.mem_cons_self)
  have becomes : ∃ b, n.Becomes w'.calls b := by
    obtain ⟨b, hb⟩ := records.keeps.becomes records.source root
    exact ⟨b, .made deferred call hb⟩
  refine ⟨h.valid, ext', ?_, by rw [h.log, log], ?_, ?_, fun _ _ => lookup_cons_of_some unknown,
    List.nodup_singleton _, fun c hc => ?_, fun d a hd _ hl => ?_⟩
  · exact (keeps.mono valid h.valid.sources ext').cons h.valid hn' unknown
      (.made deferred call hr root) (records.keeps.heap root) becomes
  · obtain ⟨new, eq, perm⟩ := h.calls
    exact ⟨⟨n, r.tree⟩ :: new, by rw [eq, calls, List.append_assoc]; rfl, perm.cons _⟩
  · exact h.trees
  · obtain rfl := List.mem_singleton.1 hc
    exact ⟨deferred, hn', unknown, out, by rw [List.lookup_cons_self]⟩
  · obtain ⟨id, -⟩ | hl := eq_or_of_lookup_cons hl
    · exact .inr ⟨_, List.mem_cons_self, (h.valid.sources.unique hd hn' id).symm⟩
    · exact .inl ⟨a, hl⟩

/-- Going over some nodes keeps a true record, if going over what is made for them does. -/
theorem Node.Transforms.progress {resolve : Option (Node → StateT Trace Build Node)}
    {ns outs : List Node} {g g' : Stage Trace}
    (h : Transforms (tracedStep factories scope resolve)
      (fun n children => liftM (n.rebuild children)) ns g outs g')
    (sound : factories.Within scope K) (closed : ∀ ⦃x⦄, K x → ∀ c ∈ x.children, K c)
    (resolves : ∀ f ∈ resolve, Resolves K f) (valid : w.Valid) (sub : ∀ ⦃x⦄, K x → w.sources x)
    (hns : ∀ n ∈ ns, w.sources n) (keeps : w.Keeps g.memo) (next : w.next = g.next)
    (calls : w.calls = g.state.calls) :
    ∃ w' own logs, w.Progress g.memo w' g'.memo own logs ∧ w'.next = g'.next ∧
      w'.calls = g'.state.calls := by
  induction h generalizing w with
  | nil => exact ⟨w, [], [], .refl valid keeps, next, calls⟩
  | known _ _ ih =>
    exact ih valid sub (fun n hn => hns n (List.mem_cons_of_mem _ hn)) keeps next calls
  | @replaced n out ns outs memo tr tr₁ i i₁ g' unknown offered _ ih =>
    have hn : w.sources n := hns n List.mem_cons_self
    cases deferred : n.isDeferred with
    | false =>
      rw [tracedStep_of_plain deferred] at offered
      cases offered
    | true =>
      obtain ⟨lambda, role, f, made, diagnostics, _, i₂, rfl, eq, called, resolved⟩ :=
        tracedStep_of_deferred deferred offered
      obtain rfl := Option.some.inj eq
      obtain rfl : w.next = i := next
      obtain ⟨w₁, valid₁, ext₁, rfl, hmade, log₁, calls₁⟩ :=
        valid.made (n := n) sound closed sub called
      have calls₁' : tr.calls ++ [⟨n, made⟩] = w₁.calls := by rw [calls₁, calls]
      obtain ⟨w₂, logs, resolution, next₂, calls₂⟩ := resolves f rfl valid₁
        (fun x hx => ext₁.sources.keeps (sub hx)) hmade calls₁' resolved
      have first := resolution.asked valid keeps hn deferred unknown ext₁ log₁ calls₁
      obtain ⟨w₃, own, logs', others, next₃, calls₃⟩ := ih resolution.valid
        (fun x hx => first.ext.sources.keeps (sub hx))
        (fun n hn => first.ext.sources.keeps (hns n (List.mem_cons_of_mem _ hn))) first.keeps next₂
        calls₂
      exact ⟨w₃, _, _, first.trans others, next₃, calls₃⟩
  | @rebuilt n out ns news outs memo memo₂ tr tr₁ tr₂ tr₃ i i₁ i₂ i₃ g' unknown offered below
      finished _ ihb ih =>
    have hn : w.sources n := hns n List.mem_cons_self
    cases plain : n.isDeferred with
    | true =>
      obtain ⟨_, _, _, _, _, _, _, _, eq, -⟩ := tracedStep_of_deferred plain offered
      cases eq
    | false =>
      rw [tracedStep_of_plain plain] at offered
      cases offered
      obtain ⟨w₁, own, logs, first, next₁, calls₁⟩ :=
        ihb valid sub (valid.sources.closed hn) keeps next calls
      have hn₁ : w₁.sources n := first.ext.sources.keeps hn
      obtain ⟨rebuilt, rfl⟩ := Build.lift_ok finished
      obtain rfl : w₁.next = i₂ := next₁
      have unknown₂ : memo₂.lookup n.id = none :=
        below.unknown_of_children valid.sources hn unknown
      obtain ⟨w₂, second, next₂, calls₂⟩ := first.valid.rebuilt first.keeps hn₁ plain unknown₂
        below.images rebuilt
      have both := first.trans second
      obtain ⟨w₃, own', logs', others, next₃, calls₃⟩ := ih second.valid
        (fun x hx => both.ext.sources.keeps (sub hx))
        (fun n hn => both.ext.sources.keeps (hns n (List.mem_cons_of_mem _ hn))) second.keeps next₂
        (calls₂.trans calls₁)
      exact ⟨w₃, _, _, both.trans others, next₃, calls₃⟩

theorem resolves_substitute {resolve : Option (Node → StateT Trace Build Node)}
    (sound : factories.Within scope K) (closed : ∀ ⦃x⦄, K x → ∀ c ∈ x.children, K c)
    (resolves : ∀ f ∈ resolve, Resolves K f) :
    Resolves K (substitute (tracedStep factories scope resolve)) := by
  intro w t out tr tr' next' valid sub ht calls run
  obtain ⟨⟨out, memo⟩, tr₁, i₁, run, last⟩ := Build.bind_ok_over run
  cases last
  have transforms := transforms_of_transform run
  have nothing : w.Keeps [] :=
    ⟨(fun _ _ hl => nomatch hl), (fun _ _ _ hl => nomatch hl), (fun _ _ hl => nomatch hl),
      fun _ _ _ hl => nomatch hl⟩
  obtain ⟨w', own, logs, progress, rfl, calls'⟩ :=
    transforms.progress sound closed resolves valid sub
      (fun n hn => List.mem_singleton.1 hn ▸ ht) nothing rfl calls.symm
  have root : memo.lookup t.id = some out := (List.forall₂_cons.1 transforms.images).1
  let r : Rewriting := ⟨t, memo, own⟩
  have records : w'.Records r := by
    refine progress.records (progress.ext.sources.keeps ht) root fun i a hl => ?_
    obtain ⟨b, before⟩ | ⟨n, hn, x, hx, id⟩ := transforms.keys hl
    · cases before
    · exact ⟨x, List.mem_singleton.1 hn ▸ hx, id⟩
  have own' : (own ++ World.callsOf logs).Perm (World.callsOf (logs ++ [r])) := by
    have last : World.callsOf (logs ++ [r]) = World.callsOf logs ++ own := by
      rw [World.callsOf, List.flatMap_append, List.flatMap_singleton]
    rw [last]
    exact List.perm_append_comm
  refine ⟨w'.logged r, logs ++ [r], ⟨progress.valid.logged records,
    progress.ext.trans (w'.extends_logged r), ?_, ⟨r, ?_, rfl, root⟩, ?_, ?_⟩, rfl, calls'⟩
  · show w'.log ++ [r] = w.log ++ (logs ++ [r])
    rw [progress.log, List.append_assoc]
  · exact List.mem_append_right _ List.mem_cons_self
  · obtain ⟨new, eq, perm⟩ := progress.calls
    exact ⟨new, eq, perm.trans own'⟩
  · rw [List.map_append]
    refine List.perm_append_comm.trans (.cons t ?_)
    exact progress.trees.trans (own'.map _)

theorem resolves_tracedWithin (sound : factories.Within scope K)
    (closed : ∀ ⦃x⦄, K x → ∀ c ∈ x.children, K c) (steps : Nat) :
    Resolves K (tracedWithin factories scope steps) := by
  induction steps with
  | zero => exact resolves_substitute sound closed fun f hf => nomatch hf
  | succ steps ih =>
    exact resolves_substitute sound closed fun f hf => Option.some.inj hf ▸ ih

/-! ## The whole resolution -/

/-- The world before anything is resolved. -/
def World.start (K : Heap) (next : Identity) : World := ⟨K, K, fun i => i, next, [], []⟩

theorem World.valid_start {next : Identity} (h : K.Valid next) : (World.start K next).Valid :=
  ⟨h, h, fun _ hx => hx, fun _ _ => rfl, fun _ _ => rfl, fun _ hr => nomatch hr⟩

/-- A tree whose nodes are all of a valid heap is coherent once it is resolved. -/
theorem isCoherent_of_resolved {diagnostics : List Diagnostic} {next : Identity}
    (heap : K.Valid next) (root : K n) (sound : factories.Within scope K)
    (h : n.resolved factories scope next = .ok ((out, diagnostics), next')) : out.IsCoherent := by
  rw [resolved_eq_traced] at h
  unfold traced at h
  split at h
  · cases run : tracedWithin factories scope maxSteps n ⟨[], []⟩ next with
    | error e =>
      rw [show (tracedWithin factories scope maxSteps n).run ⟨[], []⟩ next = .error e from run] at h
      cases h
    | ok r =>
      rcases r with ⟨⟨out', trace⟩, next''⟩
      rw [show (tracedWithin factories scope maxSteps n).run ⟨[], []⟩ next = _ from run] at h
      cases h
      obtain ⟨w, logs, resolution, -⟩ := resolves_tracedWithin sound heap.closed maxSteps
        (World.valid_start heap) (fun _ hx => hx) root rfl run
      obtain ⟨r, hr, -, hl⟩ := resolution.root
      exact resolution.valid.heap.isCoherent ((resolution.valid.log r hr).keeps.heap hl)
  · cases h
    exact heap.isCoherent root

end SqlAlgebra
