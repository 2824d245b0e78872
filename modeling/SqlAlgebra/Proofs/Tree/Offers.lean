import SqlAlgebra.Proofs.Layout.Correlation
import SqlAlgebra.Proofs.Tree.Outcome
import SqlAlgebra.Proofs.Tree.Rewriting

/-!
# What is offered on a walk

Going over a tree offers its nodes one after another.  The nodes that are offered are those that a
walk from the root meets for the first time, where the walk takes each node before its children, the
children in the order of their places, and leaves out what is below a node that is replaced.  The
failure of an offer ends the walk there.

`Visits` is a run with the offers that are made in it, and `Breaks` is a run up to the offer that
fails.  Both give the offers in the order of the walk.
-/

namespace SqlAlgebra

namespace Build

variable {α β σ : Type}

theorem bind_error_over {x : StateT σ Build α} {f : α → StateT σ Build β} {s : σ} {i : Identity}
    {e : Error} (run : (x >>= f) s i = .error e) :
    x s i = .error e ∨ ∃ a s₁ i₁, x s i = .ok ((a, s₁), i₁) ∧ f a s₁ i₁ = .error e := by
  obtain first | ⟨p, i₁, first, rest⟩ := bind_error (x := x s) (f := fun p => f p.1 p.2) run
  · exact .inl first
  · exact .inr ⟨p.1, p.2, i₁, first, rest⟩

theorem lift_error {x : Build α} {s : σ} {e : Error} {i : Identity}
    (run : (liftM x : StateT σ Build α) s i = .error e) : x i = .error e := by
  obtain failed | ⟨a, i₁, -, last⟩ := bind_error (x := x) (f := fun a => pure (a, s)) run
  · exact failed
  · cases last

end Build

namespace Node

/-! ## The places of a tree in order -/

/-- The places of a tree, each before those below it and these in their order, without what is below
a node at which the walk stops. -/
def walk (stops : Node → Bool) (n : Node) : List Node :=
  n :: if stops n then [] else n.children.attach.flatMap fun c => walk stops c.1
termination_by sizeOf n
decreasing_by exact sizeOf_child c.2

variable {stops : Node → Bool} {x n : Node} {seen seen' : List Identity} {ns ms : List Node}

theorem walk_eq_of_stops (h : stops n = true) : n.walk stops = [n] := by
  rw [walk, if_pos h]

theorem walk_eq_of_goes (h : stops n = false) :
    n.walk stops = n :: n.children.flatMap (walk stops) := by
  have goes : ¬ stops n = true := by simp [h]
  rw [walk, if_neg goes, List.flatMap_def, List.flatMap_def, List.attach_map_val]

theorem mem_walk_iff :
    x ∈ n.walk stops ↔ x.Met (fun y => stops y = true) n := by
  constructor
  · intro h
    induction n using Node.induct with
    | step n ih =>
      by_cases stop : stops n = true
      · rw [walk_eq_of_stops stop, List.mem_singleton] at h
        exact h ▸ .root
      · rw [walk_eq_of_goes (by simpa using stop), List.mem_cons] at h
        obtain rfl | h := h
        · exact .root
        · obtain ⟨c, hc, h⟩ := List.mem_flatMap.1 h
          exact .deeper stop hc (ih c hc h)
  · intro h
    induction h with
    | root => rw [walk]; exact List.mem_cons_self
    | deeper goes hc _ ih =>
      rw [walk_eq_of_goes (by simpa using goes)]
      exact List.mem_cons_of_mem _ (List.mem_flatMap.2 ⟨_, hc, ih⟩)

theorem distinctOutside_congr (h : ∀ n ∈ ns, n.id ∈ seen ↔ n.id ∈ seen') :
    distinctOutside seen ns = distinctOutside seen' ns := by
  induction ns generalizing seen seen' with
  | nil => rfl
  | cons n rest ih =>
    have head := h n List.mem_cons_self
    have rest_iff : ∀ m ∈ rest, m.id ∈ seen ↔ m.id ∈ seen' := fun m hm =>
      h m (List.mem_cons_of_mem _ hm)
    by_cases hn : n.id ∈ seen
    · have hn' : n.id ∈ seen' := head.1 hn
      simp only [distinctOutside, List.contains_iff_mem, if_pos hn, if_pos hn']
      exact ih rest_iff
    · have hn' : n.id ∉ seen' := fun h => hn (head.2 h)
      simp only [distinctOutside, List.contains_iff_mem, if_neg hn, if_neg hn']
      apply congrArg (n :: ·)
      apply ih
      intro m hm
      rw [List.mem_cons, List.mem_cons, rest_iff m hm]

theorem distinctOutside_cons_of_notMem (h : n.id ∉ seen) :
    distinctOutside seen (n :: ns) = n :: distinctOutside (n.id :: seen) ns := by
  simp only [distinctOutside, List.contains_iff_mem, if_neg h]

theorem distinctOutside_eq_nil (h : ∀ n ∈ ns, n.id ∈ seen) : distinctOutside seen ns = [] := by
  induction ns with
  | nil => rfl
  | cons n rest ih =>
    simp only [distinctOutside, List.contains_iff_mem, if_pos (h n List.mem_cons_self)]
    exact ih fun m hm => h m (List.mem_cons_of_mem _ hm)

theorem distinctOutside_append :
    distinctOutside seen (ns ++ ms) =
      distinctOutside seen ns ++ distinctOutside ((distinctOutside seen ns).map id ++ seen) ms := by
  induction ns generalizing seen with
  | nil => rfl
  | cons n rest ih =>
    rw [List.cons_append]
    by_cases hn : n.id ∈ seen
    · simp only [distinctOutside, List.contains_iff_mem, if_pos hn]
      exact ih
    · rw [distinctOutside_cons_of_notMem hn, distinctOutside_cons_of_notMem hn, ih,
        List.cons_append]
      refine congrArg (fun tail => n :: (_ ++ tail)) (distinctOutside_congr fun m _ => ?_)
      simp only [List.mem_append, List.mem_cons, List.map_cons]
      grind

/-! ## Runs with their offers -/

/-- A node that was offered, and what was given in its place if anything was. -/
abbrev Offer := Node × Option Node

/-- The identities of the nodes that were offered. -/
def offeredIds (log : List Offer) : List Identity := log.map fun call => call.1.id

/-- Finishes a node as itself, or as a copy of what it is changed to. -/
def finishWith (change : Node → List Node → Option Node) (n : Node) (news : List Node) : Build Node :=
  match change n news with
  | none => pure n
  | some changed => Build.copy changed

section Visits

variable {σ : Type}

/-- Whether it is settled what becomes of a node with this identity. -/
def Stage.Knows (g : Stage σ) (i : Identity) : Prop := ∃ a, g.memo.lookup i = some a

variable (offer : Node → StateT σ Build (Option Node)) (change : Node → List Node → Option Node)

/-- What becomes of some nodes, one after another, with the offers that are made. -/
inductive Visits : List Node → Stage σ → List Offer → List Node → Stage σ → Prop
  | nil {g : Stage σ} : Visits [] g [] [] g
  | known {n done : Node} {ns outs : List Node} {g g' : Stage σ} {log : List Offer} :
      g.memo.lookup n.id = some done → Visits ns g log outs g' →
        Visits (n :: ns) g log (done :: outs) g'
  | replaced {n out : Node} {ns outs : List Node} {memo : Memo} {s s₁ : σ} {i i₁ : Identity}
      {g' : Stage σ} {log : List Offer} :
      memo.lookup n.id = none → offer n s i = .ok ((some out, s₁), i₁) →
        Visits ns ((⟨memo, s₁, i₁⟩ : Stage σ).settled n out) log outs g' →
          Visits (n :: ns) ⟨memo, s, i⟩ ((n, some out) :: log) (out :: outs) g'
  | finished {n out : Node} {ns news outs : List Node} {memo memo₂ : Memo} {s s₁ s₂ : σ}
      {i i₁ i₂ i₃ : Identity} {g' : Stage σ} {below log : List Offer} :
      memo.lookup n.id = none → offer n s i = .ok ((none, s₁), i₁) →
        Visits n.children ⟨memo, s₁, i₁⟩ below news ⟨memo₂, s₂, i₂⟩ →
          finishWith change n news i₂ = .ok (out, i₃) →
            Visits ns ((⟨memo₂, s₂, i₃⟩ : Stage σ).settled n out) log outs g' →
              Visits (n :: ns) ⟨memo, s, i⟩ ((n, none) :: (below ++ log)) (out :: outs) g'

/-- The offers that are made up to one that fails, which is for `x` in a state and with an identity
that is free next. -/
inductive Breaks (x : Node) (s' : σ) (i' : Identity) : List Node → Stage σ → List Offer → Prop
  | here {ns : List Node} {memo : Memo} :
      memo.lookup x.id = none → Breaks x s' i' (x :: ns) ⟨memo, s', i'⟩ []
  | later {n out : Node} {ns : List Node} {g g₁ : Stage σ} {log log' : List Offer} :
      Visits offer change [n] g log [out] g₁ → Breaks x s' i' ns g₁ log' →
        Breaks x s' i' (n :: ns) g (log ++ log')
  | inside {n : Node} {ns : List Node} {memo : Memo} {s s₁ : σ} {i i₁ : Identity}
      {log : List Offer} :
      memo.lookup n.id = none → offer n s i = .ok ((none, s₁), i₁) →
        Breaks x s' i' n.children ⟨memo, s₁, i₁⟩ log →
          Breaks x s' i' (n :: ns) ⟨memo, s, i⟩ ((n, none) :: log)

/-- The calls that are made, each with the state and the free identity that the one before left.
Between two calls nodes may be built. -/
inductive Calls : List Offer → σ → Identity → σ → Identity → Prop
  | nil {s : σ} {i : Identity} : Calls [] s i s i
  | built {log : List Offer} {s s' : σ} {i i' : Identity} :
      Calls log s (i + 1) s' i' → Calls log s i s' i'
  | made {n : Node} {answer : Option Node} {log : List Offer} {s s₁ s' : σ} {i i₁ i' : Identity} :
      offer n s i = .ok ((answer, s₁), i₁) → Calls log s₁ i₁ s' i' →
        Calls ((n, answer) :: log) s i s' i'

end Visits

variable {σ : Type} {offer : Node → StateT σ Build (Option Node)}
  {change : Node → List Node → Option Node} {outs : List Node} {out : Node}
  {g g' : Stage σ} {log log' : List Offer} {s s' s'' : σ} {i i' i'' : Identity} {call : Offer}

theorem Stage.knows_settled_iff : (g.settled n out).Knows i ↔ i = n.id ∨ g.Knows i := by
  unfold Knows settled
  rw [List.lookup_cons]
  by_cases same : i = n.id
  · simp [same]
  · rw [beq_eq_false_iff_ne.2 same]
    simp [same]

theorem Stage.not_knows_iff : ¬ g.Knows i ↔ g.memo.lookup i = none := by
  unfold Knows
  cases g.memo.lookup i with
  | none => simp
  | some a => simp

theorem not_knows_start : ¬ (⟨[], s, i'⟩ : Stage σ).Knows i := by
  rintro ⟨a, hl⟩
  cases hl

theorem finishWith_cases (run : finishWith change n ms i = .ok (out, i')) :
    change n ms = none ∧ out = n ∧ i' = i ∨
      ∃ m, change n ms = some m ∧ out = { m with id := i } ∧ i' = i + 1 := by
  unfold finishWith at run
  cases changed : change n ms with
  | none =>
    rw [changed] at run
    cases run
    exact .inl ⟨rfl, rfl, rfl⟩
  | some m =>
    rw [changed] at run
    cases run
    exact .inr ⟨m, rfl, rfl, rfl⟩

theorem finishWith_ne_error {e : Error} : finishWith change n ms i ≠ .error e := by
  unfold finishWith
  cases change n ms <;> exact nofun

/-- A run with its offers goes through the cases of `transform`. -/
theorem Visits.transforms (h : Visits offer change ns g log outs g') :
    Transforms offer (fun n news => liftM (finishWith change n news)) ns g outs g' := by
  induction h with
  | nil => exact .nil
  | known found _ ih => exact .known found ih
  | replaced unknown offered _ ih => exact .replaced unknown offered ih
  | finished unknown offered _ finished _ ihb ih =>
    exact .rebuilt unknown offered ihb (Build.lift_run finished) ih

theorem Transforms.visits
    (h : Transforms offer (fun n news => liftM (finishWith change n news)) ns g outs g') :
    ∃ log, Visits offer change ns g log outs g' := by
  induction h with
  | nil => exact ⟨[], .nil⟩
  | known found _ ih =>
    obtain ⟨log, visits⟩ := ih
    exact ⟨log, .known found visits⟩
  | replaced unknown offered _ ih =>
    obtain ⟨log, visits⟩ := ih
    exact ⟨_, .replaced unknown offered visits⟩
  | rebuilt unknown offered _ finished _ ihb ih =>
    obtain ⟨below, visitsBelow⟩ := ihb
    obtain ⟨log, visits⟩ := ih
    obtain ⟨settled, rfl⟩ := Build.lift_ok finished
    exact ⟨_, .finished unknown offered visitsBelow settled visits⟩

/-- A run of `transform` that fails does so at an offer. -/
theorem breaks_of_transform {memo : Memo} {e : Error}
    (run : transform offer (fun n news => liftM (finishWith change n news)) n memo s i = .error e) :
    ∃ log x s' i', (∀ ns, Breaks offer change x s' i' (n :: ns) ⟨memo, s, i⟩ log) ∧
      offer x s' i' = .error e := by
  induction n using Node.induct generalizing memo s i with
  | step n ih =>
    have each (l : List { c // c ∈ n.children }) {before : List Node} {memo : Memo} {s : σ}
        {i : Identity}
        (run : (l.foldlM (fun (done : List Node × Memo) child => do
          let new ← transform offer (fun n news => liftM (finishWith change n news)) child.1 done.2
          pure (done.1 ++ [new.1], new.2)) (before, memo) : StateT σ Build (List Node × Memo)) s i =
            .error e) :
        ∃ log x s' i', Breaks offer change x s' i' (l.map Subtype.val) ⟨memo, s, i⟩ log ∧
          offer x s' i' = .error e := by
      induction l generalizing before memo s i with
      | nil => cases run
      | cons child l ihl =>
        rw [List.foldlM_cons] at run
        obtain failed | ⟨⟨done₁, memo₁⟩, s₁, i₁, first, rest⟩ := Build.bind_error_over run
        · obtain failed | ⟨_, _, _, _, last⟩ := Build.bind_error_over failed
          · obtain ⟨log, x, s', i', breaks, fails⟩ := ih child.1 child.2 failed
            exact ⟨log, x, s', i', breaks _, fails⟩
          · cases last
        · obtain ⟨⟨new, memo₁⟩, s₁, i₁, first, last⟩ := Build.bind_ok_over first
          cases last
          obtain ⟨log, visits⟩ := (transforms_of_transform first).visits
          obtain ⟨log', x, s', i', breaks, fails⟩ := ihl rest
          exact ⟨log ++ log', x, s', i', .later visits breaks, fails⟩
    rw [transform] at run
    cases known : memo.lookup n.id with
    | some done =>
      rw [known] at run
      cases run
    | none =>
      rw [known] at run
      obtain failed | ⟨offered, s₁, i₁, first, rest⟩ := Build.bind_error_over run
      · exact ⟨[], n, s, i, fun _ => .here known, failed⟩
      · cases offered with
        | some replacement => cases rest
        | none =>
          obtain failed | ⟨⟨news, memo₂⟩, s₂, i₂, -, rest⟩ := Build.bind_error_over rest
          · obtain ⟨log, x, s', i', breaks, fails⟩ := each _ failed
            rw [List.attach_map_subtype_val] at breaks
            exact ⟨_, x, s', i', fun _ => .inside known first breaks, fails⟩
          · obtain failed | ⟨out, s₃, i₃, -, last⟩ := Build.bind_error_over rest
            · exact absurd (Build.lift_error failed) finishWith_ne_error
            · cases last

/-! ## The calls -/

theorem Calls.append (h : Calls offer log s i s' i') (h' : Calls offer log' s' i' s'' i'') :
    Calls offer (log ++ log') s i s'' i'' := by
  induction h with
  | nil => exact h'
  | built _ ih => exact .built (ih h')
  | made call _ ih => exact .made call (ih h')

/-- Every answer that is told was given in some state. -/
theorem Calls.answered {o : Option Node} (h : Calls offer log s i s' i') (hx : (x, o) ∈ log) :
    ∃ s₀ i₀ s₁ i₁, offer x s₀ i₀ = .ok ((o, s₁), i₁) := by
  induction h with
  | nil => cases hx
  | built _ ih => exact ih hx
  | made call _ ih =>
    obtain same | hx := List.mem_cons.1 hx
    · cases same
      exact ⟨_, _, _, _, call⟩
    · exact ih hx

theorem calls_finishWith (run : finishWith change n ms i = .ok (out, i')) :
    Calls offer [] s i s i' := by
  obtain ⟨-, -, rfl⟩ | ⟨m, -, -, rfl⟩ := finishWith_cases run
  · exact .nil
  · exact .built .nil

theorem Visits.calls (h : Visits offer change ns g log outs g') :
    Calls offer log g.state g.next g'.state g'.next := by
  induction h with
  | nil => exact .nil
  | known _ _ ih => exact ih
  | replaced _ offered _ ih => exact .made offered ih
  | finished _ offered _ finished _ ihb ih =>
    exact .made offered (ihb.append ((calls_finishWith finished).append ih))

theorem Breaks.calls (h : Breaks offer change x s' i' ns g log) :
    Calls offer log g.state g.next s' i' := by
  induction h with
  | here => exact .nil
  | later visits _ ih => exact visits.calls.append ih
  | inside _ offered _ ih => exact .made offered ih

/-! ## Each node once -/

theorem Visits.occurs (h : Visits offer change ns g log outs g') (hc : call ∈ log) :
    ∃ n ∈ ns, Occurs call.1 n := by
  induction h with
  | nil => cases hc
  | known _ _ ih =>
    obtain ⟨n, hn, occurs⟩ := ih hc
    exact ⟨n, List.mem_cons_of_mem _ hn, occurs⟩
  | replaced _ _ _ ih =>
    obtain rfl | hc := List.mem_cons.1 hc
    · exact ⟨_, List.mem_cons_self, .root⟩
    · obtain ⟨n, hn, occurs⟩ := ih hc
      exact ⟨n, List.mem_cons_of_mem _ hn, occurs⟩
  | finished _ _ _ _ _ ihb ih =>
    obtain rfl | hc := List.mem_cons.1 hc
    · exact ⟨_, List.mem_cons_self, .root⟩
    · obtain hc | hc := List.mem_append.1 hc
      · obtain ⟨c, hc, occurs⟩ := ihb hc
        exact ⟨_, List.mem_cons_self, .deeper hc occurs⟩
      · obtain ⟨n, hn, occurs⟩ := ih hc
        exact ⟨n, List.mem_cons_of_mem _ hn, occurs⟩

/-- What is known after a run was known before or is offered in it. -/
theorem Visits.knows_iff (h : Visits offer change ns g log outs g') :
    g'.Knows i ↔ i ∈ offeredIds log ∨ g.Knows i := by
  induction h with
  | nil => simp [offeredIds]
  | known _ _ ih => exact ih
  | @replaced n _ _ _ memo _ s₁ _ i₁ _ _ _ _ _ ih =>
    rw [ih, Stage.knows_settled_iff]
    show _ ∨ _ ∨ Stage.Knows ⟨memo, _, _⟩ i ↔ _
    simp only [offeredIds, List.map_cons, List.mem_cons, Stage.Knows]
    grind
  | finished _ _ _ _ _ ihb ih =>
    rw [ih, Stage.knows_settled_iff]
    have ihb := ihb
    simp only [Stage.Knows, offeredIds, List.map_cons, List.map_append, List.mem_cons,
      List.mem_append] at ihb ⊢
    rw [ihb]
    grind

/-- Nothing is offered that is known. -/
theorem Visits.not_knows (h : Visits offer change ns g log outs g') (hi : i ∈ offeredIds log) :
    ¬ g.Knows i := by
  induction h with
  | nil => cases hi
  | known _ _ ih => exact ih hi
  | replaced unknown _ _ ih =>
    obtain rfl | hi := List.mem_cons.1 hi
    · exact Stage.not_knows_iff.2 unknown
    · intro known
      exact ih hi (Stage.knows_settled_iff.2 (.inr known))
  | finished unknown _ below _ _ ihb ih =>
    simp only [offeredIds, List.map_cons, List.map_append, List.mem_cons, List.mem_append] at hi
    obtain rfl | hi | hi := hi
    · exact Stage.not_knows_iff.2 unknown
    · exact ihb hi
    · intro known
      exact ih hi (Stage.knows_settled_iff.2 (.inr (below.knows_iff.2 (.inr known))))

/-- A node is not among those that are offered below it. -/
theorem id_notMem_of_occurs {K : Heap} (valid : K.Valid i) (hn : K n)
    (h : ∀ call ∈ log, ∃ c ∈ n.children, Occurs call.1 c) : n.id ∉ offeredIds log := by
  intro mem
  obtain ⟨call, hcall, same⟩ := List.mem_map.1 mem
  obtain ⟨c, hc, occurs⟩ := h call hcall
  have itself : call.1 = n := valid.unique (valid.occurs (valid.closed hn c hc) occurs) hn same
  have small : sizeOf call.1 ≤ sizeOf c := sizeOf_occurs occurs
  have smaller : sizeOf c < sizeOf n := sizeOf_child hc
  rw [itself] at small
  omega

theorem Visits.nodup {K : Heap} (h : Visits offer change ns g log outs g') (valid : K.Valid i)
    (hns : ∀ n ∈ ns, K n) : (offeredIds log).Nodup := by
  induction h with
  | nil => exact List.nodup_nil
  | known _ _ ih => exact ih fun n hn => hns n (List.mem_cons_of_mem _ hn)
  | replaced _ _ visits ih =>
    refine List.nodup_cons.2 ⟨fun mem => ?_, ih fun n hn => hns n (List.mem_cons_of_mem _ hn)⟩
    exact visits.not_knows mem (Stage.knows_settled_iff.2 (.inl rfl))
  | @finished n _ _ _ _ _ _ _ _ _ _ _ _ _ _ below log _ _ visitsBelow _ visits ihb ih =>
    have hn : K n := hns n List.mem_cons_self
    have fresh : ∀ j ∈ offeredIds log, ¬ (j = n.id ∨ j ∈ offeredIds below) := by
      intro j hj seen
      apply visits.not_knows hj
      rw [Stage.knows_settled_iff]
      exact seen.imp_right fun mem => visitsBelow.knows_iff.2 (.inl mem)
    have outside : n.id ∉ offeredIds below :=
      id_notMem_of_occurs valid hn fun call hcall => visitsBelow.occurs hcall
    have nodupBelow := ihb (valid.closed hn)
    have nodup := ih fun n hn => hns n (List.mem_cons_of_mem _ hn)
    show (n.id :: offeredIds (below ++ log)).Nodup
    rw [offeredIds, List.map_append, List.nodup_cons, List.nodup_append, List.mem_append]
    refine ⟨fun mem => ?_, nodupBelow, nodup, fun a ha b hb same => ?_⟩
    · exact mem.elim outside fun mem => fresh _ mem (.inl rfl)
    · exact fresh b hb (.inr (same ▸ ha))

theorem Breaks.occurs (h : Breaks offer change x s' i' ns g log) (hc : call ∈ log) :
    ∃ n ∈ ns, Occurs call.1 n := by
  induction h with
  | here => cases hc
  | later visits _ ih =>
    obtain hc | hc := List.mem_append.1 hc
    · obtain ⟨n, hn, occurs⟩ := visits.occurs hc
      exact ⟨n, List.mem_cons.2 (.inl (List.mem_singleton.1 hn)), occurs⟩
    · obtain ⟨n, hn, occurs⟩ := ih hc
      exact ⟨n, List.mem_cons_of_mem _ hn, occurs⟩
  | inside _ _ _ ih =>
    obtain rfl | hc := List.mem_cons.1 hc
    · exact ⟨_, List.mem_cons_self, .root⟩
    · obtain ⟨c, hc, occurs⟩ := ih hc
      exact ⟨_, List.mem_cons_self, .deeper hc occurs⟩

theorem Breaks.not_knows (h : Breaks offer change x s' i' ns g log) (hi : i ∈ offeredIds log) :
    ¬ g.Knows i := by
  induction h with
  | here => cases hi
  | later visits _ ih =>
    rw [offeredIds, List.map_append, List.mem_append] at hi
    obtain hi | hi := hi
    · exact visits.not_knows hi
    · intro known
      exact ih hi (visits.knows_iff.2 (.inr known))
  | inside unknown _ _ ih =>
    obtain rfl | hi := List.mem_cons.1 hi
    · exact Stage.not_knows_iff.2 unknown
    · exact ih hi

theorem Breaks.nodup {K : Heap} {free : Identity} (h : Breaks offer change x s' i' ns g log)
    (valid : K.Valid free) (hns : ∀ n ∈ ns, K n) : (offeredIds log).Nodup := by
  induction h with
  | here => exact List.nodup_nil
  | @later n _ _ _ _ _ _ visits breaks ih =>
    have first := visits.nodup valid fun m hm =>
      hns m (List.mem_cons.2 (.inl (List.mem_singleton.1 hm)))
    have rest := ih fun m hm => hns m (List.mem_cons_of_mem _ hm)
    rw [offeredIds, List.map_append, List.nodup_append]
    refine ⟨first, rest, fun a ha b hb same => ?_⟩
    exact breaks.not_knows hb (visits.knows_iff.2 (.inl (same ▸ ha)))
  | @inside n _ _ _ _ _ _ _ _ _ breaks ih =>
    have hn : K n := hns n List.mem_cons_self
    refine List.nodup_cons.2 ⟨?_, ih (valid.closed hn)⟩
    exact id_notMem_of_occurs valid hn fun call hcall => breaks.occurs hcall

/-! ## The order -/

/-- Whether a node at which the walk goes on is known only with its children. -/
def Stage.Closed (stops : Node → Bool) (K : Heap) (g : Stage σ) : Prop :=
  ∀ ⦃x : Node⦄, K x → g.Knows x.id → stops x = false → ∀ c ∈ x.children, g.Knows c.id

/-- Whether the walk stops where a node is replaced. -/
def StopsAt (stops : Node → Bool) (log : List Offer) : Prop :=
  ∀ call ∈ log, stops call.1 = call.2.isSome

section Order

variable {K : Heap} {free : Identity}

theorem Stage.Closed.walk_knows (closed : g.Closed stops K) (valid : K.Valid free) (hn : K n)
    (known : g.Knows n.id) (hx : x ∈ n.walk stops) : g.Knows x.id := by
  induction n using Node.induct with
  | step n ih =>
    by_cases stop : stops n = true
    · rw [walk_eq_of_stops stop, List.mem_singleton] at hx
      exact hx ▸ known
    · have goes : stops n = false := by simpa using stop
      rw [walk_eq_of_goes goes, List.mem_cons] at hx
      obtain rfl | hx := hx
      · exact known
      · obtain ⟨c, hc, hx⟩ := List.mem_flatMap.1 hx
        exact ih c hc (valid.closed hn c hc) (closed hn known goes c hc) hx

theorem Stage.Closed.settled (closed : g.Closed stops K) (valid : K.Valid free) (hn : K n)
    (below : stops n = false → ∀ c ∈ n.children, g.Knows c.id) :
    (g.settled n out).Closed stops K := by
  intro x hx known goes c hc
  rw [Stage.knows_settled_iff] at known ⊢
  obtain same | known := known
  · obtain rfl := valid.unique hx hn same
    exact .inr (below goes c hc)
  · exact .inr (closed hx known goes c hc)

theorem Visits.knows_images (h : Visits offer change ns g log outs g') :
    ∀ n ∈ ns, g'.Knows n.id := by
  intro n hn
  obtain ⟨j, hj, rfl⟩ := List.mem_iff_getElem.1 hn
  have images := h.transforms.images
  exact ⟨_, (List.forall₂_iff_get.1 images).2 j hj (images.length_eq ▸ hj)⟩

theorem Visits.closed (h : Visits offer change ns g log outs g') (valid : K.Valid free)
    (hns : ∀ n ∈ ns, K n) (told : StopsAt stops log) (closed : g.Closed stops K) :
    g'.Closed stops K := by
  induction h with
  | nil => exact closed
  | known _ _ ih => exact ih (fun n hn => hns n (List.mem_cons_of_mem _ hn)) told closed
  | @replaced n out _ _ _ _ _ _ _ _ _ _ _ _ ih =>
    have hn : K n := hns n List.mem_cons_self
    have stop : stops n = true := told (n, some out) List.mem_cons_self
    refine ih (fun n hn => hns n (List.mem_cons_of_mem _ hn))
      (fun call hc => told call (List.mem_cons_of_mem _ hc)) ?_
    apply Stage.Closed.settled (g := ⟨_, _, _⟩) closed valid hn
    intro goes
    rw [stop] at goes
    cases goes
  | @finished n out _ _ _ _ _ _ _ _ _ _ _ _ _ below log _ _ visitsBelow _ _ ihb ih =>
    have hn : K n := hns n List.mem_cons_self
    have closedBelow := ihb (valid.closed hn)
      (fun call hc => told call (List.mem_cons_of_mem _ (List.mem_append_left _ hc))) closed
    refine ih (fun n hn => hns n (List.mem_cons_of_mem _ hn))
      (fun call hc => told call (List.mem_cons_of_mem _ (List.mem_append_right _ hc))) ?_
    exact Stage.Closed.settled (g := ⟨_, _, _⟩) closedBelow valid hn fun _ =>
      visitsBelow.knows_images

/-- Below a node the walk does not come back to it, so it makes no difference that it was seen. -/
theorem distinctOutside_below (valid : K.Valid free) (hn : K n) :
    distinctOutside (n.id :: seen) (n.children.flatMap (walk stops)) =
      distinctOutside seen (n.children.flatMap (walk stops)) := by
  apply distinctOutside_congr
  intro x hx
  obtain ⟨c, hc, hx⟩ := List.mem_flatMap.1 hx
  have occurs := (mem_walk_iff.1 hx).occurs
  have other : x.id ≠ n.id := by
    intro same
    have itself : x = n := valid.unique (valid.occurs (valid.closed hn c hc) occurs) hn same
    have small : sizeOf x ≤ sizeOf c := sizeOf_occurs occurs
    have smaller : sizeOf c < sizeOf n := sizeOf_child hc
    rw [itself] at small
    omega
  simp [other]

/-- The nodes that are offered are those that the walk meets for the first time, in its order. -/
theorem Visits.order (h : Visits offer change ns g log outs g') (valid : K.Valid free)
    (hns : ∀ n ∈ ns, K n) (told : StopsAt stops log) (closed : g.Closed stops K)
    (hseen : ∀ i, i ∈ seen ↔ g.Knows i) :
    log.map Prod.fst = distinctOutside seen (ns.flatMap (walk stops)) := by
  induction h generalizing seen with
  | nil => rfl
  | @known n done _ _ g _ _ found _ ih =>
    have nothing : distinctOutside seen (n.walk stops) = [] := by
      apply distinctOutside_eq_nil
      intro x hx
      exact (hseen _).2 (closed.walk_knows valid (hns n List.mem_cons_self) ⟨done, found⟩ hx)
    rw [List.flatMap_cons, distinctOutside_append, nothing]
    exact ih (fun n hn => hns n (List.mem_cons_of_mem _ hn)) told closed hseen
  | @replaced n out _ _ _ _ _ _ _ _ _ unknown _ visits ih =>
    have hn : K n := hns n List.mem_cons_self
    have stop : stops n = true := told (n, some out) List.mem_cons_self
    have fresh : n.id ∉ seen := fun mem => Stage.not_knows_iff.2 unknown ((hseen _).1 mem)
    rw [List.flatMap_cons, walk_eq_of_stops stop, List.singleton_append,
      distinctOutside_cons_of_notMem fresh, List.map_cons]
    apply congrArg (n :: ·)
    refine ih (fun n hn => hns n (List.mem_cons_of_mem _ hn))
      (fun call hc => told call (List.mem_cons_of_mem _ hc)) ?_ fun i => ?_
    · apply Stage.Closed.settled (g := ⟨_, _, _⟩) closed valid hn
      intro goes
      rw [stop] at goes
      cases goes
    · rw [List.mem_cons, hseen, Stage.knows_settled_iff]
      rfl
  | @finished n out _ _ _ _ _ _ _ _ _ _ _ _ _ below log unknown _ visitsBelow _ visits ihb ih =>
    have hn : K n := hns n List.mem_cons_self
    have goes : stops n = false := told (n, none) List.mem_cons_self
    have fresh : n.id ∉ seen := fun mem => Stage.not_knows_iff.2 unknown ((hseen _).1 mem)
    have toldBelow : StopsAt stops below := fun call hc =>
      told call (List.mem_cons_of_mem _ (List.mem_append_left _ hc))
    have orderBelow := ihb (valid.closed hn) toldBelow closed hseen
    rw [List.flatMap_cons, walk_eq_of_goes goes, List.cons_append,
      distinctOutside_cons_of_notMem fresh, distinctOutside_append, distinctOutside_below valid hn,
      ← orderBelow, List.map_cons, List.map_append]
    refine congrArg (fun tail => n :: (_ ++ tail)) ?_
    refine ih (fun n hn => hns n (List.mem_cons_of_mem _ hn))
      (fun call hc => told call (List.mem_cons_of_mem _ (List.mem_append_right _ hc))) ?_
      fun i => ?_
    · exact Stage.Closed.settled (g := ⟨_, _, _⟩)
        (visitsBelow.closed valid (valid.closed hn) toldBelow closed) valid hn fun _ =>
          visitsBelow.knows_images
    · rw [Stage.knows_settled_iff, List.map_map, List.mem_append, List.mem_cons, hseen]
      have later : Stage.Knows _ i ↔ _ := visitsBelow.knows_iff
      show i ∈ offeredIds below ∨ _ ↔ i = n.id ∨ Stage.Knows ⟨_, _, _⟩ i
      simp only [Stage.Knows] at later ⊢
      rw [later]
      grind

/-- The offers up to one that fails are the first of the walk. -/
theorem Breaks.order (h : Breaks offer change x s' i' ns g log) (valid : K.Valid free)
    (hns : ∀ n ∈ ns, K n) (told : StopsAt stops log) (closed : g.Closed stops K)
    (hseen : ∀ i, i ∈ seen ↔ g.Knows i) :
    log.map Prod.fst ++ [x] <+: distinctOutside seen (ns.flatMap (walk stops)) := by
  induction h generalizing seen with
  | here unknown =>
    have fresh : x.id ∉ seen := fun mem => Stage.not_knows_iff.2 unknown ((hseen _).1 mem)
    rw [List.flatMap_cons, walk, List.cons_append, distinctOutside_cons_of_notMem fresh]
    exact ⟨_, rfl⟩
  | @later n _ ns g _ log _ visits _ ih =>
    have hn : ∀ m ∈ [n], K m := fun m hm =>
      hns m (List.mem_cons.2 (.inl (List.mem_singleton.1 hm)))
    have toldFirst : StopsAt stops log := fun call hc => told call (List.mem_append_left _ hc)
    have first := visits.order valid hn toldFirst closed hseen
    rw [List.flatMap_singleton] at first
    rw [List.flatMap_cons, distinctOutside_append, ← first, List.map_append, List.append_assoc,
      List.prefix_append_right_inj]
    refine ih (fun m hm => hns m (List.mem_cons_of_mem _ hm))
      (fun call hc => told call (List.mem_append_right _ hc))
      (visits.closed valid hn toldFirst closed) fun i => ?_
    rw [visits.knows_iff, List.map_map, List.mem_append, hseen]
    rfl
  | @inside n _ _ _ _ _ _ _ unknown _ _ ih =>
    have hn : K n := hns n List.mem_cons_self
    have goes : stops n = false := told (n, none) List.mem_cons_self
    have fresh : n.id ∉ seen := fun mem => Stage.not_knows_iff.2 unknown ((hseen _).1 mem)
    have below := ih (valid.closed hn) (fun call hc => told call (List.mem_cons_of_mem _ hc)) closed
      hseen
    rw [List.flatMap_cons, walk_eq_of_goes goes, List.cons_append,
      distinctOutside_cons_of_notMem fresh, distinctOutside_append, distinctOutside_below valid hn,
      List.map_cons, List.cons_append, List.cons_prefix_cons]
    exact ⟨rfl, below.trans (List.prefix_append _ _)⟩

end Order

end Node

end SqlAlgebra
