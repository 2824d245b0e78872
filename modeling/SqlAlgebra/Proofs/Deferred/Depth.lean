import SqlAlgebra.Deferred
import SqlAlgebra.Proofs.Coercion.Unwrapping
import SqlAlgebra.Proofs.Deferred.Search
import SqlAlgebra.Proofs.Tree.Offers

/-!
# How deep deferred expressions are followed

What a factory makes may hold deferred expressions again, so a deferred expression is come to
through a number of results of factories that enclose it.  A resolution follows an expression if
this number is small enough, and gives up at the first one for which it is not.  The number is
counted here along a resolution that never gives up, which comes to an end for some trees and not
for others.
-/

namespace SqlAlgebra.Node

section Relations

variable (factories : Factories) (scope : Scope)

/-- What the factory of a deferred expression makes, coerced to the role of the expression. -/
def called (lambda : Lambda) (role : Role) : Build (Node × List Diagnostic) := do
  let input ← factories lambda.factory scope
  coerceNode role input {}

/-- What becomes of some nodes, one after another, if every deferred expression is followed. -/
inductive Settles : List Node → Stage (List Diagnostic) → List Node → Stage (List Diagnostic) → Prop
  | nil {g : Stage (List Diagnostic)} : Settles [] g [] g
  | known {n done : Node} {ns outs : List Node} {g g' : Stage (List Diagnostic)} :
      g.memo.lookup n.id = some done → Settles ns g outs g' →
        Settles (n :: ns) g (done :: outs) g'
  | called {n made out : Node} {ns outs : List Node} {lambda : Lambda} {role : Role}
      {memo memo' : Memo} {s s' reported : List Diagnostic} {i i₁ i' : Identity}
      {g' : Stage (List Diagnostic)} :
      memo.lookup n.id = none → n.kind = .deferred lambda role →
        called factories scope lambda role i = .ok ((made, reported), i₁) →
          Settles [made] ⟨[], s ++ reported, i₁⟩ [out] ⟨memo', s', i'⟩ →
            Settles ns ((⟨memo, s', i'⟩ : Stage (List Diagnostic)).settled n out) outs g' →
              Settles (n :: ns) ⟨memo, s, i⟩ (out :: outs) g'
  | kept {n out : Node} {ns news outs : List Node} {memo memo' : Memo} {s s' : List Diagnostic}
      {i i₁ i' : Identity} {g' : Stage (List Diagnostic)} :
      memo.lookup n.id = none → n.isDeferred = false →
        Settles n.children ⟨memo, s, i⟩ news ⟨memo', s', i₁⟩ → n.rebuild news i₁ = .ok (out, i') →
          Settles ns ((⟨memo', s', i'⟩ : Stage (List Diagnostic)).settled n out) outs g' →
            Settles (n :: ns) ⟨memo, s, i⟩ (out :: outs) g'

/-- Whether a deferred expression `x` is come to, with `j` as the identity that is free next,
through so many results of factories that enclose it. -/
inductive Reaches (x : Node) (j : Identity) : Nat → List Node → Stage (List Diagnostic) → Prop
  | here {ns : List Node} {memo : Memo} {s : List Diagnostic} :
      memo.lookup x.id = none → x.isDeferred = true → Reaches x j 0 (x :: ns) ⟨memo, s, j⟩
  | within {d : Nat} {n made : Node} {ns : List Node} {lambda : Lambda} {role : Role} {memo : Memo}
      {s reported : List Diagnostic} {i i₁ : Identity} :
      memo.lookup n.id = none → n.kind = .deferred lambda role →
        called factories scope lambda role i = .ok ((made, reported), i₁) →
          Reaches x j d [made] ⟨[], s ++ reported, i₁⟩ →
            Reaches x j (d + 1) (n :: ns) ⟨memo, s, i⟩
  | inside {d : Nat} {n : Node} {ns : List Node} {memo : Memo} {s : List Diagnostic}
      {i : Identity} :
      memo.lookup n.id = none → n.isDeferred = false → Reaches x j d n.children ⟨memo, s, i⟩ →
        Reaches x j d (n :: ns) ⟨memo, s, i⟩
  | later {d : Nat} {n out : Node} {ns : List Node} {g g' : Stage (List Diagnostic)} :
      Settles factories scope [n] g [out] g' → Reaches x j d ns g' → Reaches x j d (n :: ns) g

/-- What follows the expressions that are come to within so many steps. -/
def follower : Nat → Option (Node → StateT (List Diagnostic) Build Node)
  | 0 => none
  | steps + 1 => some (resolveWithin factories scope steps)

end Relations

variable {factories : Factories} {scope : Scope} {n x : Node} {ns outs outs' : List Node}
  {g g' g'' : Stage (List Diagnostic)} {s s' : List Diagnostic} {i i' j : Identity} {d k : Nat}
  {lambda : Lambda} {role : Role} {e : Error} {o : Option Node}
  {resolve : Option (Node → StateT (List Diagnostic) Build Node)}

theorem isDeferred_of_kind (h : n.kind = .deferred lambda role) : n.isDeferred = true := by
  rw [isDeferred, h]

theorem exists_kind_of_isDeferred (h : n.isDeferred = true) :
    ∃ lambda role, n.kind = .deferred lambda role := by
  rcases n with ⟨id, kind, type, annotations, diagnostics⟩
  cases kind with
  | deferred lambda role => exact ⟨lambda, role, rfl⟩
  | _ => cases h

theorem resolveWithin_eq (k : Nat) :
    resolveWithin factories scope k =
      substitute (resolveStep factories scope (follower factories scope k)) := by
  cases k <;> rfl

/-- What is followed is followed for one step less. -/
theorem exists_of_follower_eq_some {f : Node → StateT (List Diagnostic) Build Node}
    (h : follower factories scope k = some f) :
    ∃ steps, k = steps + 1 ∧ f = resolveWithin factories scope steps := by
  cases k with
  | zero => cases h
  | succ steps =>
    cases h
    exact ⟨steps, rfl, rfl⟩

/-! ## One step -/

theorem resolveStep_of_not_isDeferred (h : n.isDeferred = false) :
    resolveStep factories scope resolve n = pure none := by
  rcases n with ⟨id, kind, type, annotations, diagnostics⟩
  cases kind with
  | deferred => cases h
  | _ => rfl

theorem resolveStep_of_deferred (h : n.kind = .deferred lambda role)
    (f : Node → StateT (List Diagnostic) Build Node) :
    resolveStep factories scope (some f) n = (do
      let answer ← liftM (called factories scope lambda role)
      modify (· ++ answer.2)
      some <$> f answer.1) := by
  unfold resolveStep called
  rw [h]
  simp only [liftM_bind, bind_assoc]

/-- A step that comes to an end leaves a node alone, or calls its factory and follows the result. -/
theorem resolveStep_ok (run : resolveStep factories scope resolve n s i = .ok ((o, s'), i')) :
    (n.isDeferred = false ∧ o = none ∧ s' = s ∧ i' = i) ∨
      ∃ lambda role f made reported i₁ out, n.kind = .deferred lambda role ∧ resolve = some f ∧
        called factories scope lambda role i = .ok ((made, reported), i₁) ∧
          f made (s ++ reported) i₁ = .ok ((out, s'), i') ∧ o = some out := by
  cases deferred : n.isDeferred with
  | false =>
    rw [resolveStep_of_not_isDeferred deferred] at run
    cases run
    exact .inl ⟨rfl, rfl, rfl, rfl⟩
  | true =>
    obtain ⟨lambda, role, kind⟩ := exists_kind_of_isDeferred deferred
    cases resolve with
    | none =>
      unfold resolveStep at run
      rw [kind] at run
      cases run
    | some f =>
      rw [resolveStep_of_deferred kind] at run
      obtain ⟨⟨made, reported⟩, s₁, i₁, first, rest⟩ := Build.bind_ok_over run
      obtain ⟨answers, rfl⟩ := Build.lift_ok first
      obtain ⟨_, s₂, i₂, added, follows⟩ := Build.bind_ok_over rest
      cases added
      rw [map_eq_pure_bind] at follows
      obtain ⟨out, s₃, i₃, follows, last⟩ := Build.bind_ok_over follows
      cases last
      exact .inr ⟨lambda, role, f, made, reported, i₁, out, kind, rfl, answers, follows, rfl⟩

theorem resolveStep_ok_none
    (run : resolveStep factories scope resolve n s i = .ok ((none, s'), i')) :
    n.isDeferred = false ∧ s' = s ∧ i' = i := by
  obtain ⟨plain, -, same, same'⟩ | ⟨_, _, _, _, _, _, _, _, _, _, _, none⟩ := resolveStep_ok run
  · exact ⟨plain, same, same'⟩
  · cases none

theorem resolveStep_ok_some {out : Node}
    (run : resolveStep factories scope resolve n s i = .ok ((some out, s'), i')) :
    ∃ lambda role f made reported i₁, n.kind = .deferred lambda role ∧ resolve = some f ∧
      called factories scope lambda role i = .ok ((made, reported), i₁) ∧
        f made (s ++ reported) i₁ = .ok ((out, s'), i') := by
  obtain ⟨-, none, -⟩ | ⟨lambda, role, f, made, reported, i₁, _, kind, follows, answers, run,
    same⟩ := resolveStep_ok run
  · cases none
  · cases same
    exact ⟨lambda, role, f, made, reported, i₁, kind, follows, answers, run⟩

/-- A step fails because nothing is followed any more, because of the factory or the coercion, or
where the result is followed. -/
theorem resolveStep_error (run : resolveStep factories scope resolve n s i = .error e) :
    ∃ lambda role, n.kind = .deferred lambda role ∧
      ((resolve = none ∧ e = .construction .endlessDeferred) ∨ ∃ f, resolve = some f ∧
        (called factories scope lambda role i = .error e ∨ ∃ made reported i₁,
          called factories scope lambda role i = .ok ((made, reported), i₁) ∧
            f made (s ++ reported) i₁ = .error e)) := by
  cases deferred : n.isDeferred with
  | false =>
    rw [resolveStep_of_not_isDeferred deferred] at run
    cases run
  | true =>
    obtain ⟨lambda, role, kind⟩ := exists_kind_of_isDeferred deferred
    refine ⟨lambda, role, kind, ?_⟩
    cases resolve with
    | none =>
      unfold resolveStep at run
      rw [kind] at run
      cases run
      exact .inl ⟨rfl, rfl⟩
    | some f =>
      refine .inr ⟨f, rfl, ?_⟩
      rw [resolveStep_of_deferred kind] at run
      obtain failed | ⟨⟨made, reported⟩, s₁, i₁, first, rest⟩ := Build.bind_error_over run
      · exact .inl (Build.lift_error failed)
      · obtain ⟨answers, rfl⟩ := Build.lift_ok first
        obtain failed | ⟨_, s₂, i₂, added, follows⟩ := Build.bind_error_over rest
        · cases failed
        · cases added
          rw [map_eq_pure_bind] at follows
          obtain failed | ⟨out, s₃, i₃, -, last⟩ := Build.bind_error_over follows
          · exact .inr ⟨made, reported, i₁, answers, failed⟩
          · cases last

/-! ## Runs that come to an end -/

/-- How nodes are finished where some of them are replaced. -/
abbrev rebuilding (n : Node) (news : List Node) : StateT (List Diagnostic) Build Node :=
  liftM (finishWith withChildren? n news)

theorem transforms_of_resolveWithin {out : Node}
    (run : resolveWithin factories scope k n s i = .ok ((out, s'), i')) :
    ∃ memo, Transforms (resolveStep factories scope (follower factories scope k)) rebuilding [n]
      ⟨[], s, i⟩ [out] ⟨memo, s', i'⟩ := by
  rw [resolveWithin_eq] at run
  obtain ⟨⟨out, memo⟩, s₁, i₁, first, last⟩ := Build.bind_ok_over run
  cases last
  exact ⟨memo, transforms_of_transform first⟩

/-- A resolution that comes to an end within so many steps follows every expression. -/
theorem Transforms.settles
    (h : Transforms (resolveStep factories scope (follower factories scope k)) rebuilding ns g outs
      g') : Settles factories scope ns g outs g' := by
  induction k using Nat.strongRecOn generalizing ns g outs g' with
  | _ k ihk =>
    induction h with
    | nil => exact .nil
    | known found _ ih => exact .known found ih
    | replaced unknown offered _ ih =>
      obtain ⟨lambda, role, f, made, reported, i₁, kind, follows, answers, run⟩ :=
        resolveStep_ok_some offered
      obtain ⟨steps, rfl, rfl⟩ := exists_of_follower_eq_some follows
      obtain ⟨memo, inner⟩ := transforms_of_resolveWithin run
      exact .called unknown kind answers (ihk steps (Nat.lt_succ_self steps) inner) ih
    | rebuilt unknown offered _ finished _ ihb ih =>
      obtain ⟨plain, rfl, rfl⟩ := resolveStep_ok_none offered
      obtain ⟨rebuilt, rfl⟩ := Build.lift_ok finished
      exact .kept unknown plain ihb rebuilt ih

/-- What becomes of nodes is determined. -/
theorem Settles.unique (h : Settles factories scope ns g outs g')
    (h' : Settles factories scope ns g outs' g'') : outs = outs' ∧ g' = g'' := by
  induction h generalizing outs' g'' with
  | nil =>
    cases h'
    exact ⟨rfl, rfl⟩
  | known found _ ih =>
    cases h' with
    | known found' rest =>
      cases found.symm.trans found'
      obtain ⟨rfl, rfl⟩ := ih rest
      exact ⟨rfl, rfl⟩
    | called unknown => cases found.symm.trans unknown
    | kept unknown => cases found.symm.trans unknown
  | called unknown kind answers _ _ ihb ih =>
    cases h' with
    | known found => cases unknown.symm.trans found
    | called _ kind' answers' inner rest =>
      cases kind.symm.trans kind'
      cases answers.symm.trans answers'
      obtain ⟨same, same'⟩ := ihb inner
      cases same
      cases same'
      obtain ⟨rfl, rfl⟩ := ih rest
      exact ⟨rfl, rfl⟩
    | kept _ plain => cases (isDeferred_of_kind kind).symm.trans plain
  | kept unknown plain _ rebuilt _ ihb ih =>
    cases h' with
    | known found => cases unknown.symm.trans found
    | called _ kind => cases (isDeferred_of_kind kind).symm.trans plain
    | kept _ _ below rebuilt' rest =>
      obtain ⟨rfl, same⟩ := ihb below
      cases same
      cases rebuilt.symm.trans rebuilt'
      obtain ⟨rfl, rfl⟩ := ih rest
      exact ⟨rfl, rfl⟩

/-- The first of some nodes, and then the others. -/
theorem Transforms.uncons {offer : Node → StateT (List Diagnostic) Build (Option Node)}
    {finish : Node → List Node → StateT (List Diagnostic) Build Node}
    (h : Transforms offer finish (n :: ns) g outs g') :
    ∃ out rest g₁, outs = out :: rest ∧ Transforms offer finish [n] g [out] g₁ ∧
      Transforms offer finish ns g₁ rest g' := by
  cases h with
  | known found rest => exact ⟨_, _, _, rfl, .known found .nil, rest⟩
  | replaced unknown offered rest => exact ⟨_, _, _, rfl, .replaced unknown offered .nil, rest⟩
  | rebuilt unknown offered below finished rest =>
    exact ⟨_, _, _, rfl, .rebuilt unknown offered below finished .nil, rest⟩

/-- If a resolution comes to an end within so many steps, no expression is come to through as many
results. -/
theorem Reaches.lt (h : Reaches factories scope x j d ns g)
    (run : Transforms (resolveStep factories scope (follower factories scope k)) rebuilding ns g
      outs g') : d < k := by
  induction h generalizing k outs g' with
  | here unknown deferred =>
    cases run with
    | known found => cases unknown.symm.trans found
    | replaced _ offered =>
      obtain ⟨_, _, _, _, _, _, _, follows, -⟩ := resolveStep_ok_some offered
      obtain ⟨steps, rfl, -⟩ := exists_of_follower_eq_some follows
      exact Nat.succ_pos steps
    | rebuilt _ offered => cases deferred.symm.trans (resolveStep_ok_none offered).1
  | within unknown kind answers _ ih =>
    cases run with
    | known found => cases unknown.symm.trans found
    | replaced _ offered =>
      obtain ⟨_, _, f, _, _, _, kind', follows, answers', run⟩ := resolveStep_ok_some offered
      cases kind.symm.trans kind'
      cases answers.symm.trans answers'
      obtain ⟨steps, rfl, rfl⟩ := exists_of_follower_eq_some follows
      obtain ⟨memo, inner⟩ := transforms_of_resolveWithin run
      exact Nat.succ_lt_succ (ih inner)
    | rebuilt _ offered =>
      cases (isDeferred_of_kind kind).symm.trans (resolveStep_ok_none offered).1
  | inside unknown plain _ ih =>
    cases run with
    | known found => cases unknown.symm.trans found
    | replaced _ offered =>
      rw [resolveStep_of_not_isDeferred plain] at offered
      cases offered
    | rebuilt _ offered below =>
      rw [resolveStep_of_not_isDeferred plain] at offered
      cases offered
      exact ih below
  | later first _ ih =>
    obtain ⟨out, rest, g₁, rfl, run₁, run₂⟩ := run.uncons
    obtain ⟨-, rfl⟩ := first.unique run₁.settles
    exact ih run₂

/-! ## Runs that fail -/

/-- What is come to where a resolution breaks off is come to by it. -/
theorem reaches_of_breaks {y : Node} {log : List Offer}
    (h : Breaks (resolveStep factories scope (follower factories scope k)) withChildren? y s' i' ns
      g log)
    (there : ∀ memo rest, memo.lookup y.id = none →
      Reaches factories scope x j d (y :: rest) ⟨memo, s', i'⟩) :
    Reaches factories scope x j d ns g := by
  induction h with
  | here unknown => exact there _ _ unknown
  | later visits _ ih => exact .later visits.transforms.settles ih
  | inside unknown offered _ ih =>
    obtain ⟨plain, rfl, rfl⟩ := resolveStep_ok_none offered
    exact .inside unknown plain ih

/-- A resolution of so many steps fails at an expression that it comes to through fewer results,
with the error of the factory or the coercion, or it comes to one through as many and gives up. -/
theorem reaches_of_resolveWithin_error
    (run : resolveWithin factories scope k n s i = .error e) :
    (∃ d x j lambda role, d < k ∧ Reaches factories scope x j d [n] ⟨[], s, i⟩ ∧
        x.kind = .deferred lambda role ∧ called factories scope lambda role j = .error e) ∨
      ∃ x j, Reaches factories scope x j k [n] ⟨[], s, i⟩ ∧
        e = .construction .endlessDeferred := by
  induction k using Nat.strongRecOn generalizing n s i with
  | _ k ih =>
    rw [resolveWithin_eq] at run
    obtain failed | ⟨_, _, _, -, last⟩ := Build.bind_error_over run
    · obtain ⟨log, y, s', i', breaks, fails⟩ := breaks_of_transform failed
      obtain ⟨lambda, role, kind, ⟨follows, rfl⟩ | ⟨f, follows, refused | ⟨made, reported, i₁,
        answers, fails⟩⟩⟩ := resolveStep_error fails
      · cases k with
        | zero =>
          exact .inr ⟨y, i', reaches_of_breaks (breaks []) fun memo rest unknown =>
            .here unknown (isDeferred_of_kind kind), rfl⟩
        | succ k => cases follows
      · obtain ⟨steps, rfl, -⟩ := exists_of_follower_eq_some follows
        exact .inl ⟨0, y, i', lambda, role, Nat.succ_pos steps,
          reaches_of_breaks (breaks []) fun memo rest unknown =>
            .here unknown (isDeferred_of_kind kind), kind, refused⟩
      · obtain ⟨steps, rfl, rfl⟩ := exists_of_follower_eq_some follows
        obtain ⟨d, x, j, lambda', role', lt, reaches, kind', refused⟩ | ⟨x, j, reaches, rfl⟩ :=
          ih steps (Nat.lt_succ_self steps) fails
        · exact .inl ⟨d + 1, x, j, lambda', role', Nat.succ_lt_succ lt,
            reaches_of_breaks (breaks []) fun memo rest unknown =>
              .within unknown kind answers reaches, kind', refused⟩
        · exact .inr ⟨x, j, reaches_of_breaks (breaks []) fun memo rest unknown =>
            .within unknown kind answers reaches, rfl⟩
    · cases last

/-! ## Resolutions -/

/-- An expression that is come to is in one of the trees, or in what is made of one that is. -/
theorem Reaches.exists_deferred (h : Reaches factories scope x j d ns g) :
    ∃ n ∈ ns, ∃ y, Occurs y n ∧ y.isDeferred = true := by
  induction h with
  | here _ deferred => exact ⟨_, List.mem_cons_self, _, .root, deferred⟩
  | within _ kind => exact ⟨_, List.mem_cons_self, _, .root, isDeferred_of_kind kind⟩
  | inside _ _ _ ih =>
    obtain ⟨c, hc, y, hy, deferred⟩ := ih
    exact ⟨_, List.mem_cons_self, y, .deeper hc hy, deferred⟩
  | later _ _ ih =>
    obtain ⟨n, hn, found⟩ := ih
    exact ⟨n, List.mem_cons_of_mem _ hn, found⟩

/-- A resolution comes to an end, and then every expression is come to through fewer than a hundred
results; or it fails at one of those, because of its factory or its coercion; or it comes to one
through a hundred results and gives up. -/
theorem resolved_cases (factories : Factories) (scope : Scope) {K : Heap} {next : Identity}
    (heap : K.Valid next) (root : K n) :
    (∃ result, n.resolved factories scope next = .ok result ∧
        ∀ d x j, Reaches factories scope x j d [n] ⟨[], [], next⟩ → d < maxSteps) ∨
      (∃ e d x j lambda role, n.resolved factories scope next = .error e ∧ d < maxSteps ∧
        Reaches factories scope x j d [n] ⟨[], [], next⟩ ∧ x.kind = .deferred lambda role ∧
          called factories scope lambda role j = .error e) ∨
      ∃ x j, Reaches factories scope x j maxSteps [n] ⟨[], [], next⟩ ∧
        n.resolved factories scope next = .error (.construction .endlessDeferred) := by
  unfold resolved
  cases contains : n.containsDeferred with
  | false =>
    refine .inl ⟨_, rfl, fun d x j reaches => ?_⟩
    obtain ⟨m, hm, y, hy, deferred⟩ := reaches.exists_deferred
    obtain rfl := List.mem_singleton.1 hm
    cases (isDeferred_of_not_containsDeferred heap root contains hy).symm.trans deferred
  | true =>
    rw [if_pos rfl]
    cases run : (resolveWithin factories scope maxSteps n).run [] next with
    | ok result =>
      obtain ⟨⟨out, s'⟩, i'⟩ := result
      obtain ⟨memo, transforms⟩ := transforms_of_resolveWithin run
      exact .inl ⟨_, rfl, fun d x j reaches => reaches.lt transforms⟩
    | error e =>
      obtain ⟨d, x, j, lambda, role, lt, reaches, kind, refused⟩ | ⟨x, j, reaches, rfl⟩ :=
        reaches_of_resolveWithin_error run
      · exact .inr (.inl ⟨e, d, x, j, lambda, role, rfl, lt, reaches, kind, refused⟩)
      · exact .inr (.inr ⟨x, j, reaches, rfl⟩)

/-- External elements and deferred expressions are followed for a hundred steps, no fewer and no
more.  A chain of no more than a hundred elements is followed to its end, where a node is taken up
as the role takes up a node and anything else is refused; a longer one is given up, whatever
follows.  A resolution comes to an end in one of three ways, and if no factory and no coercion fails
it gives a tree exactly if no expression is come to through more than ninety-nine results of
factories. -/
theorem followed_exactly :
    (∀ (role : Role) (input : Input) (args : CoercionArgs) (next : Identity),
      role.isLiteralOnly = false → input.isElement = true →
        (∀ k n, Input.Leads k input (.node n) → k ≤ 100 →
          expect role input args = (do
            let (value, diagnostics) ← (Site.takeUp ⟨role, args⟩ input (.node n)).run []
            pure ⟨value, diagnostics⟩)) ∧
        (∀ k terminal, Input.Leads k input terminal → terminal.isElement = false →
          terminal.asNode? = none → k ≤ 100 →
            expect role input args next =
              .error (Site.unexpectedTerminal ⟨role, args⟩ input terminal)) ∧
        (expect role input args next = .error (.construction (.endlessElement input.repr)) ↔
          ∀ k terminal, Input.Leads k input terminal → terminal.isElement = false → 100 < k)) ∧
    (∀ (role : Role) (repr : String) (reprs : List String) (input : Input) (args : CoercionArgs)
      (next : Identity), role.isLiteralOnly = false → 100 ≤ reprs.length →
        expect role (.chain (repr :: reprs) input) args next =
          .error (.construction (.endlessElement repr))) ∧
    ∀ (factories : Factories) (scope : Scope) (K : Heap) (n : Node) (next : Identity),
      K.Valid next → K n →
        ((∃ result, n.resolved factories scope next = .ok result ∧
            ∀ d x j, Reaches factories scope x j d [n] ⟨[], [], next⟩ → d ≤ 99) ∨
          (∃ e d x j lambda role, n.resolved factories scope next = .error e ∧ d ≤ 99 ∧
            Reaches factories scope x j d [n] ⟨[], [], next⟩ ∧ x.kind = .deferred lambda role ∧
              called factories scope lambda role j = .error e) ∨
          ∃ x j, Reaches factories scope x j 100 [n] ⟨[], [], next⟩ ∧
            n.resolved factories scope next = .error (.construction .endlessDeferred)) ∧
        ((∀ d x j lambda role, d ≤ 99 → Reaches factories scope x j d [n] ⟨[], [], next⟩ →
            x.kind = .deferred lambda role →
              ∃ answer, called factories scope lambda role j = .ok answer) →
          ((∃ result, n.resolved factories scope next = .ok result) ↔
            ∀ d x j, Reaches factories scope x j d [n] ⟨[], [], next⟩ → d ≤ 99) ∧
          ((∃ d x j, 99 < d ∧ Reaches factories scope x j d [n] ⟨[], [], next⟩) →
            n.resolved factories scope next = .error (.construction .endlessDeferred))) := by
  refine ⟨fun role input args next general element => ⟨fun k n leads le =>
    expect_of_leads_node general element leads le, fun k terminal leads plain none le =>
    expect_of_leads general element leads plain none le next,
    expect_eq_endless_iff general element next⟩, ?_, ?_⟩
  · intro role repr reprs input args next general long
    refine (expect_eq_endless_iff general rfl next).2 fun k terminal leads plain => ?_
    exact Nat.lt_of_lt_of_le (Nat.lt_succ_of_le long) (leads.length_le plain)
  · intro factories scope K n next heap root
    obtain ⟨result, ok, shallow⟩ | ⟨e, d, x, j, lambda, role, failed, lt, reaches, kind, refused⟩ |
      ⟨x, j, deep, failed⟩ := resolved_cases factories scope heap root
    · have le (d : Nat) (x : Node) (j : Identity)
          (reaches : Reaches factories scope x j d [n] ⟨[], [], next⟩) : d ≤ 99 :=
        Nat.le_of_lt_succ (shallow d x j reaches)
      refine ⟨.inl ⟨result, ok, le⟩, fun _ => ⟨⟨fun _ => le, fun _ => ⟨result, ok⟩⟩, ?_⟩⟩
      rintro ⟨d, x, j, deep, reaches⟩
      exact absurd (le d x j reaches) (Nat.not_le.2 deep)
    · refine ⟨.inr (.inl ⟨e, d, x, j, lambda, role, failed, Nat.le_of_lt_succ lt, reaches, kind,
        refused⟩), fun answers => ?_⟩
      obtain ⟨answer, answered⟩ := answers d x j lambda role (Nat.le_of_lt_succ lt) reaches kind
      cases refused.symm.trans answered
    · refine ⟨.inr (.inr ⟨x, j, deep, failed⟩), fun _ => ⟨⟨?_, fun shallow => ?_⟩, fun _ => failed⟩⟩
      · rintro ⟨result, ok⟩
        cases failed.symm.trans ok
      · exact absurd (shallow 100 x j deep) (by decide)

section Sample

def sampleLoose (i : Identity) : Node := ⟨i, .column "a" none false, .integer, [], []⟩

/-- A deferred condition, and a factory that makes it another deferred condition each time. -/
def sampleEndless (i : Identity) : Node := ⟨i, .deferred ⟨0, 0⟩ .whereHaving, .null, [], []⟩

def endlessFactories : Factories := fun _ _ => pure (.lambda ⟨0, 0⟩)

theorem called_sampleEndless (scope : Scope) (i : Identity) :
    called endlessFactories scope ⟨0, 0⟩ .whereHaving i = .ok ((sampleEndless i, []), i + 1) := rfl

theorem reaches_sampleEndless (scope : Scope) (d : Nat) (i : Identity) (s : List Diagnostic)
    (next : Identity) :
    ∃ x j, Reaches endlessFactories scope x j d [sampleEndless i] ⟨[], s, next⟩ := by
  induction d generalizing i s next with
  | zero => exact ⟨_, _, .here rfl rfl⟩
  | succ d ih =>
    obtain ⟨x, j, reaches⟩ := ih next (s ++ []) (next + 1)
    exact ⟨x, j, .within rfl rfl (called_sampleEndless scope next) reaches⟩

/-- Nothing else is come to. -/
theorem kind_of_reaches_sampleEndless (h : Reaches endlessFactories scope x j d ns g)
    (all : ∀ n ∈ ns, n.kind = .deferred ⟨0, 0⟩ .whereHaving) :
    x.kind = .deferred ⟨0, 0⟩ .whereHaving := by
  induction h with
  | here => exact all _ List.mem_cons_self
  | within _ kind answers _ ih =>
    cases kind.symm.trans (all _ List.mem_cons_self)
    cases answers
    refine ih fun n hn => ?_
    rw [List.mem_singleton.1 hn]
  | inside _ plain =>
    cases (isDeferred_of_kind (all _ List.mem_cons_self)).symm.trans plain
  | later _ _ ih => exact ih fun n hn => all n (List.mem_cons_of_mem _ hn)

theorem valid_sampleEndless : Heap.Valid (· ∈ [sampleEndless 0]) 1 :=
  Heap.valid_of_list (by simp [sampleEndless, children, Kind.children]) (by simp)
    (by simp [sampleEndless])

/-- A hundred elements before a column are followed, and a hundred and one are not.  A deferred
condition that is replaced by a deferred condition each time is given up. -/
theorem followed_sampleEndless :
    expect .expressionElement (.chain (List.replicate 100 "e") (.node (sampleLoose 0))) {} 1 =
        .ok (⟨.node (sampleLoose 0), []⟩, 1) ∧
      expect .expressionElement (.chain (List.replicate 101 "e") (.node (sampleLoose 0))) {} 1 =
        .error (.construction (.endlessElement "e")) ∧
      (sampleEndless 0).resolved endlessFactories .empty 1 =
        .error (.construction .endlessDeferred) := by
  obtain ⟨elements, longer, deferred⟩ := followed_exactly
  have node := (elements .expressionElement
    (.chain (List.replicate 100 "e") (.node (sampleLoose 0))) {} 1 rfl rfl).1 100 (sampleLoose 0)
    (Input.leads_chain (List.replicate 100 "e") _) (Nat.le_refl 100)
  refine ⟨?_, longer .expressionElement "e" (List.replicate 100 "e") _ {} 1 rfl (by decide), ?_⟩
  · rw [node]
    rfl
  · obtain ⟨-, gives⟩ := deferred endlessFactories .empty _ (sampleEndless 0) 1 valid_sampleEndless
      List.mem_cons_self
    obtain ⟨x, j, reaches⟩ := reaches_sampleEndless .empty 100 0 [] 1
    refine (gives fun d x j lambda role _ reaches kind => ?_).2
      ⟨100, x, j, Nat.lt_succ_self 99, reaches⟩
    have same : x.kind = .deferred ⟨0, 0⟩ .whereHaving :=
      kind_of_reaches_sampleEndless reaches fun n hn => by
        rw [List.mem_singleton.1 hn]
        rfl
    cases kind.symm.trans same
    exact ⟨_, called_sampleEndless .empty j⟩

end Sample

end SqlAlgebra.Node
