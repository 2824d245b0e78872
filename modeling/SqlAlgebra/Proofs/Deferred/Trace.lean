import SqlAlgebra.Deferred
import SqlAlgebra.Proofs.Coercion.Growth

/-!
# The calls of a resolution

A resolution is run again with a record of the factories that it calls: for each call the deferred
node and what was made for it.  Without the record it is the same resolution.
-/

namespace SqlAlgebra

/-- The call of a factory for a deferred node, with the node that was made. -/
structure LambdaCall where
  deferred : Node
  made : Node

/-- What a resolution has reported, and the calls in their order. -/
structure Trace where
  diagnostics : List Diagnostic
  calls : List LambdaCall

namespace Node

/-- `resolveStep`, with a record of the call. -/
def tracedStep (factories : Factories) (scope : Scope)
    (resolve : Option (Node → StateT Trace Build Node)) (n : Node) :
    StateT Trace Build (Option Node) :=
  match n.kind with
  | .deferred lambda role =>
    match resolve with
    | none => Build.fail .endlessDeferred
    | some resolve => do
      let input ← factories lambda.factory scope
      let (made, diagnostics) ← coerceNode role input {}
      modify fun trace => ⟨trace.diagnostics ++ diagnostics, trace.calls ++ [⟨n, made⟩]⟩
      some <$> resolve made
  | _ => pure none

/-- `resolveWithin`, with a record of the calls. -/
def tracedWithin (factories : Factories) (scope : Scope) : Nat → Node → StateT Trace Build Node
  | 0 => substitute (tracedStep factories scope none)
  | steps + 1 => substitute (tracedStep factories scope (some (tracedWithin factories scope steps)))

/-- `resolved`, with a record of the calls. -/
def traced (factories : Factories) (scope : Scope) (n : Node) : Build (Node × Trace) :=
  if n.containsDeferred then (tracedWithin factories scope maxSteps n).run ⟨[], []⟩
  else pure (n, ⟨[], []⟩)

/-! ## Without the record -/

/-- Whether a step is another one if a part of its state is left out. -/
def Erases {α σ τ : Type} (p : τ → σ) (x : StateT τ Build α) (y : StateT σ Build α) : Prop :=
  ∀ t i, (x t i).map (fun r => ((r.1.1, p r.1.2), r.2)) = y (p t) i

namespace Erases

variable {α β σ τ : Type} {p : τ → σ}

theorem pure (a : α) : Erases p (pure a) (pure a) := fun _ _ => rfl

theorem bind {x : StateT τ Build α} {y : StateT σ Build α} {f : α → StateT τ Build β}
    {g : α → StateT σ Build β} (hx : Erases p x y) (hf : ∀ a, Erases p (f a) (g a)) :
    Erases p (x >>= f) (y >>= g) := by
  intro t i
  show ((x t i).bind fun r => f r.1.1 r.1.2 r.2).map _ = (y (p t) i).bind fun r => g r.1.1 r.1.2 r.2
  rw [← hx t i]
  cases x t i with
  | error e => rfl
  | ok r => exact hf r.1.1 r.1.2 r.2

theorem lift (x : Build α) : Erases p (liftM x : StateT τ Build α)
    (liftM x : StateT σ Build α) := by
  intro t i
  show ((x i).bind fun r => .ok ((r.1, t), r.2)).map _ = (x i).bind fun r => .ok ((r.1, p t), r.2)
  cases x i <;> rfl

theorem map {x : StateT τ Build α} {y : StateT σ Build α} (f : α → β) (hx : Erases p x y) :
    Erases p (f <$> x) (f <$> y) := by
  rw [map_eq_pure_bind, map_eq_pure_bind]
  exact hx.bind fun a => .pure (f a)

theorem modify {f : τ → τ} {g : σ → σ} (h : ∀ t, p (f t) = g (p t)) :
    Erases p (modify f) (modify g) := fun t i => by
  show Except.ok ((PUnit.unit, p (f t)), i) = Except.ok ((PUnit.unit, g (p t)), i)
  rw [h]

theorem foldlM {l : List α} {f : β → α → StateT τ Build β} {g : β → α → StateT σ Build β} (b : β)
    (h : ∀ b, ∀ a ∈ l, Erases p (f b a) (g b a)) : Erases p (l.foldlM f b) (l.foldlM g b) := by
  induction l generalizing b with
  | nil => exact .pure b
  | cons a l ih =>
    rw [List.foldlM_cons, List.foldlM_cons]
    exact (h b a List.mem_cons_self).bind fun b => ih b fun b a ha =>
      h b a (List.mem_cons_of_mem _ ha)

theorem transform {offer : Node → StateT τ Build (Option Node)}
    {offer' : Node → StateT σ Build (Option Node)} {finish : Node → List Node → StateT τ Build Node}
    {finish' : Node → List Node → StateT σ Build Node} (ho : ∀ n, Erases p (offer n) (offer' n))
    (hf : ∀ n news, Erases p (finish n news) (finish' n news)) (n : Node) (memo : Memo) :
    Erases p (n.transform offer finish memo) (n.transform offer' finish' memo) := by
  induction n using Node.induct generalizing memo with
  | step n ih =>
    rw [Node.transform, Node.transform]
    split
    · exact .pure _
    · refine (ho n).bind fun offered => ?_
      cases offered with
      | some replacement => exact .pure _
      | none =>
        refine (foldlM _ fun before child _ => ?_).bind fun below => (hf n below.1).bind fun _ =>
          .pure _
        exact (ih child.1 child.2 before.2).bind fun _ => .pure _

theorem substitute {replace : Node → StateT τ Build (Option Node)}
    {replace' : Node → StateT σ Build (Option Node)} (h : ∀ n, Erases p (replace n) (replace' n))
    (n : Node) : Erases p (substitute replace n) (substitute replace' n) :=
  (transform h (fun _ _ => .lift _) n []).bind fun _ => .pure _

end Erases

variable {factories : Factories} {scope : Scope}

theorem erases_tracedStep {resolve : Option (Node → StateT Trace Build Node)}
    {resolve' : Option (Node → StateT (List Diagnostic) Build Node)}
    (h : Option.Rel (fun f g => ∀ n, Erases Trace.diagnostics (f n) (g n)) resolve resolve')
    (n : Node) :
    Erases Trace.diagnostics (tracedStep factories scope resolve n)
      (resolveStep factories scope resolve' n) := by
  unfold tracedStep resolveStep
  cases n.kind with
  | deferred lambda role =>
    cases h with
    | none => exact .lift _
    | some h =>
      refine (Erases.lift _).bind fun input => (Erases.lift _).bind fun ⟨made, _⟩ => ?_
      dsimp only
      refine (Erases.modify ?_).bind fun _ => (h made).map some
      exact fun _ => rfl
  | _ => exact .pure none

theorem erases_tracedWithin (steps : Nat) (n : Node) :
    Erases Trace.diagnostics (tracedWithin factories scope steps n)
      (resolveWithin factories scope steps n) := by
  induction steps generalizing n with
  | zero => exact .substitute (erases_tracedStep .none) n
  | succ steps ih => exact .substitute (erases_tracedStep (.some ih)) n

/-- The record aside, a traced resolution is the resolution. -/
theorem resolved_eq_traced (n : Node) (i : Identity) :
    n.resolved factories scope i =
      (n.traced factories scope i).map fun r => ((r.1.1, r.1.2.diagnostics), r.2) := by
  unfold resolved traced
  split
  · exact (erases_tracedWithin maxSteps n ⟨[], []⟩ i).symm
  · rfl

end Node

end SqlAlgebra
