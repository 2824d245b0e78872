import SqlAlgebra.Proofs.Coercion.Acceptance
import SqlAlgebra.Proofs.Deferred.Becoming
import SqlAlgebra.Proofs.Deferred.Resolution
import SqlAlgebra.Proofs.Deferred.Search
import SqlAlgebra.Proofs.Layout.Faults

/-!
# Resolution leaves nothing deferred

Whatever a resolution puts in the place of a deferred expression was resolved itself, and any other
node is filled with children that were.  If it comes to an end at all, no deferred expression is
left anywhere in the tree, and if it does not then because an expression could not be coerced or
followed, or because of an error of a factory.
-/

namespace SqlAlgebra

open Build (Ends EndsOver GrowsOver)
open Node

variable {factories : Factories} {scope : Scope} {K S : Heap} {n out : Node}
  {resolve : Option (Node → StateT (List Diagnostic) Build Node)} {next next' : Identity}

/-- The result is a tree of the heap without deferred expressions. -/
abbrev Build.MadePlain (K : Heap) (n : Node) : Prop := K n ∧ n.Plain

namespace Node

/-- Nothing is offered in place of a node that is not deferred, and of no other. -/
theorem isDeferred_of_passes (h : Passes (resolveStep factories scope resolve) n) :
    n.isDeferred = false := by
  obtain ⟨s, i, s', i', offered⟩ := h
  cases deferred : n.isDeferred with
  | false => rfl
  | true =>
    rcases n with ⟨id, kind, type, annotations, diagnostics⟩
    cases kind with
    | deferred lambda role =>
      unfold resolveStep at offered
      cases resolve with
      | none => cases offered
      | some f =>
        obtain ⟨input, s₁, i₁, -, offered⟩ := Build.bind_ok_over offered
        obtain ⟨made, s₂, i₂, -, offered⟩ := Build.bind_ok_over offered
        obtain ⟨_, s₃, i₃, -, offered⟩ := Build.bind_ok_over offered
        rw [map_eq_pure_bind] at offered
        obtain ⟨out, s₄, i₄, -, last⟩ := Build.bind_ok_over offered
        cases last
    | _ => cases deferred

/-- A node that is not deferred has no deferred expressions in it when it is filled with trees that
have none. -/
theorem plain_refill {news : List Node} (i : Identity) (plain : n.isDeferred = false)
    (hnews : ∀ c ∈ news, c.Plain) (length : news.length = n.children.length) :
    Plain { n with kind := n.kind.refill news, id := i } := by
  intro x hx
  cases hx with
  | root =>
    rcases n with ⟨id, kind, type, annotations, diagnostics⟩
    exact isDeferred_refill.trans plain
  | @deeper c _ hc hx =>
    have children : (n.kind.refill news).children = news := Kind.children_refill length
    exact hnews c (by rwa [← children]) x hx

/-- In place of a deferred expression stands a tree without any. -/
theorem growsOver_resolveStep (closed : ∀ ⦃x⦄, S x → ∀ c ∈ x.children, S c)
    (sound : factories.Within scope S) (keeps : ∀ x, S x → K x)
    (resolves : ∀ f ∈ resolve, ∀ ⦃K' : Heap⦄ ⦃m : Node⦄, (∀ x, S x → K' x) → K' m →
      GrowsOver K' (f m) Build.MadePlain) :
    GrowsOver K (resolveStep factories scope resolve n) fun K' o =>
      ∀ r ∈ o, Build.MadePlain K' r := by
  unfold resolveStep
  split
  · next lambda role kind =>
    cases resolve with
    | none => exact .throw _
    | some f =>
      have called : Build.Grows K (factories lambda.factory scope) fun K' input =>
          input.Within K' :=
        (sound lambda.factory).frame closed keeps fun _ _ _ keeps h n hn => keeps n (h hn)
      refine GrowsOver.bind (.lift called) fun K₁ input keeps₁ hinput => ?_
      refine GrowsOver.bind (.lift (grows_coerceNode hinput)) fun K₂ made keeps₂ hmade => ?_
      refine GrowsOver.bind (Q := fun K' _ => ∀ x, K₂ x → K' x) (.modify _ fun _ h => h)
        fun K₃ _ keeps₃ _ => ?_
      have known (x : Node) (hx : S x) : K₃ x := keeps₃ x (keeps₂ x (keeps₁ x (keeps x hx)))
      refine GrowsOver.map (resolves f rfl known (keeps₃ _ hmade)) fun _ _ hout r hr => ?_
      obtain rfl := Option.some.inj hr
      exact hout
  · exact .pure fun r hr => nomatch hr

theorem growsOver_resolving (closed : ∀ ⦃x⦄, S x → ∀ c ∈ x.children, S c)
    (sound : factories.Within scope S) (keeps : ∀ x, S x → K x)
    (resolves : ∀ f ∈ resolve, ∀ ⦃K' : Heap⦄ ⦃m : Node⦄, (∀ x, S x → K' x) → K' m →
      GrowsOver K' (f m) Build.MadePlain) (hn : K n) :
    GrowsOver K (substitute (resolveStep factories scope resolve) n) Build.MadePlain :=
  growsOver_substitute
    (fun _ _ keeps' _ =>
      growsOver_resolveStep closed sound (fun x hx => keeps' x (keeps x hx)) resolves)
    (fun _ _ i passes hnews length => plain_refill i (isDeferred_of_passes passes) hnews length) hn

theorem growsOver_resolveWithin (closed : ∀ ⦃x⦄, S x → ∀ c ∈ x.children, S c)
    (sound : factories.Within scope S) (steps : Nat) (keeps : ∀ x, S x → K x) (hn : K n) :
    GrowsOver K (resolveWithin factories scope steps n) Build.MadePlain := by
  induction steps generalizing K n with
  | zero => exact growsOver_resolving closed sound keeps (fun f hf => nomatch hf) hn
  | succ steps ih =>
    refine growsOver_resolving closed sound keeps (fun f hf K' m keeps' hm => ?_) hn
    obtain rfl := Option.some.inj hf
    exact ih keeps' hm

/-- A resolved tree has no deferred expressions. -/
theorem plain_of_resolved {diagnostics : List Diagnostic} (heap : S.Valid next) (root : S n)
    (sound : factories.Within scope S)
    (h : n.resolved factories scope next = .ok ((out, diagnostics), next')) : out.Plain := by
  unfold resolved at h
  cases found : n.containsDeferred with
  | true =>
    rw [found, if_pos rfl] at h
    obtain ⟨-, K', -, -, -, plain⟩ :=
      growsOver_resolveWithin heap.closed sound maxSteps (fun _ h => h) root _ heap h
    exact plain
  | false =>
    rw [found, if_neg Bool.false_ne_true] at h
    cases h
    exact fun x hx => isDeferred_of_not_containsDeferred heap root found hx

/-! ## How a resolution fails -/

/-- Whether an error is one of the factories, or is found before anything is rendered. -/
def FailsAs (factories : Factories) (scope : Scope) (e : Error) : Prop :=
  e.IsEarly ∨ ∃ k i, factories k scope i = .error e

theorem endsOver_resolveStep
    (h : ∀ f ∈ resolve, ∀ m, EndsOver (f m) (fun _ => True) (FailsAs factories scope)) (n : Node) :
    EndsOver (resolveStep factories scope resolve n) (fun _ => True) (FailsAs factories scope) := by
  unfold resolveStep
  split
  · next lambda role kind =>
    cases resolve with
    | none => exact .throw (.inl trivial)
    | some f =>
      have called : Ends (factories lambda.factory scope) (fun _ => True)
          (FailsAs factories scope) :=
        ⟨fun _ _ _ _ => trivial, fun i _ run => .inr ⟨lambda.factory, i, run⟩⟩
      refine EndsOver.bind (.lift called) fun input _ => ?_
      refine EndsOver.bind (.lift ((ends_coerceNode role input {}).weaken fun _ h => .inl h))
        fun made _ => ?_
      refine EndsOver.bind (.modify _) fun _ _ => ?_
      exact (h f rfl made.1).map fun _ _ => trivial
  · exact .pure trivial

theorem endsOver_resolveWithin (steps : Nat) (n : Node) :
    EndsOver (resolveWithin factories scope steps n) (fun _ => True) (FailsAs factories scope) := by
  induction steps generalizing n with
  | zero =>
    refine endsOver_substitute (endsOver_resolveStep ?_) n
    exact fun f hf => nomatch hf
  | succ steps ih =>
    refine endsOver_substitute (endsOver_resolveStep fun f hf m => ?_) n
    obtain rfl := Option.some.inj hf
    exact ih m

/-- A resolution fails because of a factory, or of what a factory made. -/
theorem failsAs_of_resolved {e : Error} (h : n.resolved factories scope next = .error e) :
    FailsAs factories scope e := by
  unfold resolved at h
  split at h
  · exact (endsOver_resolveWithin maxSteps n []).error h
  · cases h

end Node

end SqlAlgebra
