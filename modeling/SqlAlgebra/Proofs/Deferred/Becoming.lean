import Mathlib.Data.List.Nodup
import SqlAlgebra.Proofs.Deferred.Trace

/-!
# Trees without deferred expressions

What a tree becomes when its deferred nodes are replaced, all at once, by what was made for them:
every other node stays the node that it was, with what its children become in their places.
-/

namespace SqlAlgebra.Node

open List (Forall₂)

/-- What a node becomes when each deferred node gives way to what was made for it in some calls.
The identities of the other nodes are kept, so what was one node before is one node afterwards. -/
inductive Becomes (calls : List LambdaCall) : Node → Node → Prop
  | made {x made b : Node} :
      x.isDeferred = true → ⟨x, made⟩ ∈ calls → Becomes calls made b → Becomes calls x b
  | kept {x : Node} {bs : List Node} :
      x.isDeferred = false → bs.length = x.children.length →
        (∀ p ∈ x.children.zip bs, Becomes calls p.1 p.2) →
          Becomes calls x { x with kind := x.kind.refill bs }

variable {calls calls' : List LambdaCall} {x b b' m : Node}

theorem Becomes.mono (h : x.Becomes calls b) (sub : ∀ c ∈ calls, c ∈ calls') :
    x.Becomes calls' b := by
  induction h with
  | made deferred call _ ih => exact .made deferred (sub _ call) ih
  | kept plain length _ ih => exact .kept plain length ih

theorem Becomes.of_plain (h : x.Becomes calls b) (plain : x.isDeferred = false) :
    ∃ bs, Forall₂ (Becomes calls) x.children bs ∧ b = { x with kind := x.kind.refill bs } := by
  cases h with
  | made deferred => rw [plain] at deferred; cases deferred
  | kept _ length below =>
    exact ⟨_, List.forall₂_iff_zip.2 ⟨length.symm, fun hp => below _ hp⟩, rfl⟩

theorem becomes_of_children {bs : List Node} (plain : x.isDeferred = false)
    (h : Forall₂ (Becomes calls) x.children bs) :
    x.Becomes calls { x with kind := x.kind.refill bs } :=
  .kept plain h.length_eq.symm fun _ hp => (List.forall₂_iff_zip.1 h).2 hp

/-- If each deferred node was asked for once, there is one tree that a tree becomes. -/
theorem Becomes.unique (once : (calls.map fun c => c.deferred.id).Nodup) (h : x.Becomes calls b)
    (h' : x.Becomes calls b') : b = b' := by
  induction h generalizing b' with
  | @made x made b deferred call _ ih =>
    cases h' with
    | made _ call' h' =>
      have same := List.inj_on_of_nodup_map once call call' rfl
      cases same
      exact ih h'
    | kept plain => rw [deferred] at plain; cases plain
  | @kept x bs plain length _ ih =>
    obtain ⟨bs', below, rfl⟩ := h'.of_plain plain
    have same : bs = bs' := by
      obtain ⟨length', below⟩ := List.forall₂_iff_zip.1 below
      refine List.ext_getElem (length.trans length') fun i hi hi' => ?_
      have hx : i < x.children.length := length ▸ hi
      have left : (x.children[i], bs[i]) ∈ x.children.zip bs :=
        List.mem_iff_getElem.2 ⟨i, by rw [List.length_zip]; omega, by rw [List.getElem_zip]⟩
      have right : (x.children[i], bs'[i]) ∈ x.children.zip bs' :=
        List.mem_iff_getElem.2 ⟨i, by rw [List.length_zip]; omega, by rw [List.getElem_zip]⟩
      exact ih _ left (below right)
    rw [same]

theorem children_of_isDeferred (h : x.isDeferred = true) : x.children = [] := by
  rcases x with ⟨i, kind, type, annotations, diagnostics⟩
  cases kind <;> first | rfl | cases h

theorem isDeferred_refill {k : Kind Node} {bs : List Node} {type : SqlType}
    {annotations : List (String × String)} {diagnostics : List Diagnostic} {i : Identity} :
    (⟨i, k.refill bs, type, annotations, diagnostics⟩ : Node).isDeferred =
      (⟨i, k, type, annotations, diagnostics⟩ : Node).isDeferred := by
  cases k <;> rfl

/-- Nothing in what a tree becomes is deferred. -/
theorem Becomes.isDeferred_eq_false (h : x.Becomes calls b) {y : Node} (hy : Occurs y b) :
    y.isDeferred = false := by
  induction h with
  | made _ _ _ ih => exact ih hy
  | @kept x bs plain length below ih =>
    have children : ({ x with kind := x.kind.refill bs } : Node).children = bs :=
      Kind.children_refill length
    cases hy with
    | root => exact isDeferred_refill.trans plain
    | @deeper d _ hd hy =>
      rw [children] at hd
      obtain ⟨i, hi, rfl⟩ := List.mem_iff_getElem.1 hd
      have hx : i < x.children.length := length ▸ hi
      exact ih (x.children[i], bs[i]) (List.mem_iff_getElem.2
        ⟨i, by rw [List.length_zip]; omega, by rw [List.getElem_zip]⟩) hy

theorem becomes_self (h : ∀ y, Occurs y x → y.isDeferred = false) : x.Becomes calls x := by
  induction x using Node.induct with
  | step x ih =>
    have below : Forall₂ (Becomes calls) x.children x.children :=
      List.forall₂_same.2 fun c hc => ih c hc fun y hy => h y (.deeper hc hy)
    have itself : ({ x with kind := x.kind.refill x.children } : Node) = x := by
      rcases x with ⟨i, kind, type, annotations, diagnostics⟩
      exact congrArg (Node.mk i · type annotations diagnostics) (Kind.refill_children kind)
    have := becomes_of_children (h x .root) below
    rwa [itself] at this

theorem exists_forall₂ (xs : List Node) (h : ∀ c ∈ xs, ∃ b, Becomes calls c b) :
    ∃ bs, Forall₂ (Becomes calls) xs bs := by
  induction xs with
  | nil => exact ⟨[], .nil⟩
  | cons x xs ih =>
    obtain ⟨b, hb⟩ := h x List.mem_cons_self
    obtain ⟨bs, hbs⟩ := ih fun c hc => h c (List.mem_cons_of_mem _ hc)
    exact ⟨b :: bs, .cons hb hbs⟩

end SqlAlgebra.Node
