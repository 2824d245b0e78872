import SqlAlgebra.Compiler
import SqlAlgebra.Proofs.Layout.Render
import SqlAlgebra.Proofs.Survey.Likeness

/-!
# Templates of trees that are alike

A template knows a parameter by its slot and a node without a name by the name that it is given.
Both go by identity alone, so layouts that are alike have the same template.
-/

namespace SqlAlgebra

open List (Forall₂)
open Node

variable {R S T : Node → Node → Prop} {a b m n : Node}

namespace Namer

variable {x y : Namer}

/-- Namers that named corresponding nodes alike. -/
structure Like (R : Node → Node → Prop) (x y : Namer) : Prop where
  taken : x.taken = y.taken
  issued : x.issued = y.issued
  counters : x.counters = y.counters
  assigned : Forall₂ (fun p q => p.2 = q.2 ∧ ∃ a b, R a b ∧ a.isTracked ∧ a.id = p.1 ∧ b.id = q.1)
    x.assigned y.assigned

theorem Like.lookup (hR : Correspondence R) (h : Like R x y) (hab : R a b) (ha : a.isTracked) :
    x.assigned.lookup a.id = y.assigned.lookup b.id := by
  have assigned := h.assigned
  generalize x.assigned = xs at assigned
  generalize y.assigned = ys at assigned
  induction assigned with
  | nil => rfl
  | @cons p q xs ys hpq _ ih =>
    rcases p with ⟨i, name⟩
    rcases q with ⟨j, name'⟩
    obtain ⟨rfl, c, d, hcd, hc, rfl, rfl⟩ := hpq
    have same : (a.id == c.id) = (b.id == d.id) := by
      rw [Bool.eq_iff_iff, beq_iff_eq, beq_iff_eq]
      exact hR.tracked hab hcd ha hc
    rw [List.lookup_cons, List.lookup_cons, same, ih]

theorem Like.firstFree (h : Like R x y) (stem : String) (steps n : Nat) :
    x.firstFree stem steps n = y.firstFree stem steps n := by
  induction steps generalizing n with
  | zero => rfl
  | succ steps ih =>
    have free : x.isFree (numbered stem n) = y.isFree (numbered stem n) := by
      rw [isFree, h.taken, h.issued, isFree]
    rw [Namer.firstFree, Namer.firstFree, free, ih]

theorem Like.fresh (h : Like R x y) (stem : String) :
    (x.fresh stem).1 = (y.fresh stem).1 ∧ Like R (x.fresh stem).2 (y.fresh stem).2 := by
  have number : x.firstFree stem (x.taken.length + x.issued.length + 1) (x.counter stem + 1) =
      y.firstFree stem (y.taken.length + y.issued.length + 1) (y.counter stem + 1) := by
    rw [h.firstFree, counter, h.taken, h.issued, h.counters, counter]
  unfold Namer.fresh
  dsimp only
  rw [number]
  exact ⟨rfl, h.taken, by rw [h.issued], by rw [h.counters], h.assigned⟩

theorem Like.assign (hR : Correspondence R) (h : Like R x y) (hab : R a b) (ha : a.isTracked)
    (stem : String) :
    (x.assign a.id stem).1 = (y.assign b.id stem).1 ∧
      Like R (x.assign a.id stem).2 (y.assign b.id stem).2 := by
  unfold Namer.assign
  rw [h.lookup hR hab ha]
  cases y.assigned.lookup b.id with
  | some name => exact ⟨rfl, h⟩
  | none =>
    obtain ⟨name, fresh⟩ := h.fresh stem
    dsimp only
    rw [name]
    exact ⟨rfl, fresh.taken, fresh.issued, fresh.counters,
      .cons ⟨rfl, a, b, hab, ha, rfl, rfl⟩ fresh.assigned⟩

theorem Like.param (hR : Correspondence R) (h : Like R x y) (hab : R a b) (ha : a.isTracked)
    {p q : BindParam} (hpq : p.Like q) :
    (x.param a p).1 = (y.param b q).1 ∧ Like R (x.param a p).2 (y.param b q).2 := by
  unfold Namer.param
  rw [hpq.key, hpq.isUnique]
  cases q.key with
  | none => exact h.assign hR hab ha "param"
  | some key =>
    dsimp only
    split
    · exact h.assign hR hab ha key
    · exact ⟨rfl, h⟩

end Namer

/-- Results that are the same, or failures that are alike. -/
inductive ResultAlike {α : Type} (R : Node → Node → Prop) :
    Except CompileFault α → Except CompileFault α → Prop where
  | ok (x : α) : ResultAlike R (.ok x) (.ok x)
  | error {e e' : CompileFault} : e.Alike R e' → ResultAlike R (.error e) (.error e')

/-- Whether corresponding bound parameters have the same value. -/
def SameValues (R : Node → Node → Prop) : Prop :=
  ∀ {a b : Node} {p q : BindParam}, R a b → a.kind = .bind p → b.kind = .bind q → p.value = q.value

namespace Template

variable {d : Dialect} {s t : Survey} {inline : Bool}

theorem isTracked_of_bind {p : BindParam} (h : a.kind = .bind p) : a.isTracked := by
  rw [isTracked, h, Bool.or_true]

theorem settle_alike (hR : Correspondence R) (hv : inline = true → SameValues R) (hs : s.Like R t)
    {ps qs : List Piece} (hp : Forall₂ (Piece.Like R) ps qs) {x y : Namer} (hn : x.Like R y)
    (reversed : List Segment) :
    ResultAlike R (settle d s inline ps x reversed) (settle d t inline qs y reversed) := by
  induction hp generalizing x y reversed with
  | nil => exact .ok reversed
  | cons hpq _ ih =>
    cases hpq with
    | text sql => exact ih hn _
    | anonymous hab ha =>
      obtain ⟨name, named⟩ := hn.assign hR hab (isTracked_of_isNameless ha) "anon"
      rw [settle, settle]
      dsimp only [Namer.anonymous]
      rw [name]
      exact ih named _
    | @bind a b p q hab ha hb hpq =>
      rw [settle, settle]
      cases hi : inline with
      | true =>
        have value : inlined d p = inlined d q := by
          rw [inlined, inlined, hpq.isExpanding, hv hi hab ha hb]
        rw [if_pos rfl, if_pos rfl, value]
        subst hi
        cases inlined d q with
        | ok sql => exact ih hn _
        | error fault => exact .error (.same fault)
      | false =>
        subst hi
        have tracked := isTracked_of_bind ha
        rw [if_neg Bool.false_ne_true, if_neg Bool.false_ne_true, hs.slot? hR hab tracked]
        cases t.slot? b with
        | none => exact .error (.foreignBind hab ha hb)
        | some slot =>
          obtain ⟨name, named⟩ := hn.param hR hab tracked hpq
          dsimp only
          rw [name, hpq.isExpanding]
          exact ih named _

/-- Layouts that are alike have the same template, or fail alike. -/
theorem ofLayout_alike (hR : Correspondence R) (hv : inline = true → SameValues R) (hs : s.Like R t)
    {x y : Layout} (hl : x.Like R y) :
    ResultAlike R (ofLayout d s inline x) (ofLayout d t inline y) := by
  have start : (Namer.start s.identifiers).Like R (.start t.identifiers) :=
    ⟨hs.identifiers, rfl, rfl, .nil⟩
  have settled := settle_alike (d := d) hR hv hs hl.pieces start []
  unfold ofLayout
  generalize settle d s inline x.pieces (.start s.identifiers) [] = u at settled ⊢
  generalize settle d t inline y.pieces (.start t.identifiers) [] = v at settled ⊢
  cases settled with
  | error h => exact .error h
  | ok reversed =>
    have fault := hl.fault
    generalize x.fault = f at fault ⊢
    generalize y.fault = g at fault ⊢
    cases fault with
    | none => exact .ok _
    | some h => exact .error h

end Template

namespace Simulation

theorem correspondence (h : Simulation R S T) : Correspondence R :=
  ⟨h.likeAll, fun hab hcd ha _ => h.tracked hab hcd ha⟩

/-- Trees that a simulation relates have the same template, or fail alike. -/
theorem template (h : Simulation R S T) (hmn : R m n) (d : Dialect) (bound : Nat) (inline : Bool)
    (hv : inline = true → SameValues R) :
    ResultAlike R (m.template d (m.surveyed bound) inline)
      (n.template d (n.surveyed bound) inline) :=
  Template.ofLayout_alike h.correspondence hv (h.correspondence.surveyed hmn bound)
    ((h.rendered d hmn).statement .nil)

end Simulation

end SqlAlgebra
