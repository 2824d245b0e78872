import SqlAlgebra.Layout.Render
import SqlAlgebra.Proofs.Tree.Likeness

/-!
# Layouts that are alike

Two layouts are alike if they are the same but for the nodes in them, which are related one to
another.  Failures are alike if they are the same, or name two bound parameters of which one stands
for the other: a message shows the value of a parameter, and values may differ.
-/

namespace SqlAlgebra

open List (Forall₂)

/-- Failures that are the same but for the bound parameters that they name. -/
inductive CompileFault.Alike (R : Node → Node → Prop) : CompileFault → CompileFault → Prop where
  | same (fault : CompileFault) : Alike R fault fault
  | notAFromElement {a b : Node} {p q : BindParam} :
      R a b → a.kind = .bind p → b.kind = .bind q →
        Alike R (.notAFromElement a.repr) (.notAFromElement b.repr)
  | namelessRow {a b : Node} {p q : BindParam} :
      R a b → a.kind = .bind p → b.kind = .bind q →
        Alike R (.namelessRow a.repr) (.namelessRow b.repr)
  | foreignBind {a b : Node} {p q : BindParam} :
      R a b → a.kind = .bind p → b.kind = .bind q →
        Alike R (.foreignBind a.repr) (.foreignBind b.repr)

/-- Pieces that are the same but for the nodes in them. -/
inductive Piece.Like (R : Node → Node → Prop) : Piece → Piece → Prop where
  | text (sql : String) : Like R (.text sql) (.text sql)
  | anonymous {a b : Node} : R a b → a.isNameless → Like R (.anonymous a) (.anonymous b)
  | bind {a b : Node} {p q : BindParam} :
      R a b → a.kind = .bind p → b.kind = .bind q → p.Like q → Like R (.bind a p) (.bind b q)

namespace Layout

variable {R : Node → Node → Prop} {x y x' y' : Layout}

structure Like (R : Node → Node → Prop) (x y : Layout) : Prop where
  pieces : Forall₂ (Piece.Like R) x.pieces y.pieces
  fault : Option.Rel (CompileFault.Alike R) x.fault y.fault

namespace Like

theorem empty : Like R Layout.empty Layout.empty := ⟨.nil, .none⟩

theorem piece {p q : Piece} (h : p.Like R q) : Like R (Layout.piece p) (Layout.piece q) :=
  ⟨.cons h .nil, .none⟩

theorem text (sql : String) : Like R (Layout.text sql) (Layout.text sql) := piece (.text sql)

theorem fail {e e' : CompileFault} (h : e.Alike R e') : Like R (Layout.fail e) (Layout.fail e') :=
  ⟨.nil, .some h⟩

theorem fails (e : CompileFault) : Like R (Layout.fail e) (Layout.fail e) := fail (.same e)

theorem append (h : Like R x y) (h' : Like R x' y') : Like R (x ++ x') (y ++ y') := by
  rcases x with ⟨xs, e⟩
  rcases y with ⟨ys, e'⟩
  obtain ⟨pieces, fault⟩ := h
  cases fault with
  | none => exact ⟨List.rel_append pieces h'.pieces, h'.fault⟩
  | some h => exact ⟨pieces, .some h⟩

theorem separated (separator : String) {xs ys : List Layout} (h : Forall₂ (Like R) xs ys) :
    Like R (Layout.separated separator xs) (Layout.separated separator ys) := by
  induction h with
  | nil => exact empty
  | cons h hs ih =>
    cases hs with
    | nil => exact h
    | cons _ _ => exact (h.append (text separator)).append ih

theorem parenthesized (h : Like R x y) : Like R (Layout.parenthesized x) (Layout.parenthesized y) :=
  ((text "(").append h).append (text ")")

theorem parenthesizedIf (needed : Bool) (h : Like R x y) :
    Like R (Layout.parenthesizedIf needed x) (Layout.parenthesizedIf needed y) := by
  unfold Layout.parenthesizedIf
  cases needed
  · exact h
  · exact h.parenthesized

theorem optional {α β : Type} {Q : α → β → Prop} {a : Option α} {b : Option β} {f : α → Layout}
    {g : β → Layout} (h : Option.Rel Q a b) (hfg : ∀ a b, Q a b → Like R (f a) (g b)) :
    Like R (Layout.optional a f) (Layout.optional b g) := by
  cases h with
  | none => exact empty
  | some h => exact hfg _ _ h

theorem clause {α : Type} (a : Option α) (f : α → Layout) (hf : ∀ a, Like R (f a) (f a)) :
    Like R (Layout.optional a f) (Layout.optional a f) := by
  cases a with
  | none => exact empty
  | some a => exact hf a

theorem ite (c : Prop) [Decidable c] (h : Like R x y) (h' : Like R x' y') :
    Like R (if c then x else x') (if c then y else y') := by
  split
  · exact h
  · exact h'

end Like

end Layout

end SqlAlgebra
