import SqlAlgebra.Proofs.Reading.Parenthesization
import SqlAlgebra.Proofs.Survey.Bounds

/-!
# How a compiler is set up

The bound on keys, the capacity and the caching switch decide which templates are kept and for how long.
They do not show in what a new compiler makes of a tree: all of its surveys agree on what rendering takes
from them, and it has no template yet.
-/

namespace SqlAlgebra

open Survey

variable {s : Survey} {key : Key} {n : Node} {d : Dialect} {inline : Bool}

namespace Template

/-- Settling the names of a layout takes no more from a survey than its slots. -/
theorem settle_bounded (bound : Nat) (pieces : List Piece) (namer : Namer)
    (reversed : List Segment) :
    settle d (s.bounded key bound) inline pieces namer reversed =
      settle d s inline pieces namer reversed := by
  induction pieces generalizing namer reversed with
  | nil => rfl
  | cons piece rest ih =>
    have slot (a : Node) : (s.bounded key bound).slot? a = s.slot? a := rfl
    cases piece with
    | text sql => exact ih _ _
    | anonymous a => exact ih _ _
    | bind a p => simp only [settle, slot, ih]

end Template

theorem Node.template_bounded (bound : Nat) :
    n.template d (s.bounded key bound) inline = n.template d s inline := by
  rw [Node.template, Template.ofLayout, Template.settle_bounded]
  rfl

namespace Compiler

/-- What a compiler makes of a tree without deferred expressions if it does not use its cache. -/
def made (n : Node) (d : Dialect) (inline : Bool) (survey : Survey) :
    Except CompileFault Compiled := do
  survey.checkBindNames
  let template ← n.template d survey inline
  let statement ← template.assemble d survey.binds
  .ok ⟨statement.sql, statement.params, survey.diagnostics, false⟩

theorem made_bounded (bound : Nat) : made n d inline (s.bounded key bound) = made n d inline s := by
  unfold made
  rw [Node.template_bounded]
  rfl

theorem compileResolved_new (config : CompilerConfig) (n : Node) (d : Dialect) (inline : Bool) :
    ((new config).compileResolved n d inline).1 = made n d inline (n.surveyed config.keyBound) := by
  have rendered := @template_new config n d (n.surveyed config.keyBound) inline
  unfold made
  cases names : (n.surveyed config.keyBound).checkBindNames with
  | error fault =>
    rw [compileResolved_of_error (c := .new config) names]
    rfl
  | ok =>
    rw [compileResolved_of_ok (c := .new config) d inline names]
    dsimp only [new] at rendered ⊢
    rw [rendered]
    cases n.template d (n.surveyed config.keyBound) inline <;> rfl

/-- New compilers answer alike, however they are set up. -/
theorem compile_new (config config' : CompilerConfig) (r : Request) :
    ((new config).compile r.factories r.tree r.dialect r.options r.next).1 =
      ((new config').compile r.factories r.tree r.dialect r.options r.next).1 := by
  cases resolved : r.tree.resolved r.factories r.options.scope r.next with
  | error e => rw [compile_of_error resolved, compile_of_error resolved]
  | ok found =>
    rcases found with ⟨⟨n, diagnostics⟩, next⟩
    obtain ⟨s, key, surveyed⟩ := n.exists_bounded
    rw [compile_of_ok _ _ resolved, compile_of_ok _ _ resolved, compileResolved_new,
      compileResolved_new, surveyed, surveyed, made_bounded, made_bounded]

/-- The bound on keys decides about the key of a tree and about nothing else.  There is one key, which
a survey ends with exactly if it is not longer than the bound.  The parameters and their slots, the
identifiers and what is reported are the same under all bounds.  So a new compiler gives the same
answer whatever its bound, its capacity and its caching switch are. -/
theorem bound_decides_key (n : Node) :
    (∃ key : Key, ∀ bound, (n.surveyed bound).buffer.key? =
      if key.length ≤ bound then some key else none) ∧
    (∀ bound bound', (n.surveyed bound).binds = (n.surveyed bound').binds ∧
      (∀ a, (n.surveyed bound).slot? a = (n.surveyed bound').slot? a) ∧
      (n.surveyed bound).identifiers = (n.surveyed bound').identifiers ∧
      (n.surveyed bound).diagnostics = (n.surveyed bound').diagnostics) ∧
    ∀ config config' factories d options next,
      ((new config).compile factories n d options next).1 =
        ((new config').compile factories n d options next).1 := by
  obtain ⟨s, key, surveyed⟩ := n.exists_bounded
  refine ⟨⟨key, fun bound => ?_⟩, fun bound bound' => ?_, fun config config' f d options next => ?_⟩
  · rw [surveyed]
    exact KeyBuffer.key?_filled bound key
  · rw [surveyed, surveyed]
    exact ⟨rfl, fun _ => rfl, rfl, rfl⟩
  · exact compile_new config config' ⟨f, n, d, options, next⟩

end Compiler

end SqlAlgebra
