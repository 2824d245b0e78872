import SqlAlgebra.Proofs.Deferred.Substitution
import SqlAlgebra.Proofs.Survey.Reports
import SqlAlgebra.Proofs.Template.Statement
import SqlAlgebra.Proofs.Tree.Annotation

/-!
# Statements of trees without their annotations

Annotations do not show in what a statement is compiled to.  A tree without its annotations has the
nodes of the tree in other copies, one for one, so it is surveyed, rendered and filled in as the tree
is, and the same was reported about it.
-/

namespace SqlAlgebra

open List (Forall₂)
open Node

theorem Compiled.eq_of_statement {a b : Compiled} (statement : a.statement = b.statement)
    (diagnostics : a.diagnostics = b.diagnostics) : a = b := by
  rcases a with ⟨sql, params, reported, hit⟩
  rcases b with ⟨sql', params', reported', hit'⟩
  cases statement
  cases diagnostics
  rfl

/-- A compiled statement comes with what was reported while its nodes were built. -/
theorem Compiler.compileResolved_diagnostics {c : Compiler} {n : Node} {d : Dialect}
    {inline : Bool} {compiled : Compiled} (h : (c.compileResolved n d inline).1 = .ok compiled) :
    compiled.diagnostics = (n.surveyed c.config.keyBound).diagnostics := by
  unfold compileResolved at h
  dsimp only at h
  cases names : (n.surveyed c.config.keyBound).checkBindNames with
  | error fault =>
    rw [names] at h
    cases h
  | ok =>
    rw [names] at h
    dsimp only at h
    generalize Compiler.template _ n d _ inline = x at h
    rcases x with ⟨fault | ⟨t, hit⟩, c'⟩
    · cases h
    · dsimp only at h
      cases filled : t.assemble d (n.surveyed c.config.keyBound).binds with
      | error fault =>
        rw [filled] at h
        cases h
      | ok statement =>
        rw [filled] at h
        cases h
        rfl

/-- Trees that correspond fully, with the same parameters, are compiled to the same, and leave the
same behind. -/
theorem Node.FullCorrespondence.compileResolved_eq {R : Node → Node → Prop} {m n : Node}
    (hR : FullCorrespondence R) (params : ∀ {a b : Node}, R a b → a.param? = b.param?) (h : R m n)
    (c : Compiler) (d : Dialect) (inline : Bool) :
    c.compileResolved m d inline = c.compileResolved n d inline := by
  have simulation : Simulation R R R :=
    ⟨hR.like, fun hab => hab, fun hab => hab, fun hab hcd _ => hR.identities hab hcd,
      hR.identities, hR.identities⟩
  obtain ⟨statement, compiler⟩ := simulation.compileResolved_eq params h c d inline
  apply Prod.ext _ compiler
  have reports := hR.diagnostics_eq h c.config.keyBound
  cases hm : (c.compileResolved m d inline).1 with
  | error fault =>
    rw [hm] at statement
    cases hn : (c.compileResolved n d inline).1 with
    | error fault' =>
      rw [hn] at statement
      cases statement
      rfl
    | ok compiled =>
      rw [hn] at statement
      cases statement
  | ok compiled =>
    rw [hm] at statement
    cases hn : (c.compileResolved n d inline).1 with
    | error fault' =>
      rw [hn] at statement
      cases statement
    | ok compiled' =>
      rw [hn] at statement
      refine congrArg Except.ok (Compiled.eq_of_statement (Except.ok.inj statement) ?_)
      rw [Compiler.compileResolved_diagnostics hm, Compiler.compileResolved_diagnostics hn, reports]

namespace Node

variable {K : Heap} {low next : Identity} {n a b : Node} {f : Node → Node}

/-- The nodes of a tree with what they become. -/
def ImageIn (n : Node) (f : Node → Node) (a b : Node) : Prop := Occurs a n ∧ b = f a

/-- The copies without annotations correspond to the nodes that they are copies of. -/
theorem Strips.correspondence (h : Strips low n f) (hK : K.Valid next) (hn : K n) :
    FullCorrespondence (n.ImageIn f) := by
  have identities {a b c d : Node} (hab : n.ImageIn f a b) (hcd : n.ImageIn f c d) :
      a.id = c.id ↔ b.id = d.id := by
    obtain ⟨ha, rfl⟩ := hab
    obtain ⟨hc, rfl⟩ := hcd
    constructor
    · intro same
      rw [hK.unique (hK.occurs hn ha) (hK.occurs hn hc) same]
    · intro same
      rw [h.apart a c ha hc same]
  refine ⟨⟨fun {a b} hab => ?_, fun hab hcd _ _ => identities hab hcd⟩, identities,
    fun {a b} hab => ?_⟩
  · obtain ⟨ha, rfl⟩ := hab
    have children : Forall₂ (n.ImageIn f) a.children (a.children.map f) := by
      rw [List.forall₂_map_right_iff, List.forall₂_same]
      exact fun c hc => ⟨.trans (.deeper hc .root) ha, rfl⟩
    have like := Kind.refill_like (k := a.kind) rfl children
    rw [Node.children, Kind.refill_children] at like
    rw [h.image a ha]
    refine ⟨like, World.visibleType_eq like rfl⟩
  · obtain ⟨ha, rfl⟩ := hab
    rw [h.image a ha]

theorem Strips.param?_eq (h : Strips low n f) (hab : n.ImageIn f a b) : a.param? = b.param? := by
  obtain ⟨ha, rfl⟩ := hab
  rw [h.image a ha]
  unfold param?
  cases a.kind <;> rfl

theorem Strips.isDeferred_eq (h : Strips low n f) (ha : Occurs a n) :
    (f a).isDeferred = a.isDeferred := by
  rw [h.image a ha]
  unfold isDeferred
  cases a.kind <;> rfl

/-- A tree without deferred expressions and the tree without its annotations are compiled to the
same by every compiler, for every database and with all options. -/
theorem Strips.compile_eq (h : Strips low n f) (hK : K.Valid next) (hn : K n)
    (plain : n.containsDeferred = false) (c : Compiler) (factories : Factories) (d : Dialect)
    (options : CompileOptions) (i : Identity) :
    c.compile factories (f n) d options i = c.compile factories n d options i := by
  have none {x : Node} (hx : Occurs x n) : x.isDeferred = false :=
    isDeferred_of_not_containsDeferred hK hn plain hx
  have none' {y : Node} (hy : Occurs y (f n)) : y.isDeferred = false := by
    obtain ⟨x, hx, rfl⟩ := h.exists_of_occurs hy
    rw [h.isDeferred_eq hx, none hx]
  have same := (h.correspondence hK hn).compileResolved_eq h.param?_eq ⟨.root, rfl⟩ c d
    options.literalBinds
  unfold Compiler.compile
  rw [resolved_of_plain fun _ => none, resolved_of_plain fun _ => none']
  dsimp only
  rw [same]

/-- The annotations of a tree can be taken off.  The copies stand as the nodes did that they are
copies of; the tree has the same key and is compiled to the same as before.  A tree that has no
annotations stays itself, so nothing changes where they are taken off again. -/
theorem compiles_alike_deannotated (hK : K.Valid low) (hn : K n)
    (plain : n.containsDeferred = false) :
    ∃ out next' f, n.deepDeannotate low = .ok (out, next') ∧ out = f n ∧ Strips low n f ∧
      (∀ y, Occurs y out → y.annotations = []) ∧
      (∀ bound, (out.surveyed bound).buffer.key? = (n.surveyed bound).buffer.key?) ∧
      (∀ (c : Compiler) (factories : Factories) (d : Dialect) (options : CompileOptions)
        (i : Identity), c.compile factories out d options i = c.compile factories n d options i) ∧
      ((∀ y, Occurs y n → y.annotations = []) → out = n) ∧
      ∃ next'', out.deepDeannotate next' = .ok (out, next'') := by
  obtain ⟨next', f, run, strips, H, valid, hout⟩ := exists_strips hK hn
  have bare (y : Node) (hy : Occurs y (f n)) : y.annotations = [] := by
    obtain ⟨x, hx, rfl⟩ := strips.exists_of_occurs hy
    exact strips.annotations hx
  have key (bound : Nat) :
      ((f n).surveyed bound).buffer.key? = (n.surveyed bound).buffer.key? := by
    have surveys := (strips.correspondence hK hn).toCorrespondence.surveyed ⟨.root, rfl⟩ bound
    rw [surveys.buffer]
  obtain ⟨next'', g, again, strips', -⟩ := exists_strips valid hout
  rw [strips'.untouched .root bare] at again
  exact ⟨f n, next', f, run, rfl, strips, bare, key, strips.compile_eq hK hn plain,
    strips.untouched .root, next'', again⟩

section Sample

theorem containsDeferred_sampleRange : sampleRange.containsDeferred = false := by
  refine containsDeferred_eq_false fun x hx => ?_
  have mem := valid_sampleRange.occurs (by simp) hx
  simp only [sampleRange, children, Kind.children, List.mem_cons, List.not_mem_nil,
    or_false] at mem
  rcases mem with rfl | rfl | rfl | rfl | rfl | rfl | rfl <;> rfl

/-- One of two conditions on one column has an annotation. -/
theorem compiles_alike_sampleRange :
    ∃ out next' f, sampleRange.deepDeannotate 7 = .ok (out, next') ∧ out = f sampleRange ∧
      Strips 7 sampleRange f ∧ (∀ y, Occurs y out → y.annotations = []) ∧
      ∀ (c : Compiler) (d : Dialect) (options : CompileOptions),
        c.compile (fun _ _ => pure .nothing) out d options 9 =
          c.compile (fun _ _ => pure .nothing) sampleRange d options 9 := by
  obtain ⟨out, next', f, run, root, strips, bare, -, same, -⟩ :=
    compiles_alike_deannotated valid_sampleRange (by simp) containsDeferred_sampleRange
  exact ⟨out, next', f, run, root, strips, bare, fun c d options => same c _ d options 9⟩

end Sample

end Node

end SqlAlgebra
