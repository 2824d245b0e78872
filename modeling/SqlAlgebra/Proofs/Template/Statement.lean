import SqlAlgebra.Proofs.Template.Likeness

/-!
# Statements of trees with the same parameters

Trees that are rendered alike and have the same bound parameters at corresponding places are
compiled to the same statement, and leave the same behind in a compiler.
-/

namespace SqlAlgebra

open List (Forall₂)
open Node

variable {R S T : Node → Node → Prop} {a b m n : Node} {ms ns : List Node}

/-- The bound parameter that a node is. -/
def Node.param? (n : Node) : Option BindParam :=
  match n.kind with
  | .bind p => some p
  | _ => none

theorem Node.param?_of_bind {p : BindParam} (h : n.kind = .bind p) : n.param? = some p := by
  rw [param?, h]

theorem Survey.checkNames_cons (first : List (String × BindParam)) (n : Node) (ns : List Node) :
    checkNames first (n :: ns) =
      match n.param? with
      | some b =>
        match b.key with
        | some key =>
          if b.isUnique then checkNames first ns
          else
            match first.lookup key with
            | none => checkNames ((key, b) :: first) ns
            | some other =>
              if agree other b then checkNames first ns else .error (.conflictingBinds key)
        | none => checkNames first ns
      | none => checkNames first ns := by
  rcases n with ⟨i, kind, type, annotations, diagnostics⟩
  cases kind <;> rfl

/-- The names of parameters are checked without regard to the nodes that the parameters are. -/
theorem Survey.checkNames_eq (first : List (String × BindParam))
    (h : ms.map Node.param? = ns.map Node.param?) : checkNames first ms = checkNames first ns := by
  induction ms generalizing first ns with
  | nil =>
    obtain rfl := List.map_eq_nil_iff.1 h.symm
    rfl
  | cons m ms ih =>
    cases ns with
    | nil => cases h
    | cons n ns =>
      obtain ⟨param, params⟩ := List.cons.inj h
      have rest (first : List (String × BindParam)) : checkNames first ms = checkNames first ns :=
        ih first params
      rw [checkNames_cons, checkNames_cons, param]
      simp only [rest]

/-- Parameters are filled in without regard to the nodes that they are. -/
theorem Template.assemble_eq (t : Template) (d : Dialect) (h : ms.map param? = ns.map param?) :
    t.assemble d ms = t.assemble d ns := by
  have value (slot : Nat) : valueAt? ms slot = valueAt? ns slot := by
    have read (ns : List Node) : valueAt? ns slot =
        ((ns.map param?)[slot]?.bind id).map BindParam.value := by
      rw [valueAt?, List.getElem?_map]
      cases ns[slot]? with
      | none => rfl
      | some n =>
        rcases n with ⟨i, kind, type, annotations, diagnostics⟩
        cases kind <;> rfl
    rw [read, read, h]
  have filled (before : Nat) (segment : Segment) :
      fill d ms before segment = fill d ns before segment := by
    cases segment with
    | text => rfl
    | bind slot name isExpanding => rw [fill, fill, value]
  unfold assemble
  simp only [filled]

namespace Simulation

theorem repr_eq (params : ∀ {a b : Node}, R a b → a.param? = b.param?) (hab : R a b)
    {p q : BindParam}
    (ha : a.kind = .bind p) (hb : b.kind = .bind q) : a.repr = b.repr := by
  have same := params hab
  rw [param?_of_bind ha, param?_of_bind hb] at same
  cases same
  rw [Node.repr, Node.repr, ha, hb]

/-- Trees that a simulation relates and that have the same parameters have the same template. -/
theorem template_eq (h : Simulation R S T) (params : ∀ {a b : Node}, R a b → a.param? = b.param?)
    (hmn : R m n) (d : Dialect) (bound : Nat) (inline : Bool) :
    m.template d (m.surveyed bound) inline = n.template d (n.surveyed bound) inline := by
  have values : SameValues R := fun hab ha hb => by
    have same := params hab
    rw [param?_of_bind ha, param?_of_bind hb] at same
    cases same
    rfl
  have alike := h.template hmn d bound inline fun _ => values
  generalize m.template d (m.surveyed bound) inline = x at alike
  generalize n.template d (n.surveyed bound) inline = y at alike
  cases alike with
  | ok => rfl
  | error fault =>
    cases fault with
    | same => rfl
    | notAFromElement hab ha hb | namelessRow hab ha hb | foreignBind hab ha hb =>
      rw [repr_eq params hab ha hb]

end Simulation

/-- What is made of a statement: its text, its parameters, and whether the text came from the
cache. -/
def Compiled.statement (compiled : Compiled) : String × ParamList × Bool :=
  (compiled.sql, compiled.params, compiled.cacheHit)

namespace Simulation

/-- Trees that a simulation relates and that have the same parameters are compiled to the same
statement, and leave the same behind. -/
theorem compileResolved_eq (h : Simulation R S T)
    (params : ∀ {a b : Node}, R a b → a.param? = b.param?) (hmn : R m n) (c : Compiler)
    (d : Dialect)
    (inline : Bool) :
    (c.compileResolved m d inline).1.map Compiled.statement =
        (c.compileResolved n d inline).1.map Compiled.statement ∧
      (c.compileResolved m d inline).2 = (c.compileResolved n d inline).2 := by
  have surveys := h.correspondence.surveyed hmn c.config.keyBound
  have binds : (m.surveyed c.config.keyBound).binds.map param? =
      (n.surveyed c.config.keyBound).binds.map param? := by
    rw [← List.forall₂_eq_eq_eq, List.forall₂_map_left_iff, List.forall₂_map_right_iff]
    exact surveys.binds.imp fun _ _ hab => params hab.1
  have names : (m.surveyed c.config.keyBound).checkBindNames =
      (n.surveyed c.config.keyBound).checkBindNames := Survey.checkNames_eq [] binds
  have template (c' : Compiler) : c'.template m d (m.surveyed c.config.keyBound) inline =
      c'.template n d (n.surveyed c.config.keyBound) inline := by
    unfold Compiler.template
    rw [surveys.buffer, h.template_eq params hmn d c.config.keyBound inline,
      h.template_eq params hmn d c.config.keyBound false]
  unfold Compiler.compileResolved
  dsimp only
  rw [names, template]
  cases (n.surveyed c.config.keyBound).checkBindNames with
  | error fault => exact ⟨rfl, rfl⟩
  | ok =>
    dsimp only
    generalize Compiler.template _ n d _ inline = x
    rcases x with ⟨fault | ⟨t, hit⟩, c'⟩
    · exact ⟨rfl, rfl⟩
    · dsimp only
      rw [t.assemble_eq d binds]
      cases t.assemble d (n.surveyed c.config.keyBound).binds <;> exact ⟨rfl, rfl⟩

end Simulation

end SqlAlgebra
