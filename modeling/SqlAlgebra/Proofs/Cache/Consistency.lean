import SqlAlgebra.Proofs.Cache.Placeholders
import SqlAlgebra.Proofs.Deferred.Removal
import SqlAlgebra.Proofs.Template.Naming

/-!
# The compiler does not contradict itself

Every bound parameter that is rendered was given a slot by the survey of its tree, a template is
filled only for trees that have the slots of its own, and nothing that is rendered is deferred.  So
of the faults that speak of the compiler itself none occurs, whatever it has compiled before.
-/

namespace SqlAlgebra

open Node

variable {config : CompilerConfig} {c : Compiler} {r : Request} {S : Request → Prop}
  {calls : List Call} {d : Dialect} {n m : Node} {bound : Nat} {inline : Bool}
  {fault : CompileFault} {t : Template}

/-! ## Rendering a tree -/

theorem Dialect.not_internal_of_literal {value : Value} (h : d.literal value = .error fault) :
    ¬fault.IsInternal := by
  unfold Dialect.literal at h
  split at h
  case h_4 =>
    split at h
    · cases h
    · cases h
      exact id
  all_goals
    cases h
    try exact id

theorem Dialect.not_internal_of_literals {values : List Value}
    (h : values.mapM d.literal = .error fault) : ¬fault.IsInternal := by
  induction values with
  | nil => cases h
  | cons value values ih =>
    rw [List.mapM_cons] at h
    cases first : d.literal value with
    | error fault' =>
      rw [first] at h
      cases h
      exact not_internal_of_literal first
    | ok sql =>
      rw [first] at h
      cases rest : values.mapM d.literal with
      | error fault' =>
        rw [rest] at h
        cases h
        exact ih rest
      | ok sqls =>
        rw [rest] at h
        cases h

theorem Template.not_internal_of_inlined {p : BindParam} (h : inlined d p = .error fault) :
    ¬fault.IsInternal := by
  unfold inlined at h
  split at h
  · split at h
    · cases h
    · cases literals : p.value.expand.mapM d.literal with
      | error fault' =>
        rw [literals] at h
        cases h
        exact Dialect.not_internal_of_literals literals
      | ok sqls =>
        rw [literals] at h
        cases h
  · exact Dialect.not_internal_of_literal h

/-- Pieces whose parameters all have slots are settled, or some value cannot be written out. -/
theorem Template.not_internal_of_settle {survey : Survey} {pieces : List Piece} {namer : Namer}
    {reversed : List Segment}
    (slots : ∀ a p, .bind a p ∈ pieces → ∃ slot, survey.slot? a = some slot)
    (h : settle d survey inline pieces namer reversed = .error fault) : ¬fault.IsInternal := by
  induction pieces generalizing namer reversed with
  | nil => cases h
  | cons piece rest ih =>
    have later (a : Node) (p : BindParam) (mem : .bind a p ∈ rest) :
        ∃ slot, survey.slot? a = some slot := slots a p (List.mem_cons_of_mem _ mem)
    cases piece with
    | text sql => exact ih later h
    | anonymous n => exact ih later h
    | bind a p =>
      rw [settle] at h
      cases inline with
      | true =>
        rw [if_pos rfl] at h
        cases literal : inlined d p with
        | error fault' =>
          rw [literal] at h
          cases h
          exact not_internal_of_inlined literal
        | ok sql =>
          rw [literal] at h
          exact ih later h
      | false =>
        obtain ⟨slot, found⟩ := slots a p List.mem_cons_self
        rw [if_neg Bool.false_ne_true, found] at h
        exact ih later h

/-- A coherent tree without deferred expressions has a template, or its author can understand why it
has none. -/
theorem Node.not_internal_of_template (coherent : n.IsCoherent) (plain : n.Plain)
    (h : n.template d (n.surveyed bound) inline = .error fault) : ¬fault.IsInternal := by
  rw [Node.template, Template.ofLayout] at h
  cases settled : Template.settle d (n.surveyed bound) inline (Layout.statement d [] n).pieces
      (.start (n.surveyed bound).identifiers) [] with
  | error fault' =>
    rw [settled] at h
    cases h
    refine Template.not_internal_of_settle (fun a p mem => ?_) settled
    obtain ⟨kind, occurs⟩ := occurs_of_mem_pieces mem
    exact exists_slot coherent occurs kind
  | ok reversed =>
    rw [settled] at h
    dsimp only at h
    split at h
    · next rendered =>
      cases h
      exact (Layout.understood_of_plain d plain).statement [] _ rendered
    · cases h

theorem Survey.not_internal_of_checkNames {first : List (String × BindParam)} {ns : List Node}
    (h : checkNames first ns = .error fault) : ¬fault.IsInternal := by
  induction ns generalizing first with
  | nil => cases h
  | cons n ns ih =>
    unfold checkNames at h
    repeat' split at h
    all_goals first
      | exact ih h
      | (cases h; exact id)

/-! ## Filling a template -/

namespace Compiler

theorem template_of_error {survey : Survey} (h : (c.template n d survey inline).1 = .error fault) :
    n.template d survey inline = .error fault := by
  have plain (h' : (n.template d survey inline).map (·, false) = .error fault) :
      n.template d survey inline = .error fault := by
    cases result : n.template d survey inline with
    | error fault' =>
      rw [result] at h'
      cases h'
      rfl
    | ok t =>
      rw [result] at h'
      cases h'
  cases hk : survey.buffer.key? with
  | none => exact plain ((template_of_none n d inline hk).1 ▸ h)
  | some key =>
    by_cases uncached : (inline || !c.config.caching) = true
    · exact plain ((template_of_uncached n d survey inline uncached).1 ▸ h)
    · obtain ⟨placeholders, caching⟩ : inline = false ∧ c.config.caching = true := by
        simpa using uncached
      subst placeholders
      cases found : (c.cache.get ⟨d.name, key⟩).1 with
      | none => exact plain ((template_of_miss hk caching found).1 ▸ h)
      | some u =>
        rw [(template_of_hit hk caching found).1] at h
        cases h

/-- A template that a sound compiler gives for a tree can be filled with the parameters of the tree.
-/
theorem Sound.exists_assembled (h : Sound config S c) (formed : ∀ r', S r' → r'.Formed)
    (coherent : n.IsCoherent) {hit : Bool}
    (ht : (c.template n d (n.surveyed config.keyBound) inline).1 = .ok (t, hit)) :
    ∃ s, t.assemble d (n.surveyed config.keyBound).binds = .ok s := by
  cases inline with
  | true =>
    have rendered : n.template d (n.surveyed config.keyBound) true = .ok t := by
      rw [(template_of_uncached n d _ true rfl).1] at ht
      exact (rendered_of_map ht).2
    obtain ⟨later, parts, -, -, -, assembles⟩ := Template.exists_inlined rendered
    obtain ⟨s, assembled, -⟩ := assembles d (n.surveyed config.keyBound).binds
    exact ⟨s, assembled⟩
  | false =>
    obtain ⟨-, rendered⟩ | ⟨-, key, hk, holds⟩ := template_cases ht
    · obtain ⟨-, s, assembled, -⟩ := exists_fills_same (d := d) coherent rendered
      exact ⟨s, assembled⟩
    · obtain ⟨-, -, r', m, hr', reaches, -, rendered⟩ := h.holds holds
      have coherent' : m.IsCoherent := (formed r' hr').isCoherent reaches
      obtain ⟨shape, objects⟩ := sameShape_of_key? coherent' coherent reaches.key hk
      obtain ⟨-, s, -, assembled, -⟩ := exists_fills (d := d) (shape.correspondence objects) .root
        (fun beside => ⟨beside.occurs_left, beside.occurs_right⟩) coherent' rendered
      exact ⟨s, assembled⟩

/-- A sound compiler makes a statement of a tree, or the author of the tree can understand why it
makes none. -/
theorem Sound.not_internal_of_filled (h : Sound config S c) (formed : ∀ r', S r' → r'.Formed)
    (coherent : n.IsCoherent) (plain : n.Plain) (filled : c.filled n d inline = .error fault) :
    ¬fault.IsInternal := by
  unfold Compiler.filled at filled
  rw [h.sameConfig] at filled
  cases made : (c.template n d (n.surveyed config.keyBound) inline).1 with
  | error fault' =>
    rw [made] at filled
    cases filled
    exact not_internal_of_template coherent plain (template_of_error made)
  | ok found =>
    rw [made] at filled
    obtain ⟨s, assembled⟩ := h.exists_assembled formed coherent made
    cases assembled.symm.trans filled

theorem Sound.not_internal_of_respond (h : Sound config S c) (formed : ∀ r', S r' → r'.Formed)
    (hr : r.Formed) (failed : (c.respond r).1 = .error (.compile fault)) :
    ¬fault.IsInternal ∨ ∃ k i, r.factories k r.options.scope i = .error (.compile fault) := by
  obtain ⟨K, heap, root, within⟩ := hr
  cases resolved : r.tree.resolved r.factories r.options.scope r.next with
  | error e =>
    rw [respond_of_unresolved resolved] at failed
    cases failed
    exact (failsAs_of_resolved resolved).elim False.elim .inr
  | ok found =>
    rcases found with ⟨⟨n, diagnostics⟩, next⟩
    refine .inl ?_
    cases names : (n.surveyed c.config.keyBound).checkBindNames with
    | error fault' =>
      rw [respond_of_names resolved names] at failed
      cases failed
      exact Survey.not_internal_of_checkNames names
    | ok =>
      rw [respond_of_resolved resolved names] at failed
      have counted : Sound config S c.counted := h.of_cache rfl rfl fun _ _ hk => hk
      cases filled : c.counted.filled n r.dialect r.options.literalBinds with
      | error fault' =>
        rw [filled] at failed
        cases failed
        exact counted.not_internal_of_filled formed
          (isCoherent_of_resolved heap root within resolved)
          (plain_of_resolved heap root within resolved) filled
      | ok s =>
        rw [filled] at failed
        cases failed

/-- A compiler never fails because of a contradiction of its own: no parameter is missing in a slot
of a template, none is foreign to the statement, and no expression is still deferred when it is
rendered.  This is so of every request about nodes that exist, in any dialect and with any options,
after whatever calls.  Only a factory can report such a fault, as any other. -/
theorem not_internal_of_compile (formed : ∀ r' ∈ calls.filterMap Call.request?, r'.Formed)
    (hr : r.Formed)
    (failed : (((Compiler.new config).after calls).compile r.factories r.tree r.dialect r.options
      r.next).1 = .error (.compile fault)) :
    ¬fault.IsInternal ∨ ∃ k i, r.factories k r.options.scope i = .error (.compile fault) := by
  have sound : Sound config (· ∈ calls.filterMap Call.request?)
      ((Compiler.new config).after calls) := sound_new.after fun _ h => h
  refine sound.not_internal_of_respond formed hr ?_
  unfold respond
  generalize Compiler.compile _ _ _ _ _ _ = x at failed
  rcases x with ⟨answer, c'⟩
  obtain rfl : answer = .error (.compile fault) := failed
  rfl

end Compiler

section Sample

/-- An expression in an ORDER BY clause that is made when the statement is compiled. -/
def sampleLate : Node := ⟨1, .deferred ⟨0, 0⟩ .orderBy, .null, [], []⟩

/-- `SELECT 1` in an order that a factory decides on. -/
def sampleOrdered : Node :=
  ⟨3, .select ⟨[sampleOne], [], none, [], none, [sampleLate], none, none, false, true⟩, .null, [],
    []⟩

/-- A compilation of it where the factory names a column that is not there. -/
def Request.sampleOrdered : Request :=
  { Request.sample SqlAlgebra.sampleOrdered with factories := fun _ _ => pure (.string "z") }

theorem formed_sampleOrdered : Request.sampleOrdered.Formed := by
  refine ⟨(· ∈ [sampleLate, sampleOne, sampleOrdered]), Heap.valid_of_list ?_ ?_ ?_, ?_,
    fun _ => .pure nofun⟩
  · simp [children, Kind.children, Select.children, sampleLate, sampleOne, sampleOrdered]
  · simp [sampleLate, sampleOne, sampleOrdered]
  · simp [Request.sampleOrdered, Request.sample, sampleLate, sampleOne, sampleOrdered]
  · simp [Request.sampleOrdered, Request.sample]

/-- The answer to it on a compiler that has compiled something else. -/
def sampleRefusal : Except Error (Compiled × Identity) :=
  let r := Request.sampleOrdered
  (((Compiler.new {}).after [.compile (.sample (sampleMembers [1, 2]))]).compile r.factories r.tree
    r.dialect r.options r.next).1

end Sample

/-- What a factory makes is refused because of the column that it names. -/
theorem Compiler.not_internal_sampleOrdered :
    (Request.sample (sampleMembers [1, 2])).Formed ∧ Request.sampleOrdered.Formed ∧
      sampleRefusal = .error (.compile (.unresolvedLabel "z")) ∧
      (¬(CompileFault.unresolvedLabel "z").IsInternal ∨
        ∃ k i, Request.sampleOrdered.factories k .empty i =
          .error (.compile (.unresolvedLabel "z"))) := by
  have run : sampleRefusal.map (fun _ => ()) = .error (.compile (.unresolvedLabel "z")) := by
    decide +kernel
  have refused : sampleRefusal = .error (.compile (.unresolvedLabel "z")) := by
    cases out : sampleRefusal with
    | error e =>
      rw [out] at run
      cases run
      rfl
    | ok answer =>
      rw [out] at run
      cases run
  refine ⟨formed_sampleMembers _, formed_sampleOrdered, refused, ?_⟩
  refine @not_internal_of_compile {} .sampleOrdered [.compile (.sample (sampleMembers [1, 2]))] _
    (fun r' hr' => ?_) formed_sampleOrdered refused
  obtain rfl := List.mem_singleton.1 hr'
  exact formed_sampleMembers _

end SqlAlgebra
