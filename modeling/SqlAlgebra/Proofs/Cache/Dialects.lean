import SqlAlgebra.Proofs.Cache.Literals
import SqlAlgebra.Proofs.Layout.Dialects

/-!
# The same parameters for every database

The databases that page rows with LIMIT and OFFSET take the same parameters for a tree: in the order in
which they are open in its layout, under names that are made up in this order, too.  What a dialect
spells in its own way is text and takes no part in this.
-/

namespace SqlAlgebra

open Node

/-- The parameters of some pieces are those of the pieces that are open, in any dialect. -/
theorem Part.params_ofPieces (d d' : Dialect) (pieces : List Piece) (namer : Namer) :
    (ofPieces d pieces namer).flatMap params =
      (ofPieces d' (pieces.filter Piece.isOpen) namer).flatMap params := by
  induction pieces generalizing namer with
  | nil => rfl
  | cons piece rest ih =>
    cases piece with
    | text sql => exact ih namer
    | anonymous n => exact ih _
    | bind n b => exact congrArg ((param n b (namer.param n b).1).params ++ ·) (ih _)

/-- A statement that is rendered in two dialects has the same parameters in both. -/
theorem Node.params_parts {d d' : Dialect} (h : d.KeepsOrder) (h' : d'.KeepsOrder) {n : Node}
    (bound : Nat) (sound : (Layout.statement d [] n).fault = none)
    (sound' : (Layout.statement d' [] n).fault = none) :
    (n.parts d bound).flatMap Part.params = (n.parts d' bound).flatMap Part.params := by
  have same := Layout.openPieces_statement h h' [] n sound sound'
  unfold Node.parts
  rw [Part.params_ofPieces d d, Part.params_ofPieces d' d]
  exact congrArg (fun pieces => (Part.ofPieces d pieces _).flatMap Part.params) same

/-- A request for another database. -/
def Request.inDialect (r : Request) (d : Dialect) : Request := { r with dialect := d }

namespace Compiler

variable {config : CompilerConfig} {r : Request} {calls calls' : List Call} {d d' : Dialect}
  {compiled compiled' : Compiled} {next next' : Identity} {n : Node}
  {diagnostics : List Diagnostic}

theorem alone_of_resolved (placeholders : r.options.literalBinds = false)
    (resolved : r.tree.resolved r.factories r.options.scope r.next = .ok ((n, diagnostics), next))
    (names : (n.surveyed config.keyBound).checkBindNames = .ok ()) :
    r.alone config = report (n.surveyed config.keyBound) diagnostics next
      ((n.template r.dialect (n.surveyed config.keyBound) false).bind
        (·.assemble r.dialect (n.surveyed config.keyBound).binds)) := by
  have rendering := @template_new config.withoutCache n r.dialect (n.surveyed config.keyBound) false
  rw [Request.alone, respond_of_resolved (c := .new config.withoutCache) resolved names,
    placeholders, filled_of_plain rfl rendering]
  rfl

/-- What a compiler answers on its own has the parameters of the parts of the tree. -/
theorem exists_params_of_alone (hr : r.Formed) (placeholders : r.options.literalBinds = false)
    (h : r.alone config = .ok (compiled, next)) :
    ∃ n diagnostics,
      r.tree.resolved r.factories r.options.scope r.next = .ok ((n, diagnostics), next) ∧
      (Layout.statement r.dialect [] n).fault = none ∧
      compiled.params.entries = (n.parts r.dialect config.keyBound).flatMap Part.params ∧
      compiled.diagnostics = (n.surveyed config.keyBound).diagnostics ++ diagnostics := by
  cases resolved : r.tree.resolved r.factories r.options.scope r.next with
  | error e =>
    rw [Request.alone, respond_of_unresolved resolved] at h
    cases h
  | ok found =>
    rcases found with ⟨⟨n, diagnostics⟩, next'⟩
    cases names : (n.surveyed config.keyBound).checkBindNames with
    | error fault =>
      rw [Request.alone, respond_of_names (c := .new config.withoutCache) resolved names] at h
      cases h
    | ok =>
      rw [alone_of_resolved placeholders resolved names] at h
      cases rendered : n.template r.dialect (n.surveyed config.keyBound) false with
      | error fault =>
        rw [rendered] at h
        cases h
      | ok t =>
        obtain ⟨-, s, assembled, made⟩ := exists_fills_same (d := r.dialect)
          (hr.isCoherent_of_resolved resolved) rendered
        have answer : report (n.surveyed config.keyBound) diagnostics next' (.ok s) =
            .ok (compiled, next) := by
          rw [← h, rendered, ← assembled]
          rfl
        cases answer
        exact ⟨n, diagnostics, rfl, Template.fault_of_ofLayout rendered, made.params, rfl⟩

/-- A statement with placeholders is compiled as on its own after calls whose templates serve it. -/
theorem respond_eq_alone_of_served (placeholders : r.options.literalBinds = false)
    (served : ∀ r' ∈ calls.filterMap Call.request?, r'.dialect.name = r.dialect.name →
      r'.Serves config r) :
    (((Compiler.new config).after calls).respond r).1 = r.alone config := by
  have same : r.withPlaceholders = r := by
    rcases r with ⟨factories, tree, dialect, ⟨scope, literalBinds⟩, next⟩
    obtain rfl : literalBinds = false := placeholders
    rfl
  rw [← same]
  exact (respond_eq_alone (same.symm ▸ served)).2

/-- The parameters of a statement do not depend on the database that it is for.  If a tree can be
compiled for two of the databases that page rows with LIMIT and OFFSET, it has the same parameters for
both, values and names in the same order, and the same diagnostics.  This is so on new compilers, and
after any calls whose templates serve the statement. -/
theorem params_of_databases (hr : r.Formed) (placeholders : r.options.literalBinds = false)
    (database : d ∈ [Dialect.postgres, .sqlite, .mysql])
    (database' : d' ∈ [Dialect.postgres, .sqlite, .mysql])
    (served : ∀ r' ∈ calls.filterMap Call.request?, r'.dialect.name = d.name →
      r'.Serves config (r.inDialect d))
    (served' : ∀ r' ∈ calls'.filterMap Call.request?, r'.dialect.name = d'.name →
      r'.Serves config (r.inDialect d'))
    (h : (((Compiler.new config).after calls).respond (r.inDialect d)).1 =
      .ok (compiled, next))
    (h' : (((Compiler.new config).after calls').respond (r.inDialect d')).1 =
      .ok (compiled', next')) :
    compiled.params = compiled'.params ∧ compiled.diagnostics = compiled'.diagnostics ∧
      next = next' := by
  have formed (d : Dialect) : (r.inDialect d).Formed := hr
  rw [respond_eq_alone_of_served (r := r.inDialect d) placeholders served] at h
  rw [respond_eq_alone_of_served (r := r.inDialect d') placeholders served'] at h'
  obtain ⟨n, diagnostics, resolved, sound, params, reported⟩ :=
    exists_params_of_alone (formed d) placeholders h
  obtain ⟨n', diagnostics', resolved', sound', params', reported'⟩ :=
    exists_params_of_alone (formed d') placeholders h'
  cases resolved.symm.trans resolved'
  refine ⟨congrArg ParamList.mk (params.trans ?_ |>.trans params'.symm), reported.trans reported'.symm,
    rfl⟩
  exact Node.params_parts (Dialect.keepsOrder_of_mem database) (Dialect.keepsOrder_of_mem database')
    config.keyBound sound sound'

end Compiler

section Sample

/-- A parameter that is left to be named. -/
def sampleUnnamed (i : Identity) (value : Int64) : Node :=
  ⟨i, .bind ⟨none, .integer value, true, false, false⟩, .integer, [], []⟩

def sampleConcat : Node :=
  ⟨3, .binary (sampleColumn 0) .concat (sampleUnnamed 2 10), .string, [], []⟩

def sampleDistinct : Node :=
  ⟨5, .binary sampleConcat .isDistinctFrom (sampleUnnamed 4 20), .boolean, [], []⟩

/-- A SELECT that leaves out rows, with an operator that is a function elsewhere and one that is
negated. -/
def sampleSkipping : Node :=
  ⟨7, .select ⟨[sampleColumn 0], [sampleTable 0], some sampleDistinct, [], none, [], none,
    some (sampleUnnamed 6 30), false, true⟩, .null, [], []⟩

theorem formed_sampleSkipping : (Request.sample sampleSkipping).Formed := by
  refine ⟨(· ∈ [sampleTable 0, sampleColumn 0, sampleUnnamed 2 10, sampleConcat, sampleUnnamed 4 20,
    sampleDistinct, sampleUnnamed 6 30, sampleSkipping]), Heap.valid_of_list ?_ ?_ ?_, ?_,
    fun _ => .pure nofun⟩
  · simp [children, Kind.children, Select.children, sampleTable, sampleColumn, sampleUnnamed,
      sampleConcat, sampleDistinct, sampleSkipping]
  · simp [sampleTable, sampleColumn, sampleUnnamed, sampleConcat, sampleDistinct, sampleSkipping]
  · simp [Request.sample, sampleTable, sampleColumn, sampleUnnamed, sampleConcat, sampleDistinct,
      sampleSkipping]
  · simp [Request.sample]

end Sample

/-- Two databases that spell a statement differently take its parameters alike, also where its text
comes from the cache. -/
theorem Compiler.params_of_databases_sampleSkipping :
    ∃ (compiled compiled' : Compiled) (next next' : Identity),
      ((Compiler.new {}).respond ((Request.sample sampleSkipping).inDialect .postgres)).1 =
        .ok (compiled, next) ∧
      (((Compiler.new {}).after [.compile ((Request.sample sampleSkipping).inDialect .mysql)]).respond
        ((Request.sample sampleSkipping).inDialect .mysql)).1 = .ok (compiled', next') ∧
      compiled.sql = "SELECT t.a FROM t WHERE t.a || $1 IS DISTINCT FROM $2 OFFSET $3" ∧
      compiled'.sql = "SELECT t.a FROM t WHERE NOT (concat(t.a, %s) <=> %s) " ++
        "LIMIT 18446744073709551615 OFFSET %s" ∧
      compiled.params.names = ["param_1", "param_2", "param_3"] ∧
      compiled.params = compiled'.params ∧ compiled.diagnostics = compiled'.diagnostics := by
  have run : ((Compiler.new {}).respond
      ((Request.sample sampleSkipping).inDialect .postgres)).1.toOption.map
        (fun found => (found.1.sql, found.1.params.names)) =
      some ("SELECT t.a FROM t WHERE t.a || $1 IS DISTINCT FROM $2 OFFSET $3",
        ["param_1", "param_2", "param_3"]) := by
    decide +kernel
  have run' : (((Compiler.new {}).after
      [.compile ((Request.sample sampleSkipping).inDialect .mysql)]).respond
        ((Request.sample sampleSkipping).inDialect .mysql)).1.toOption.map
          (fun found => found.1.sql) =
      some ("SELECT t.a FROM t WHERE NOT (concat(t.a, %s) <=> %s) " ++
        "LIMIT 18446744073709551615 OFFSET %s") := by
    decide +kernel
  obtain ⟨⟨compiled, next⟩, out, shown⟩ := Build.exists_of_toOption run
  obtain ⟨⟨compiled', next'⟩, out', sql'⟩ := Build.exists_of_toOption run'
  obtain ⟨sql, names⟩ := Prod.mk.inj shown
  obtain ⟨params, diagnostics, -⟩ := @params_of_databases {} (.sample sampleSkipping) []
    [.compile ((Request.sample sampleSkipping).inDialect .mysql)] .postgres .mysql compiled compiled'
    next next' formed_sampleSkipping rfl (by simp) (by simp) nofun
    (fun r' hr' _ => by
      obtain rfl := List.mem_singleton.1 hr'
      exact Request.serves_self _) out out'
  exact ⟨compiled, compiled', next, next', out, out', sql, sql', names, params, diagnostics⟩

end SqlAlgebra
