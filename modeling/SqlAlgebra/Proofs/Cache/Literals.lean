import SqlAlgebra.Proofs.Reading.Parenthesization
import SqlAlgebra.Proofs.Template.Inline

/-!
# Statements without parameters

A statement whose values are written out needs no parameters.  It is compiled only if the one with
placeholders is, and then its text is that of the other with every placeholder replaced by the value
that stands for it there.  This is so whatever was compiled before, as long as the templates that
were kept serve the statement, as they do on a new compiler.
-/

namespace SqlAlgebra

open List (Forall₂)
open Node

/-- No dialect has a percent sign in its empty set. -/
theorem Dialect.escaped_emptySet {d : Dialect} (h : d ∈ databases) :
    Template.escaped d d.emptySet = d.emptySet := by
  apply Template.escaped_of_notMem
  simp only [databases, List.mem_cons, List.not_mem_nil, or_false] at h
  obtain rfl | rfl | rfl | rfl := h <;> decide

namespace Request

variable {config : CompilerConfig} {r : Request}

/-- A request with placeholders for its values. -/
def withPlaceholders (r : Request) : Request := { r with options.literalBinds := false }

/-- A request with its values written out. -/
def withLiterals (r : Request) : Request := { r with options.literalBinds := true }

theorem serves_self (r : Request) : r.Serves config r := by
  intro key m n t hm hn rendered
  obtain ⟨_, _, resolved⟩ := hm.resolved
  obtain ⟨_, _, resolved'⟩ := hn.resolved
  cases resolved.symm.trans resolved'
  rw [rendered]
  rfl

/-- A statement with its values written out leaves no template. -/
theorem serves_of_withLiterals (r r' : Request) : r.withLiterals.Serves config r' :=
  fun _ _ _ _ hm => nomatch hm.placeholders

/-- A statement with its values written out needs no template. -/
theorem serves_withLiterals (r r' : Request) : r'.Serves config r.withLiterals :=
  fun _ _ _ _ _ hn => nomatch hn.placeholders

end Request

namespace Compiler

variable {config : CompilerConfig} {c : Compiler} {r : Request} {calls : List Call}
  {compiled : Compiled} {next : Identity}

theorem respond_fst (c : Compiler) (r : Request) :
    (c.respond r).1 = (c.compile r.factories r.tree r.dialect r.options r.next).1.map
      fun (compiled, next) => (compiled.withoutHit, next) := rfl

theorem exists_of_respond (h : (c.respond r).1 = .ok (compiled, next)) :
    ∃ hit, (c.compile r.factories r.tree r.dialect r.options r.next).1 =
      .ok ({ compiled with cacheHit := hit }, next) := by
  rw [respond_fst] at h
  generalize (c.compile r.factories r.tree r.dialect r.options r.next).1 = answer at h
  cases answer with
  | error e => cases h
  | ok found =>
    cases h
    exact ⟨found.1.cacheHit, rfl⟩

/-- After any calls whose templates serve a statement, it is compiled as on its own, with
placeholders and with its values written out. -/
theorem respond_eq_alone
    (served : ∀ r' ∈ calls.filterMap Call.request?, r'.dialect.name = r.dialect.name →
      r'.Serves config r.withPlaceholders) :
    (((Compiler.new config).after calls).respond r.withLiterals).1 = r.withLiterals.alone config ∧
      (((Compiler.new config).after calls).respond r.withPlaceholders).1 =
        r.withPlaceholders.alone config := by
  have sound : Sound config (fun r' => r' ∈ calls.filterMap Call.request? ∨ r' = r.withLiterals ∨
      r' = r.withPlaceholders) ((Compiler.new config).after calls) :=
    sound_new.after fun _ => .inl
  have literals := sound.respond (.inr (.inl rfl)) fun _ _ r' _ _ => Request.serves_withLiterals r r'
  have placeholders := sound.respond (.inr (.inr rfl)) fun _ _ r' hr' name => by
    obtain mem | rfl | rfl := hr'
    · exact served r' mem name
    · exact Request.serves_of_withLiterals r _
    · exact Request.serves_self _
  exact ⟨literals.1, placeholders.1⟩

/-- A statement whose values are written out has no parameters, and its text is that of its parts
with the values in their gaps. -/
theorem exists_literals_of_alone (hr : r.Formed) (database : r.dialect ∈ Dialect.databases)
    (keys : ∀ n diagnostics next, r.tree.resolved r.factories r.options.scope r.next =
      .ok ((n, diagnostics), next) → n.KeysApart)
    (h : r.withLiterals.alone config = .ok (compiled, next)) :
    ∃ n diagnostics literals,
      r.tree.resolved r.factories r.options.scope r.next = .ok ((n, diagnostics), next) ∧
      (n.surveyed config.keyBound).checkBindNames = .ok () ∧
      (Layout.statement r.dialect [] n).fault = none ∧
      Forall₂ (fun value text => r.dialect.literal value = .ok text)
        ((n.parts r.dialect config.keyBound).flatMap Part.values) literals ∧
      compiled.params = .empty ∧
      compiled.sql = Part.filled ((n.parts r.dialect config.keyBound).flatMap
        (Part.outline r.dialect)) (literals.map (Template.escaped r.dialect)) := by
  obtain ⟨hit, ran⟩ := exists_of_respond h
  obtain ⟨n, diagnostics, t, resolved, names, template, assembled⟩ := exists_of_compile ran
  have anew : ((Compiler.new config.withoutCache).counted.template n r.dialect
      (n.surveyed config.keyBound) true).1 =
        (n.template r.dialect (n.surveyed config.keyBound) true).map (·, false) :=
    template_new n r.dialect _ true
  have rendered : n.template r.dialect (n.surveyed config.keyBound) true = .ok t :=
    (rendered_of_map (anew.symm.trans template)).2
  obtain ⟨sound, parts, like, assembles⟩ := exists_inlined_parts
    (hr.isCoherent_of_resolved resolved) (keys n diagnostics next resolved) rendered
  obtain ⟨s, assembled', made⟩ := assembles r.dialect (n.surveyed config.keyBound).binds
  cases assembled.symm.trans assembled'
  obtain ⟨literals, each, none, same⟩ :=
    Part.exists_literals like (Dialect.escaped_emptySet database)
  have nothing : compiled.params.entries = [] := made.params.trans none
  have text := made.sql
  rw [nothing] at text
  refine ⟨n, diagnostics, literals, resolved, names, sound, each, ?_, text.trans same⟩
  rcases compiled with ⟨sql, ⟨entries⟩, diagnostics', hit'⟩
  exact congrArg ParamList.mk nothing

/-- A statement whose values are written out has no parameters, and its text is that of the
statement with placeholders, which is compiled too, with the values in the places of these. -/
theorem literals_fill_placeholders (hr : r.Formed) (database : r.dialect ∈ Dialect.databases)
    (keys : ∀ n diagnostics next, r.tree.resolved r.factories r.options.scope r.next =
      .ok ((n, diagnostics), next) → n.KeysApart)
    (served : ∀ r' ∈ calls.filterMap Call.request?, r'.dialect.name = r.dialect.name →
      r'.Serves config r.withPlaceholders)
    (h : (((Compiler.new config).after calls).respond r.withLiterals).1 = .ok (compiled, next)) :
    ∃ n diagnostics placed literals,
      r.tree.resolved r.factories r.options.scope r.next = .ok ((n, diagnostics), next) ∧
      (((Compiler.new config).after calls).respond r.withPlaceholders).1 = .ok (placed, next) ∧
      Statement.MadeOf ⟨placed.sql, placed.params⟩ r.dialect (n.parts r.dialect config.keyBound) ∧
      Forall₂ (fun value text => r.dialect.literal value = .ok text) placed.params.values literals ∧
      compiled.params = .empty ∧
      compiled.sql = Part.filled ((n.parts r.dialect config.keyBound).flatMap
        (Part.outline r.dialect)) (literals.map (Template.escaped r.dialect)) := by
  obtain ⟨inline, placeholders⟩ := respond_eq_alone served
  rw [inline] at h
  rw [placeholders]
  obtain ⟨n, diagnostics, literals, resolved, names, sound, each, nothing, text⟩ :=
    exists_literals_of_alone hr database keys h
  obtain ⟨placed, ran, made⟩ :=
    @exists_compiled config.withoutCache r.withPlaceholders _ _ _ hr rfl resolved names sound
  have answer : r.withPlaceholders.alone config = .ok (placed.withoutHit, next) := by
    rw [Request.alone, respond_fst, ran]
    rfl
  exact ⟨n, diagnostics, placed.withoutHit, literals, resolved, answer, made, made.values ▸ each,
    nothing, text⟩

end Compiler

section Sample

def samplePattern : Node :=
  ⟨2, .bind ⟨some "a", .text "50%", true, false, false⟩, .string, [], []⟩

/-- The column `a` compared with a pattern that has a percent sign. -/
def sampleMatch : Node := ⟨3, .binary (sampleColumn 0) .like samplePattern, .boolean, [], []⟩

def sampleMatchParts : List Node := [sampleTable 0, sampleColumn 0, samplePattern, sampleMatch]

theorem mem_sampleMatchParts_of_child :
    ∀ x ∈ sampleMatchParts, ∀ c ∈ x.children, c ∈ sampleMatchParts := by
  simp [sampleMatchParts, children, Kind.children, sampleTable, sampleColumn, samplePattern,
    sampleMatch]

/-- A request for a database in which a percent sign marks placeholders. -/
def Request.sampleMatch : Request :=
  { Request.sample SqlAlgebra.sampleMatch with dialect := .mysql }

theorem formed_sampleMatch : Request.sampleMatch.Formed := by
  refine ⟨(· ∈ sampleMatchParts), Heap.valid_of_list mem_sampleMatchParts_of_child ?_ ?_, ?_,
    fun _ => .pure nofun⟩
  · simp [sampleMatchParts, sampleTable, sampleColumn, samplePattern, sampleMatch]
  · simp [sampleMatchParts, Request.sampleMatch, Request.sample, sampleTable, sampleColumn,
      samplePattern, sampleMatch]
  · simp [sampleMatchParts, Request.sampleMatch, Request.sample]

theorem keysApart_sampleMatch : sampleMatch.KeysApart := by
  intro x b hx kind _ key
  have mem : x ∈ sampleMatchParts :=
    mem_of_occurs (by simp [sampleMatchParts]) mem_sampleMatchParts_of_child hx
  simp only [sampleMatchParts, List.mem_cons, List.not_mem_nil, or_false] at mem
  obtain rfl | rfl | rfl | rfl := mem
  · cases kind
  · cases kind
  · cases kind
    exact absurd key (by decide)
  · cases kind

end Sample

/-- A percent sign in a value stands for itself beside placeholders with one, too. -/
theorem Compiler.literals_fill_placeholders_sampleMatch :
    ∃ (compiled placed : Compiled) (next : Identity) (literals : List String),
      compiled.sql = "t.a LIKE '50%%'" ∧ compiled.params = .empty ∧
      ((Compiler.new {}).respond Request.sampleMatch.withPlaceholders).1 = .ok (placed, next) ∧
      Statement.MadeOf ⟨placed.sql, placed.params⟩ .mysql (sampleMatch.parts .mysql Node.defaultKeyBound) ∧
      compiled.sql = Part.filled ((sampleMatch.parts .mysql Node.defaultKeyBound).flatMap (Part.outline .mysql))
        (literals.map (Template.escaped .mysql)) := by
  have plain : sampleMatch.containsDeferred = false := by decide +kernel
  have run : ((Compiler.new {}).respond Request.sampleMatch.withLiterals).1.toOption.map
      (·.1.sql) = some "t.a LIKE '50%%'" := by
    decide +kernel
  cases out : ((Compiler.new {}).respond Request.sampleMatch.withLiterals).1 with
  | error e =>
    rw [out] at run
    cases run
  | ok answer =>
    rcases answer with ⟨compiled, next⟩
    rw [out] at run
    have root {n : Node} {diagnostics : List Diagnostic} {next : Identity}
        (resolved : sampleMatch.resolved Request.sampleMatch.factories .empty 9 =
          .ok ((n, diagnostics), next)) : n = sampleMatch := by
      rw [Node.resolved, plain] at resolved
      cases resolved
      rfl
    obtain ⟨n, diagnostics, placed, literals, resolved, answered, made, -, nothing, filled⟩ :=
      @literals_fill_placeholders {} Request.sampleMatch [] compiled next formed_sampleMatch
        (by simp [Dialect.databases, Request.sampleMatch])
        (fun n diagnostics next resolved => root resolved ▸ keysApart_sampleMatch)
        (fun r' hr' => absurd hr' List.not_mem_nil) out
    obtain rfl := root resolved
    exact ⟨compiled, placed, next, literals, Option.some.inj run, nothing, answered, made, filled⟩

end SqlAlgebra
