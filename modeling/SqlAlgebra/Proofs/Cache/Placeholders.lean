import SqlAlgebra.Proofs.Cache.Transparency
import SqlAlgebra.Proofs.Template.Parts

/-!
# Placeholders and parameters

Whether a statement was rendered or filled into a template of another tree, its placeholders and its
parameters correspond one to one in the order of the text, and the values are those of its own tree.
The template of another tree is filled rightly because trees of the same key have the same slots:
the bound parameters at a slot stand at the same places of both trees.
-/

namespace SqlAlgebra

open List (Forall₂)
open Node

variable {config : CompilerConfig} {c : Compiler} {r : Request} {S : Request → Prop}
  {calls : List Call}

namespace Compiler

/-- The compiler after some calls. -/
def after (c : Compiler) : List Call → Compiler
  | [] => c
  | .compile r :: calls => (c.respond r).2.after calls
  | .clearCache :: calls => c.clearCache.after calls

theorem Sound.after (h : Sound config S c) (hcalls : ∀ r ∈ calls.filterMap Call.request?, S r) :
    Sound config S (c.after calls) := by
  induction calls generalizing c with
  | nil => exact h
  | cons call calls ih =>
    cases call with
    | clearCache => exact ih h.clearCache hcalls
    | compile r =>
      exact ih (h.after_respond (hcalls r List.mem_cons_self)) fun r' hr' =>
        hcalls r' (List.mem_cons_of_mem _ hr')

theorem rendered_of_map {n : Node} {d : Dialect} {survey : Survey} {inline : Bool} {t : Template}
    {hit : Bool} (h : (n.template d survey inline).map (·, false) = .ok (t, hit)) :
    hit = false ∧ n.template d survey inline = .ok t := by
  cases result : n.template d survey inline with
  | error fault =>
    rw [result] at h
    cases h
  | ok u =>
    rw [result] at h
    cases h
    exact ⟨rfl, rfl⟩

/-- A template is rendered, or it is one that the cache has under the key of the tree. -/
theorem template_cases {n : Node} {d : Dialect} {survey : Survey} {t : Template} {hit : Bool}
    (h : (c.template n d survey false).1 = .ok (t, hit)) :
    hit = false ∧ n.template d survey false = .ok t ∨
      hit = true ∧ ∃ key, survey.buffer.key? = some key ∧ c.cache.Holds ⟨d.name, key⟩ t := by
  cases hk : survey.buffer.key? with
  | none => exact .inl (rendered_of_map ((template_of_none n d false hk).1 ▸ h))
  | some key =>
    cases caching : c.config.caching with
    | false =>
      have uncached := (template_of_uncached (c := c) n d survey false (by rw [caching]; rfl)).1
      exact .inl (rendered_of_map (uncached ▸ h))
    | true =>
      cases found : (c.cache.get ⟨d.name, key⟩).1 with
      | none => exact .inl (rendered_of_map ((template_of_miss hk caching found).1 ▸ h))
      | some u =>
        rw [(template_of_hit hk caching found).1] at h
        cases h
        exact .inr ⟨rfl, key, rfl, TemplateCache.holds_of_get_fst found⟩

/-- A statement is assembled from a template for the resolved tree. -/
theorem exists_of_compile {compiled : Compiled} {next : Identity}
    (h : (c.compile r.factories r.tree r.dialect r.options r.next).1 = .ok (compiled, next)) :
    ∃ n diagnostics t, r.tree.resolved r.factories r.options.scope r.next =
        .ok ((n, diagnostics), next) ∧
      (n.surveyed c.config.keyBound).checkBindNames = .ok () ∧
      (c.counted.template n r.dialect (n.surveyed c.config.keyBound) r.options.literalBinds).1 =
        .ok (t, compiled.cacheHit) ∧
      t.assemble r.dialect (n.surveyed c.config.keyBound).binds =
        .ok ⟨compiled.sql, compiled.params⟩ := by
  cases resolved : r.tree.resolved r.factories r.options.scope r.next with
  | error e =>
    rw [compile_of_error resolved] at h
    cases h
  | ok found =>
    rcases found with ⟨⟨n, diagnostics⟩, next'⟩
    rw [compile_of_ok c _ resolved] at h
    cases names : (n.surveyed c.config.keyBound).checkBindNames with
    | error fault =>
      rw [compileResolved_of_error names] at h
      cases h
    | ok =>
      rw [compileResolved_of_ok _ _ names] at h
      cases template : (c.counted.template n r.dialect (n.surveyed c.config.keyBound)
          r.options.literalBinds).1 with
      | error fault =>
        rw [template] at h
        cases h
      | ok found =>
        rw [template] at h
        dsimp only [Except.bind] at h
        cases assembled : found.1.assemble r.dialect (n.surveyed c.config.keyBound).binds with
        | error fault =>
          rw [assembled] at h
          cases h
        | ok s =>
          rw [assembled] at h
          cases h
          exact ⟨n, diagnostics, found.1, rfl, names, template, assembled⟩

end Compiler

/-- Where the parts of a statement come from: the tree was rendered, or an earlier request in a
dialect of the same name had left a template under the same key. -/
inductive Request.Gives (config : CompilerConfig) (earlier : List Request) (r : Request)
    (n : Node) : Bool → List Part → Prop where
  | rendered : Gives config earlier r n false (n.parts r.dialect config.keyBound)
  | found {r' : Request} {key : Key} {m : Node} {parts : List Part} :
      r' ∈ earlier → r'.dialect.name = r.dialect.name → r'.Reaches config key m →
        r.Reaches config key n → SameShape m n → SameObjects m n →
          Forall₂ (Part.Like (AtSlot (Beside m n) m n config.keyBound))
            (m.parts r'.dialect config.keyBound) parts →
            Gives config earlier r n true parts

/-- What is compiled is made of the parts of its tree, rendered or found. -/
theorem Compiler.exists_parts_of_compile
    (formed : ∀ r' ∈ calls.filterMap Call.request?, r'.Formed) (hr : r.Formed)
    (placeholders : r.options.literalBinds = false) {compiled : Compiled} {next : Identity}
    (h : (((Compiler.new config).after calls).compile r.factories r.tree r.dialect r.options
      r.next).1 = .ok (compiled, next)) :
    ∃ n diagnostics parts, r.tree.resolved r.factories r.options.scope r.next =
        .ok ((n, diagnostics), next) ∧
      (n.surveyed config.keyBound).checkBindNames = .ok () ∧
      r.Gives config (calls.filterMap Call.request?) n compiled.cacheHit parts ∧
      (∃ R m d, Fills R m n d config.keyBound parts) ∧
      Statement.MadeOf ⟨compiled.sql, compiled.params⟩ r.dialect parts := by
  have sound : Sound config (· ∈ calls.filterMap Call.request?)
      ((Compiler.new config).after calls) := sound_new.after fun _ h => h
  obtain ⟨n, diagnostics, t, resolved, names, template, assembled⟩ := exists_of_compile h
  rw [placeholders] at template
  have counted : Sound config (· ∈ calls.filterMap Call.request?)
      ((Compiler.new config).after calls).counted := sound.of_cache rfl rfl fun _ _ hk => hk
  rw [sound.sameConfig] at names template assembled
  have coherent : n.IsCoherent := hr.isCoherent_of_resolved resolved
  refine ⟨n, diagnostics, ?_⟩
  obtain ⟨miss, rendered⟩ | ⟨hit, key, hk, holds⟩ := template_cases template
  · obtain ⟨fills, s, assembled', made⟩ := exists_fills_same (d := r.dialect) coherent rendered
    cases assembled.symm.trans assembled'
    rw [miss]
    exact ⟨_, resolved, names, .rendered, ⟨_, _, _, fills⟩, made⟩
  · obtain ⟨-, -, r', m, hr', reaches, name, rendered⟩ := counted.holds holds
    have coherent' : m.IsCoherent := (formed r' hr').isCoherent reaches
    obtain ⟨shape, objects⟩ := sameShape_of_key? coherent' coherent reaches.key hk
    obtain ⟨parts, s, fills, assembled', made⟩ := exists_fills (d := r.dialect)
      (shape.correspondence objects) .root
      (fun beside => ⟨beside.occurs_left, beside.occurs_right⟩) coherent' rendered
    cases assembled.symm.trans assembled'
    rw [hit]
    exact ⟨parts, resolved, names, .found hr' name reaches
      ⟨⟨diagnostics, next, resolved⟩, names, placeholders, hk⟩ shape objects fills.parts,
        ⟨_, _, _, fills⟩, made⟩

/-- Placeholders and parameters of what is compiled correspond one to one.  They are those of the
parts of the tree in the order of the text, with the values that the tree itself has bound, after
whatever calls and whether or not the text came from the cache.  Numbered placeholders count them.
-/
theorem Compiler.placeholders_of_compile
    (formed : ∀ r' ∈ calls.filterMap Call.request?, r'.Formed) (hr : r.Formed)
    (placeholders : r.options.literalBinds = false) {compiled : Compiled} {next : Identity}
    (h : (((Compiler.new config).after calls).compile r.factories r.tree r.dialect r.options
      r.next).1 = .ok (compiled, next)) :
    ∃ n diagnostics parts, r.tree.resolved r.factories r.options.scope r.next =
        .ok ((n, diagnostics), next) ∧
      r.Gives config (calls.filterMap Call.request?) n compiled.cacheHit parts ∧
      n.Binds parts ∧
      Statement.MadeOf ⟨compiled.sql, compiled.params⟩ r.dialect parts ∧
      compiled.params.values = parts.flatMap Part.values ∧
      compiled.params.values.length = compiled.params.size ∧
      compiled.params.names.length = compiled.params.size ∧
      (r.dialect.bindStyle = .numbered →
        Template.placeholders r.dialect 0 compiled.params.entries =
          (List.range compiled.params.size).map fun k => "$" ++ toString (k + 1)) := by
  obtain ⟨n, diagnostics, parts, resolved, -, gives, ⟨_, _, _, fills⟩, made⟩ :=
    exists_parts_of_compile formed hr placeholders h
  exact ⟨n, diagnostics, parts, resolved, gives, fills.binds, made, made.values, List.length_map _,
    List.length_map _, Template.placeholders_of_numbered⟩

section Sample

variable (values : List Int64)

def sampleList : Node :=
  ⟨2, .bind ⟨some "a", .list (values.map .integer), true, true, false⟩, .integer, [], []⟩

def sampleMembership : Node :=
  ⟨3, .binary (sampleColumn 0) .member (sampleList values), .boolean, [], []⟩

/-- The column `a` of the table `t` where it is one of some values. -/
def sampleMembers : Node :=
  ⟨4, .select ⟨[sampleColumn 0], [sampleTable 0], some (sampleMembership values), [], none, [],
    none, none, false, true⟩, .null, [], []⟩

theorem formed_sampleMembers : (Request.sample (sampleMembers values)).Formed := by
  refine ⟨(· ∈ [sampleTable 0, sampleColumn 0, sampleList values, sampleMembership values,
    sampleMembers values]), Heap.valid_of_list ?_ ?_ ?_, ?_, fun _ => .pure nofun⟩
  · simp [children, Kind.children, Select.children, sampleTable, sampleColumn, sampleList,
      sampleMembership, sampleMembers]
  · simp [sampleTable, sampleColumn, sampleList, sampleMembership, sampleMembers]
  · simp [Request.sample, sampleTable, sampleColumn, sampleList, sampleMembership, sampleMembers]
  · simp [Request.sample]

end Sample

/-- Three values in a template that was rendered for two. -/
theorem Compiler.placeholders_of_compile_sampleMembers :
    ∃ (compiled : Compiled) (parts : List Part), compiled.cacheHit = true ∧
      compiled.sql = "SELECT t.a FROM t WHERE t.a IN ($1, $2, $3)" ∧
      compiled.params.names = ["a_1_1", "a_1_2", "a_1_3"] ∧
      (sampleMembers [3, 4, 5]).Binds parts ∧
      Statement.MadeOf ⟨compiled.sql, compiled.params⟩ .postgres parts ∧
      compiled.params.values = parts.flatMap Part.values := by
  have run : (((Compiler.new {}).after [.compile (.sample (sampleMembers [1, 2]))]).compile
      (Request.sample (sampleMembers [3, 4, 5])).factories (sampleMembers [3, 4, 5]) .postgres {}
        9).1.toOption.map (fun out => (out.1.cacheHit, out.1.sql, out.1.params.names)) =
      some (true, "SELECT t.a FROM t WHERE t.a IN ($1, $2, $3)", ["a_1_1", "a_1_2", "a_1_3"]) := by
    decide +kernel
  have plain : (sampleMembers [3, 4, 5]).containsDeferred = false := by decide +kernel
  cases out : (((Compiler.new {}).after [.compile (.sample (sampleMembers [1, 2]))]).compile
      (Request.sample (sampleMembers [3, 4, 5])).factories (sampleMembers [3, 4, 5]) .postgres {}
        9).1 with
  | error e =>
    rw [out] at run
    cases run
  | ok answer =>
    rcases answer with ⟨compiled, next⟩
    rw [out] at run
    obtain ⟨hit, shown⟩ := Prod.mk.inj (Option.some.inj run)
    obtain ⟨sql, names⟩ := Prod.mk.inj shown
    obtain ⟨n, diagnostics, parts, resolved, -, binds, made, values, -⟩ :=
      @placeholders_of_compile {} (.sample (sampleMembers [3, 4, 5]))
        [.compile (.sample (sampleMembers [1, 2]))] (fun r' hr' => by
          obtain rfl := List.mem_singleton.1 hr'
          exact formed_sampleMembers _) (formed_sampleMembers _) rfl compiled next out
    rw [Request.sample, Node.resolved, plain] at resolved
    cases resolved
    exact ⟨compiled, parts, hit, sql, names, binds, made, values⟩

end SqlAlgebra
