import SqlAlgebra.Proofs.Cache.Literals
import SqlAlgebra.Proofs.Layout.Signs

/-!
# Statements without comments

A statement has no comment in it that its operators and numbers begin, as long as no operand of a
minus sign starts with one.  The strength of the operator keeps another minus sign below it in
parentheses, but there are three ways past them: a negative number that is written out, an ordering,
and a reference to a label that stands for the element under it.
-/

namespace SqlAlgebra

open Layout Node

variable {config : CompilerConfig} {r : Request} {calls : List Call}

/-- Whose tree the text of a statement was rendered for: that of the request itself, or that of an
earlier one for the same dialect, which had left its template under the key. -/
inductive Request.RenderedFor (config : CompilerConfig) (earlier : List Request) (r : Request)
    (n : Node) : Bool → Node → Prop where
  | itself : RenderedFor config earlier r n false n
  | found {r' : Request} {key : Key} {m : Node} :
      r' ∈ earlier → r'.dialect = r.dialect → r'.Reaches config key m → r.Reaches config key n →
        RenderedFor config earlier r n true m

namespace Compiler

/-- What is compiled is assembled from a template that was rendered with the same options. -/
theorem exists_rendered_of_compile
    (dialects : ∀ r' ∈ calls.filterMap Call.request?, r'.dialect.name = r.dialect.name →
      r'.dialect = r.dialect) {compiled : Compiled} {next : Identity}
    (h : (((Compiler.new config).after calls).compile r.factories r.tree r.dialect r.options
      r.next).1 = .ok (compiled, next)) :
    ∃ n diagnostics m t, r.tree.resolved r.factories r.options.scope r.next =
        .ok ((n, diagnostics), next) ∧
      r.RenderedFor config (calls.filterMap Call.request?) n compiled.cacheHit m ∧
      m.template r.dialect (m.surveyed config.keyBound) r.options.literalBinds = .ok t ∧
      t.assemble r.dialect (n.surveyed config.keyBound).binds =
        .ok ⟨compiled.sql, compiled.params⟩ := by
  have sound : Sound config (· ∈ calls.filterMap Call.request?)
      ((Compiler.new config).after calls) := sound_new.after fun _ h => h
  obtain ⟨n, diagnostics, t, resolved, names, template, assembled⟩ := exists_of_compile h
  rw [sound.sameConfig] at names template assembled
  refine ⟨n, diagnostics, ?_⟩
  cases inline : r.options.literalBinds with
  | true =>
    rw [inline, (template_of_uncached _ _ _ _ rfl).1] at template
    obtain ⟨miss, rendered⟩ := rendered_of_map template
    rw [miss]
    exact ⟨n, t, resolved, .itself, rendered, assembled⟩
  | false =>
    rw [inline] at template
    obtain ⟨miss, rendered⟩ | ⟨hit, key, hk, holds⟩ := template_cases template
    · rw [miss]
      exact ⟨n, t, resolved, .itself, rendered, assembled⟩
    · obtain ⟨-, -, r', m, hr', reaches, name, rendered⟩ := sound.holds holds
      have same := dialects r' hr' name
      rw [same] at rendered
      rw [hit]
      exact ⟨m, t, resolved, .found hr' same reaches ⟨⟨diagnostics, next, resolved⟩, names, inline,
        hk⟩, rendered, assembled⟩

/-- The minus signs that operators and numbers write into a statement stand side by side exactly if
some operand of a minus sign starts with one.  None does where no ordering, no reference to a label
and no negative number that is written out stands below a minus sign. -/
theorem noComment_iff_keepsApart (database : r.dialect ∈ Dialect.databases)
    (dialects : ∀ r' ∈ calls.filterMap Call.request?, r'.dialect.name = r.dialect.name →
      r'.dialect = r.dialect) {compiled : Compiled} {next : Identity}
    (h : (((Compiler.new config).after calls).compile r.factories r.tree r.dialect r.options
      r.next).1 = .ok (compiled, next)) :
    ∃ n diagnostics m cs, r.tree.resolved r.factories r.options.scope r.next =
        .ok ((n, diagnostics), next) ∧
      r.RenderedFor config (calls.filterMap Call.request?) n compiled.cacheHit m ∧
      BecomeMarked r.dialect r.options.literalBinds
        (Rendering.markedPieces r.dialect ⟨.statement, [], m⟩) cs ∧
      compiled.sql.toList = cs.map Prod.fst ∧
      (NoComment cs ↔
        Rendering.KeepsApart r.dialect r.options.literalBinds ⟨.statement, [], m⟩) ∧
      ((∀ x operand, Node.Occurs x m → x.kind = .unary .neg operand → ∀ y, Node.Occurs y operand →
        y.StaysApart r.options.literalBinds) → NoComment cs) := by
  obtain ⟨n, diagnostics, m, t, resolved, source, rendered, assembled⟩ :=
    exists_rendered_of_compile dialects h
  have sound : (Rendering.layout r.dialect ⟨.statement, [], m⟩).fault = none :=
    Template.fault_of_ofLayout rendered
  obtain ⟨cs, become, text⟩ := Template.exists_marked_of_ofLayout
    (Dialect.escaped_emptySet database) (Rendering.map_fst_markedPieces sound) rendered assembled
  have apart := (Rendering.hasSigns database sound cs become).1
  exact ⟨n, diagnostics, m, cs, resolved, source, become, text, apart,
    fun stays => apart.2 (Rendering.keepsApart_of_staysApart database stays)⟩

end Compiler

section Sample

/-- The negation of a negated column. -/
def sampleDoubleNegation : Node := ⟨5, .unary .neg sampleNegation, .integer, [], []⟩

/-- The negation of the parameter -1. -/
def sampleNegatedParam : Node := ⟨3, .unary .neg (sampleParam 0 (-1)), .integer, [], []⟩

def Request.sampleNegatedParam : Request :=
  { Request.sample SqlAlgebra.sampleNegatedParam with options.literalBinds := true }

theorem staysApart_sampleDoubleNegation (inline : Bool) :
    ∀ y, Node.Occurs y sampleDoubleNegation → y.StaysApart inline := by
  intro y hy
  have mem : y ∈ [sampleTable 0, sampleOperand 1 "a", sampleNegation, sampleDoubleNegation] :=
    Node.mem_of_occurs (by simp) (by
      simp [Node.children, Kind.children, sampleTable, sampleOperand, sampleNegation,
        sampleDoubleNegation]) hy
  simp only [List.mem_cons, List.not_mem_nil, or_false] at mem
  obtain rfl | rfl | rfl | rfl := mem <;> trivial

end Sample

/-- The parentheses around the operand keep the signs apart, also in a text from the cache. -/
theorem Compiler.noComment_sampleDoubleNegation :
    let r := Request.sample sampleDoubleNegation
    ∃ (compiled : Compiled) (next : Identity) (cs : List (Char × Bool)),
      (((Compiler.new {}).after [.compile r]).compile r.factories r.tree r.dialect r.options
        r.next).1 = .ok (compiled, next) ∧
      compiled.sql = "-(-t.a)" ∧ compiled.cacheHit = true ∧
      compiled.sql.toList = cs.map Prod.fst ∧
      BecomeMarked r.dialect false (Rendering.markedPieces r.dialect ⟨.statement, [], r.tree⟩) cs ∧
      NoComment cs := by
  intro r
  have run : (((Compiler.new {}).after [.compile r]).compile r.factories r.tree r.dialect r.options
      r.next).1.toOption.map (fun out => (out.1.sql, out.1.cacheHit)) = some ("-(-t.a)", true) := by
    decide +kernel
  obtain ⟨⟨compiled, next⟩, out, shown⟩ := Build.exists_of_toOption run
  obtain ⟨sql, hit⟩ := Prod.mk.inj shown
  obtain ⟨n, diagnostics, m, cs, -, source, become, text, -, none⟩ :=
    @noComment_iff_keepsApart {} r [.compile r] List.mem_cons_self
      (fun r' hr' _ => by rw [List.mem_singleton.1 hr']) compiled next out
  rw [hit] at source
  obtain _ | ⟨mem, -, reaches, -⟩ := source
  obtain rfl := List.mem_singleton.1 mem
  obtain ⟨_, _, resolved⟩ := reaches.resolved
  have plain : sampleDoubleNegation.containsDeferred = false := by decide +kernel
  rw [show r.tree = sampleDoubleNegation from rfl, Node.resolved, plain] at resolved
  cases resolved
  refine ⟨compiled, next, cs, out, sql, hit, text, become, none fun x operand hx kind y hy => ?_⟩
  have child : operand ∈ x.children := by
    rw [Node.children, kind]
    exact List.mem_singleton_self operand
  exact staysApart_sampleDoubleNegation _ y ((hy.trans (.deeper child .root)).trans hx)

/-- A negative number that is written out begins a comment with the sign before it. -/
theorem Compiler.comment_of_compile_sampleNegatedParam :
    let r := Request.sampleNegatedParam
    ∃ (compiled : Compiled) (next : Identity) (cs : List (Char × Bool)),
      ((Compiler.new {}).compile r.factories r.tree r.dialect r.options r.next).1 =
        .ok (compiled, next) ∧
      compiled.sql = "--1" ∧ compiled.sql.toList = cs.map Prod.fst ∧
      BecomeMarked r.dialect true (Rendering.markedPieces r.dialect ⟨.statement, [], r.tree⟩) cs ∧
      ¬NoComment cs := by
  intro r
  have run : ((Compiler.new {}).compile r.factories r.tree r.dialect r.options
      r.next).1.toOption.map (fun out => out.1.sql) = some "--1" := by
    decide +kernel
  obtain ⟨⟨compiled, next⟩, out, sql⟩ := Build.exists_of_toOption run
  have pieces : Rendering.markedPieces Dialect.postgres ⟨.statement, [], sampleNegatedParam⟩ =
      [(.text "-", true),
        (.bind (sampleParam 0 (-1)) ⟨some "a", .integer (-1), true, false, false⟩, false)] := by
    simp [Rendering.markedPieces_eq, Item.markedPieces, Rendering.items, Rendering.statementItems,
      Rendering.expressionItems, Item.enclosedIf, sampleNegatedParam, sampleParam,
      UnaryOp.precedence, UnaryOp.isSign, UnaryOp.sql, operandStrength, unaryMark, piece,
      Node.isFromClause]
  have number : BecomesMarked .postgres true
      (.bind (sampleParam 0 (-1)) ⟨some "a", .integer (-1), true, false, false⟩, false)
      [minusSign, ('1', true)] :=
    @BecomesMarked.literal .postgres true _ _ [marked true "-1"] false rfl
      (.cons ⟨"-1", rfl, rfl⟩ .nil)
  refine ⟨compiled, next, [minusSign, minusSign, ('1', true)], out, sql, ?_, ?_, by decide⟩
  · rw [sql]
    rfl
  · show BecomeMarked .postgres true
      (Rendering.markedPieces .postgres ⟨.statement, [], sampleNegatedParam⟩) _
    rw [pieces]
    exact .cons (.text "-" true) (.cons number .nil)

end SqlAlgebra
