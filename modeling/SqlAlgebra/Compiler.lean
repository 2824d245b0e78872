import SqlAlgebra.Deferred
import SqlAlgebra.Layout.Render
import SqlAlgebra.Template.Assembly
import SqlAlgebra.TemplateCache

/-!
# The compiler

Compiling a tree resolves its deferred expressions, surveys it, takes its template from the cache or
renders it, and fills in its parameters.  Templates hold no values, so two trees that differ only in
their values share one.
-/

namespace SqlAlgebra

structure CompilerConfig where
  /-- Whether templates are kept. -/
  caching : Bool := true
  /-- How many templates are kept. -/
  capacity : Nat := 500
  /-- The size of a key past which a tree is rendered every time. -/
  keyBound : Nat := Node.defaultKeyBound
deriving DecidableEq

namespace CompilerConfig

/-- Keeps so many templates, and none at all for a capacity of zero. -/
def withCapacity (config : CompilerConfig) (capacity : Nat) : CompilerConfig :=
  { config with caching := 0 < capacity, capacity := capacity }

def withoutCache (config : CompilerConfig) : CompilerConfig := { config with caching := false }

end CompilerConfig

structure CompileOptions where
  scope : Scope := .empty
  /-- Write values into the statement, not placeholders.  Nothing is kept then. -/
  literalBinds : Bool := false

/-- A compiled statement. -/
structure Compiled where
  sql : String
  params : ParamList
  /-- What was reported while the nodes of the tree were built, then about its deferred expressions. -/
  diagnostics : List Diagnostic
  /-- Whether the text came from the cache. -/
  cacheHit : Bool

/-- What a compiler has counted. -/
structure CompilerStats where
  /-- The calls that came as far as rendering. -/
  compilations : Nat
  cacheHits : Nat
  cacheMisses : Nat
  /-- The trees whose keys were too large. -/
  uncacheable : Nat
deriving DecidableEq

structure Compiler where
  config : CompilerConfig
  /-- The templates that are kept, with a clock that goes on for ever. -/
  cache : TemplateCache Nat
  stats : CompilerStats

/-- The template of a tree in a dialect. -/
def Node.template (n : Node) (d : Dialect) (survey : Survey) (inline : Bool) :
    Except CompileFault Template :=
  Template.ofLayout d survey inline (Layout.statement d [] n)

namespace Compiler

def new (config : CompilerConfig) : Compiler :=
  ⟨config, .empty Nat config.capacity, ⟨0, 0, 0, 0⟩⟩

/-- The template of a tree and whether it came from the cache, with the compiler after that.  A template
that could not be rendered leaves nothing in the cache. -/
def template (c : Compiler) (n : Node) (d : Dialect) (survey : Survey) (inline : Bool) :
    Except CompileFault (Template × Bool) × Compiler :=
  match survey.buffer.key? with
  | none =>
    ((n.template d survey inline).map (·, false),
      { c with stats.uncacheable := c.stats.uncacheable + 1 })
  | some key =>
    if inline || !c.config.caching then ((n.template d survey inline).map (·, false), c)
    else
      match c.cache.get ⟨d.name, key⟩ with
      | (some template, cache) =>
        (.ok (template, true),
          { c with cache := cache, stats.cacheHits := c.stats.cacheHits + 1 })
      | (none, cache) =>
        let c := { c with cache := cache, stats.cacheMisses := c.stats.cacheMisses + 1 }
        match n.template d survey false with
        | .error fault => (.error fault, c)
        | .ok template =>
          let (template, cache) := c.cache.insertIfAbsent ⟨d.name, key⟩ template
          (.ok (template, false), { c with cache := cache })

/-- The statement of a tree without deferred expressions, with the compiler after that. -/
def compileResolved (c : Compiler) (n : Node) (d : Dialect) (inline : Bool) :
    Except CompileFault Compiled × Compiler :=
  let survey := n.surveyed c.config.keyBound
  match survey.checkBindNames with
  | .error fault => (.error fault, c)
  | .ok () =>
    let c := { c with stats.compilations := c.stats.compilations + 1 }
    match c.template n d survey inline with
    | (.error fault, c) => (.error fault, c)
    | (.ok (template, hit), c) =>
      match template.assemble d survey.binds with
      | .error fault => (.error fault, c)
      | .ok statement => (.ok ⟨statement.sql, statement.params, survey.diagnostics, hit⟩, c)

/-- The statement of a tree, with the identity that is free after it and the compiler after that. -/
def compile (c : Compiler) (factories : Factories) (n : Node) (d : Dialect)
    (options : CompileOptions) (next : Identity) :
    Except Error (Compiled × Identity) × Compiler :=
  match n.resolved factories options.scope next with
  | .error e => (.error e, c)
  | .ok ((n, diagnostics), next) =>
    match c.compileResolved n d options.literalBinds with
    | (.error fault, c) => (.error (.compile fault), c)
    | (.ok compiled, c) =>
      (.ok ({ compiled with diagnostics := compiled.diagnostics ++ diagnostics }, next), c)

/-- Drops every template; what was counted stays. -/
def clearCache (c : Compiler) : Compiler := { c with cache := c.cache.clear }

end Compiler

end SqlAlgebra
