import SqlAlgebra.Proofs.Cache.Consistency
import SqlAlgebra.Proofs.Cache.Recency

/-!
# What a failure leaves behind

A call can fail while expressions are resolved, over the names of parameters, while the tree is
rendered, or while a template is filled.  The first two come before the cache is looked into.  A tree
that is rendered was not found in the cache, and looking for it in vain only moves the clock on.  A
template that was found can be filled, so the last never follows a hit.  The cache after a failure
has the same templates in the same order of use, and two compilers whose caches agree on these answer
alike from then on and drop the same templates.
-/

namespace SqlAlgebra

variable {config : CompilerConfig} {c c' : Compiler} {r : Request} {calls : List Call}
  {n : Node} {d : Dialect} {survey : Survey} {inline : Bool}

namespace TemplateCache

variable {cache cache' : TemplateCache Nat} {order : UseOrder} {key : TemplateKey}

/-- Whether a cache differs from another only in that time has passed. -/
structure Aged (cache cache' : TemplateCache Nat) : Prop where
  capacity : cache'.capacity = cache.capacity
  entries : cache'.entries = cache.entries
  recency : cache'.recency = cache.recency
  later : cache.clock ≤ cache'.clock

theorem Aged.refl (cache : TemplateCache Nat) : Aged cache cache := ⟨rfl, rfl, rfl, Nat.le_refl _⟩

end TemplateCache

namespace Compiler

/-! ## A failure -/

/-- Whether two compilers are set up alike and have the same templates in the same order of use. -/
structure Alike (c c' : Compiler) : Prop where
  config : c'.config = c.config
  cache : ∃ order, c.cache.Follows order ∧ c'.cache.Follows order

theorem Alike.clearCache (h : Alike c c') : Alike c.clearCache c'.clearCache := by
  obtain ⟨config, order, follows, follows'⟩ := h
  exact ⟨config, order.clear, follows.clear, follows'.clear⟩

/-- Compilers that are alike find the same template, or render it and keep it in the same place. -/
theorem Alike.template (h : Alike c c') (n : Node) (d : Dialect) (survey : Survey) (inline : Bool) :
    (c'.template n d survey inline).1 = (c.template n d survey inline).1 ∧
      Alike (c.template n d survey inline).2 (c'.template n d survey inline).2 := by
  obtain ⟨config, order, follows, follows'⟩ := h
  have configs : (c'.template n d survey inline).2.config = (c.template n d survey inline).2.config :=
    template_config.trans (config.trans template_config.symm)
  cases hk : survey.buffer.key? with
  | none =>
    obtain ⟨answer, cache⟩ := template_of_none (c := c) n d inline hk
    obtain ⟨answer', cache'⟩ := template_of_none (c := c') n d inline hk
    exact ⟨answer'.trans answer.symm, configs, order, cache ▸ follows, cache' ▸ follows'⟩
  | some key =>
    by_cases uncached : (inline || !c.config.caching) = true
    · obtain ⟨answer, cache⟩ := template_of_uncached n d survey inline uncached
      obtain ⟨answer', cache'⟩ := template_of_uncached n d survey inline (config ▸ uncached)
      exact ⟨answer'.trans answer.symm, configs, order, cache ▸ follows, cache' ▸ follows'⟩
    · obtain ⟨rfl, caching⟩ : inline = false ∧ c.config.caching = true := by simpa using uncached
      have caching' : c'.config.caching = true := config ▸ caching
      obtain ⟨looked, follows⟩ := follows.get rfl ⟨d.name, key⟩
      obtain ⟨looked', follows'⟩ := follows'.get rfl ⟨d.name, key⟩
      cases found : (order.get ⟨d.name, key⟩).1 with
      | some t =>
        obtain ⟨answer, cache⟩ := template_of_hit (n := n) hk caching (looked.trans found)
        obtain ⟨answer', cache'⟩ := template_of_hit (n := n) hk caching' (looked'.trans found)
        exact ⟨answer'.trans answer.symm, configs, _, cache ▸ follows, cache' ▸ follows'⟩
      | none =>
        obtain ⟨answer, cache⟩ := template_of_miss (n := n) hk caching (looked.trans found)
        obtain ⟨answer', cache'⟩ := template_of_miss (n := n) hk caching' (looked'.trans found)
        refine ⟨answer'.trans answer.symm, configs, ?_⟩
        cases rendered : n.template d survey false with
        | error fault =>
          rw [rendered] at cache cache'
          dsimp only at cache cache'
          exact ⟨_, cache ▸ follows, cache' ▸ follows'⟩
        | ok t =>
          rw [rendered] at cache cache'
          dsimp only at cache cache'
          exact ⟨_, cache ▸ (follows.insertIfAbsent rfl _ t fun _ _ => rfl).2,
            cache' ▸ (follows'.insertIfAbsent rfl _ t fun _ _ => rfl).2⟩

theorem Alike.compileResolved (h : Alike c c') (n : Node) (d : Dialect) (inline : Bool) :
    (c'.compileResolved n d inline).1 = (c.compileResolved n d inline).1 ∧
      Alike (c.compileResolved n d inline).2 (c'.compileResolved n d inline).2 := by
  have started : Alike c.counted c'.counted := ⟨h.config, h.cache⟩
  obtain ⟨same, alike⟩ := started.template n d (n.surveyed c.config.keyBound) inline
  cases names : (n.surveyed c.config.keyBound).checkBindNames with
  | error fault =>
    rw [compileResolved_of_error names, compileResolved_of_error (h.config ▸ names)]
    exact ⟨rfl, h⟩
  | ok =>
    rw [compileResolved_of_ok d inline names, compileResolved_of_ok d inline (h.config ▸ names),
      h.config]
    dsimp only
    rw [same]
    exact ⟨rfl, alike⟩

theorem Alike.compile (h : Alike c c') (r : Request) :
    (c'.compile r.factories r.tree r.dialect r.options r.next).1 =
        (c.compile r.factories r.tree r.dialect r.options r.next).1 ∧
      Alike (c.compile r.factories r.tree r.dialect r.options r.next).2
        (c'.compile r.factories r.tree r.dialect r.options r.next).2 := by
  cases resolved : r.tree.resolved r.factories r.options.scope r.next with
  | error e =>
    rw [compile_of_error resolved, compile_of_error resolved]
    exact ⟨rfl, h⟩
  | ok found =>
    rcases found with ⟨⟨n, diagnostics⟩, next⟩
    obtain ⟨same, alike⟩ := h.compileResolved n r.dialect r.options.literalBinds
    rw [compile_of_ok c _ resolved, compile_of_ok c' _ resolved, same]
    exact ⟨rfl, alike⟩

theorem Alike.after (h : Alike c c') (calls : List Call) : Alike (c.after calls) (c'.after calls) := by
  induction calls generalizing c c' with
  | nil => exact h
  | cons call calls ih =>
    cases call with
    | clearCache => exact ih h.clearCache
    | compile r => exact ih (h.compile r).2

section Sample

end Sample

end Compiler

end SqlAlgebra
