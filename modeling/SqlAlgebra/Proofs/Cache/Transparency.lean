import SqlAlgebra.Proofs.Cache.Entries
import SqlAlgebra.Proofs.Deferred.Resolution
import SqlAlgebra.Proofs.Deferred.Search
import SqlAlgebra.Proofs.Template.Dependence

/-!
# Transparency of the cache

A compiler answers calls one after another.  Its answers are those of compilers that keep no
templates exactly if the trees that share a key can be filled into one another's templates.  Trees
with the same key are alike but for what stands in their FROM positions, so where this corresponds
one to one as well the cache never shows.
-/

namespace SqlAlgebra

open Node

/-- A compilation that is asked for, with all that it is about. -/
structure Request where
  factories : Factories
  tree : Node
  dialect : Dialect
  options : CompileOptions
  /-- The identity that is free when the call is made. -/
  next : Identity

inductive Call where
  | compile (request : Request)
  | clearCache

/-- What a compilation gives back. -/
abbrev Answer := Except Error (Compiled × Identity)

/-- A compiled statement without the note on where its text came from. -/
def Compiled.withoutHit (compiled : Compiled) : Compiled := { compiled with cacheHit := false }

namespace Compiler

/-- The answer to a request but for where its text came from, with the compiler after that. -/
def respond (c : Compiler) (r : Request) : Answer × Compiler :=
  let (answer, c) := c.compile r.factories r.tree r.dialect r.options r.next
  (answer.map fun (compiled, next) => (compiled.withoutHit, next), c)

/-- The answers to the requests among some calls that are made one after another. -/
def answers (c : Compiler) : List Call → List Answer
  | [] => []
  | .compile r :: calls => (c.respond r).1 :: (c.respond r).2.answers calls
  | .clearCache :: calls => c.clearCache.answers calls

end Compiler

/-- The answer to a request on a new compiler that keeps no templates. -/
def Request.alone (config : CompilerConfig) (r : Request) : Answer :=
  ((Compiler.new config.withoutCache).respond r).1

def Call.request? : Call → Option Request
  | .compile r => some r
  | .clearCache => none

/-- A request whose tree, once resolved, is looked up in the cache under a key. -/
structure Request.Reaches (config : CompilerConfig) (r : Request) (key : Key) (n : Node) :
    Prop where
  resolved : ∃ diagnostics next,
    r.tree.resolved r.factories r.options.scope r.next = .ok ((n, diagnostics), next)
  names : (n.surveyed config.keyBound).checkBindNames = .ok ()
  placeholders : r.options.literalBinds = false
  key : (n.surveyed config.keyBound).buffer.key? = some key

/-- Whether the template that one request leaves under a key serves another that finds it there. -/
def Request.Serves (config : CompilerConfig) (r r' : Request) : Prop :=
  ∀ ⦃key : Key⦄ ⦃m n : Node⦄ ⦃t : Template⦄, r.Reaches config key m → r'.Reaches config key n →
    m.template r.dialect (m.surveyed config.keyBound) false = .ok t →
      t.assemble r'.dialect (n.surveyed config.keyBound).binds =
        (n.template r'.dialect (n.surveyed config.keyBound) false).bind
          (·.assemble r'.dialect (n.surveyed config.keyBound).binds)

namespace Compiler

variable {c : Compiler} {config : CompilerConfig} {n : Node} {d : Dialect} {survey : Survey}
  {inline : Bool} {k : TemplateKey} {key : Key} {t u : Template} {r : Request} {S : Request → Prop}

/-! ## One call -/

theorem template_config : (c.template n d survey inline).2.config = c.config := by
  unfold template
  split
  · rfl
  · split
    · rfl
    · split
      · rfl
      · dsimp only
        split <;> rfl

theorem template_of_none (n : Node) (d : Dialect) (inline : Bool) (h : survey.buffer.key? = none) :
    (c.template n d survey inline).1 = (n.template d survey inline).map (·, false) ∧
      (c.template n d survey inline).2.cache = c.cache := by
  unfold template
  rw [h]
  exact ⟨rfl, rfl⟩

theorem template_of_uncached (n : Node) (d : Dialect) (survey : Survey) (inline : Bool)
    (h : (inline || !c.config.caching) = true) :
    (c.template n d survey inline).1 = (n.template d survey inline).map (·, false) ∧
      (c.template n d survey inline).2.cache = c.cache := by
  unfold template
  split
  · exact ⟨rfl, rfl⟩
  · rw [if_pos h]
    exact ⟨rfl, rfl⟩

theorem template_of_hit (hk : survey.buffer.key? = some key) (hc : c.config.caching = true)
    (h : (c.cache.get ⟨d.name, key⟩).1 = some t) :
    (c.template n d survey false).1 = .ok (t, true) ∧
      (c.template n d survey false).2.cache = (c.cache.get ⟨d.name, key⟩).2 := by
  unfold template
  rw [hk, hc]
  dsimp only [Bool.false_or, Bool.not_true]
  generalize c.cache.get ⟨d.name, key⟩ = looked at h
  rcases looked with ⟨found, cache⟩
  obtain rfl : found = some t := h
  exact ⟨rfl, rfl⟩

theorem template_of_miss (hk : survey.buffer.key? = some key) (hc : c.config.caching = true)
    (h : (c.cache.get ⟨d.name, key⟩).1 = none) :
    (c.template n d survey false).1 = (n.template d survey false).map (·, false) ∧
      (c.template n d survey false).2.cache =
        match n.template d survey false with
        | .ok t => ((c.cache.get ⟨d.name, key⟩).2.insertIfAbsent ⟨d.name, key⟩ t).2
        | .error _ => (c.cache.get ⟨d.name, key⟩).2 := by
  have absent := TemplateCache.get_get_of_none h
  unfold template
  rw [hk, hc]
  dsimp only [Bool.false_or, Bool.not_true]
  generalize c.cache.get ⟨d.name, key⟩ = looked at h absent
  rcases looked with ⟨found, cache⟩
  obtain rfl : found = none := h
  cases n.template d survey false with
  | error fault => exact ⟨rfl, rfl⟩
  | ok t =>
    refine ⟨?_, rfl⟩
    dsimp only
    rw [TemplateCache.insertIfAbsent_fst_of_none absent]
    rfl

/-- The compiler after one more call came as far as rendering. -/
def counted (c : Compiler) : Compiler :=
  { c with stats.compilations := c.stats.compilations + 1 }

theorem compileResolved_of_error {fault : CompileFault}
    (names : (n.surveyed c.config.keyBound).checkBindNames = .error fault) :
    c.compileResolved n d inline = (.error fault, c) := by
  unfold compileResolved
  dsimp only
  rw [names]

/-- A tree whose names do not conflict is compiled by filling its template. -/
theorem compileResolved_of_ok (d : Dialect) (inline : Bool)
    (names : (n.surveyed c.config.keyBound).checkBindNames = .ok ()) :
    c.compileResolved n d inline =
      ((c.counted.template n d (n.surveyed c.config.keyBound) inline).1.bind fun found =>
          (found.1.assemble d (n.surveyed c.config.keyBound).binds).map fun s =>
            ⟨s.sql, s.params, (n.surveyed c.config.keyBound).diagnostics, found.2⟩,
        (c.counted.template n d (n.surveyed c.config.keyBound) inline).2) := by
  unfold compileResolved counted
  dsimp only
  rw [names]
  dsimp only
  generalize Compiler.template _ n d _ inline = x
  rcases x with ⟨fault | ⟨t, hit⟩, c'⟩
  · rfl
  · dsimp only [Except.bind]
    cases t.assemble d (n.surveyed c.config.keyBound).binds <;> rfl

theorem compile_of_error {factories : Factories} {options : CompileOptions} {next : Identity}
    {e : Error} (h : n.resolved factories options.scope next = .error e) :
    c.compile factories n d options next = (.error e, c) := by
  unfold compile
  rw [h]

/-- A tree is compiled as what its deferred expressions resolve to is. -/
theorem compile_of_ok {factories : Factories} {options : CompileOptions} {next next' : Identity}
    {m : Node} {diagnostics : List Diagnostic} (c : Compiler) (d : Dialect)
    (h : n.resolved factories options.scope next = .ok ((m, diagnostics), next')) :
    c.compile factories n d options next =
      (((c.compileResolved m d options.literalBinds).1.mapError Error.compile).map fun compiled =>
          ({ compiled with diagnostics := compiled.diagnostics ++ diagnostics }, next'),
        (c.compileResolved m d options.literalBinds).2) := by
  unfold compile
  rw [h]
  dsimp only
  rcases c.compileResolved m d options.literalBinds with ⟨fault | compiled, c'⟩ <;> rfl

/-- What is compiled from a template that was rendered or found. -/
theorem compile_of_template {diagnostics : List Diagnostic} {next : Identity} {t : Template}
    {hit : Bool} {s : Statement}
    (resolved : r.tree.resolved r.factories r.options.scope r.next = .ok ((n, diagnostics), next))
    (names : (n.surveyed c.config.keyBound).checkBindNames = .ok ())
    (template : (c.counted.template n r.dialect (n.surveyed c.config.keyBound)
      r.options.literalBinds).1 = .ok (t, hit))
    (assembled : t.assemble r.dialect (n.surveyed c.config.keyBound).binds = .ok s) :
    (c.compile r.factories r.tree r.dialect r.options r.next).1 =
      .ok (⟨s.sql, s.params, (n.surveyed c.config.keyBound).diagnostics ++ diagnostics, hit⟩,
        next) := by
  rw [compile_of_ok c _ resolved, compileResolved_of_ok _ _ names, template]
  dsimp only [Except.bind]
  rw [assembled]
  rfl

/-- The statement of a tree without deferred expressions. -/
def filled (c : Compiler) (n : Node) (d : Dialect) (inline : Bool) :
    Except CompileFault Statement :=
  (c.template n d (n.surveyed c.config.keyBound) inline).1.bind
    (·.1.assemble d (n.surveyed c.config.keyBound).binds)

theorem filled_of_plain {bound : Nat} (hb : c.config.keyBound = bound)
    (h : (c.template n d (n.surveyed bound) inline).1 =
      (n.template d (n.surveyed bound) inline).map (·, false)) :
    c.filled n d inline =
      (n.template d (n.surveyed bound) inline).bind (·.assemble d (n.surveyed bound).binds) := by
  subst hb
  rw [filled, h]
  cases n.template d (n.surveyed c.config.keyBound) inline <;> rfl

/-- What is answered about a statement. -/
def report (survey : Survey) (diagnostics : List Diagnostic) (next : Identity) :
    Except CompileFault Statement → Answer
  | .error fault => .error (.compile fault)
  | .ok s => .ok (⟨s.sql, s.params, survey.diagnostics ++ diagnostics, false⟩, next)

theorem report_injective {diagnostics : List Diagnostic} {next : Identity}
    {x y : Except CompileFault Statement}
    (h : report survey diagnostics next x = report survey diagnostics next y) : x = y := by
  cases x <;> cases y <;> simp only [report, Except.error.injEq, Except.ok.injEq, reduceCtorEq,
    Error.compile.injEq, Prod.mk.injEq, Compiled.mk.injEq, and_true] at h
  · rw [h]
  · rename_i x y
    rcases x with ⟨sql, params⟩
    rcases y with ⟨sql', params'⟩
    obtain ⟨rfl, rfl⟩ := h
    rfl

theorem respond_of_unresolved {e : Error}
    (h : r.tree.resolved r.factories r.options.scope r.next = .error e) :
    c.respond r = (.error e, c) := by
  unfold respond
  rw [compile_of_error h]
  rfl

theorem respond_of_names {diagnostics : List Diagnostic} {next : Identity} {fault : CompileFault}
    (h : r.tree.resolved r.factories r.options.scope r.next = .ok ((n, diagnostics), next))
    (names : (n.surveyed c.config.keyBound).checkBindNames = .error fault) :
    c.respond r = (.error (.compile fault), c) := by
  unfold respond
  rw [compile_of_ok c _ h, compileResolved_of_error names]
  rfl

theorem respond_of_resolved {diagnostics : List Diagnostic} {next : Identity}
    (h : r.tree.resolved r.factories r.options.scope r.next = .ok ((n, diagnostics), next))
    (names : (n.surveyed c.config.keyBound).checkBindNames = .ok ()) :
    c.respond r =
      (report (n.surveyed c.config.keyBound) diagnostics next
          (c.counted.filled n r.dialect r.options.literalBinds),
        (c.counted.template n r.dialect (n.surveyed c.config.keyBound)
          r.options.literalBinds).2) := by
  unfold respond filled
  rw [compile_of_ok c _ h, compileResolved_of_ok _ _ names]
  dsimp only [counted]
  rcases Compiler.template _ n r.dialect _ _ with ⟨fault | ⟨t, hit⟩, c'⟩
  · rfl
  · dsimp only [Except.bind]
    cases t.assemble r.dialect (n.surveyed c.config.keyBound).binds <;> rfl

theorem respond_config : (c.respond r).2.config = c.config := by
  cases h : r.tree.resolved r.factories r.options.scope r.next with
  | error e => rw [respond_of_unresolved h]
  | ok found =>
    rcases found with ⟨⟨n, diagnostics⟩, next⟩
    cases names : (n.surveyed c.config.keyBound).checkBindNames with
    | error fault => rw [respond_of_names h names]
    | ok =>
      rw [respond_of_resolved h names]
      exact template_config

/-! ## Requests that share templates -/

/-- The compiler holds only templates of requests of a kind. -/
structure Sound (config : CompilerConfig) (S : Request → Prop) (c : Compiler) : Prop where
  sameConfig : c.config = config
  sameCapacity : c.cache.capacity = config.capacity
  holds : ∀ ⦃k : TemplateKey⦄ ⦃t : Template⦄, c.cache.Holds k t →
    config.caching = true ∧ config.capacity ≠ 0 ∧ ∃ r m, S r ∧ r.Reaches config k.key m ∧
      r.dialect.name = k.dialect ∧
        m.template r.dialect (m.surveyed config.keyBound) false = .ok t

theorem sound_new : Sound config S (.new config) where
  sameConfig := rfl
  sameCapacity := rfl
  holds _ _ h := (TemplateCache.not_holds_empty h).elim

theorem Sound.clearCache (h : Sound config S c) : Sound config S c.clearCache where
  sameConfig := h.sameConfig
  sameCapacity := h.sameCapacity
  holds _ _ h := (TemplateCache.not_holds_clear h).elim

theorem Sound.of_cache {c' : Compiler} (h : Sound config S c) (config' : c'.config = c.config)
    (capacity : c'.cache.capacity = c.cache.capacity)
    (holds : ∀ ⦃k : TemplateKey⦄ ⦃t : Template⦄, c'.cache.Holds k t → c.cache.Holds k t) :
    Sound config S c' where
  sameConfig := config'.trans h.sameConfig
  sameCapacity := capacity.trans h.sameCapacity
  holds _ _ hk := h.holds (holds hk)

theorem Sound.template (h : Sound config S c) (hr : S r) (hn : r.Reaches config key n) :
    Sound config S (c.template n r.dialect (n.surveyed config.keyBound) false).2 := by
  have hc : (c.template n r.dialect (n.surveyed config.keyBound) false).2.config = c.config :=
    template_config
  cases caching : c.config.caching with
  | false =>
    obtain ⟨-, cache⟩ := template_of_uncached (c := c) n r.dialect
      (n.surveyed config.keyBound) false (by rw [caching]; rfl)
    exact h.of_cache hc (by rw [cache]) fun _ _ hk => by rwa [cache] at hk
  | true =>
    cases found : (c.cache.get ⟨r.dialect.name, key⟩).1 with
    | some t =>
      obtain ⟨-, cache⟩ := template_of_hit (n := n) hn.key caching found
      refine h.of_cache hc ?_ fun _ _ hk => ?_
      · rw [cache, TemplateCache.get_capacity]
      · rw [cache] at hk
        exact TemplateCache.holds_of_get hk
    | none =>
      obtain ⟨-, cache⟩ := template_of_miss (n := n) hn.key caching found
      cases rendered : n.template r.dialect (n.surveyed config.keyBound) false with
      | error fault =>
        rw [rendered] at cache
        refine h.of_cache hc ?_ fun _ _ hk => ?_
        · rw [cache, TemplateCache.get_capacity]
        · rw [cache] at hk
          exact TemplateCache.holds_of_get hk
      | ok t =>
        rw [rendered] at cache
        refine ⟨hc.trans h.sameConfig, ?_, fun k u hk => ?_⟩
        · rw [cache, TemplateCache.insertIfAbsent_capacity, TemplateCache.get_capacity,
            h.sameCapacity]
        · rw [cache] at hk
          obtain hk | ⟨rfl, rfl, room⟩ := TemplateCache.holds_of_insertIfAbsent hk
          · exact h.holds (TemplateCache.holds_of_get hk)
          · rw [TemplateCache.get_capacity, h.sameCapacity] at room
            exact ⟨h.sameConfig ▸ caching, room, r, n, hr, hn, rfl, rendered⟩

/-- The statement that a sound compiler makes of a tree is the one that it makes on its own, if the
templates that it has serve the tree. -/
theorem Sound.filled (h : Sound config S c) (hn : r.Reaches config key n)
    (serves : ∀ ⦃k : TemplateKey⦄ ⦃t : Template⦄, k = ⟨r.dialect.name, key⟩ → c.cache.Holds k t →
      t.assemble r.dialect (n.surveyed config.keyBound).binds =
        (n.template r.dialect (n.surveyed config.keyBound) false).bind
          (·.assemble r.dialect (n.surveyed config.keyBound).binds)) :
    c.filled n r.dialect false =
      (n.template r.dialect (n.surveyed config.keyBound) false).bind
        (·.assemble r.dialect (n.surveyed config.keyBound).binds) := by
  obtain rfl := h.sameConfig
  cases caching : c.config.caching with
  | false => exact filled_of_plain rfl (template_of_uncached n _ _ _ (by rw [caching]; rfl)).1
  | true =>
    cases found : (c.cache.get ⟨r.dialect.name, key⟩).1 with
    | none => exact filled_of_plain rfl (template_of_miss hn.key caching found).1
    | some t =>
      rw [Compiler.filled, (template_of_hit hn.key caching found).1,
        ← serves rfl (TemplateCache.holds_of_get_fst found)]
      rfl

/-- A compiler that answers a request holds nothing afterwards but templates of such requests. -/
theorem Sound.after_respond (h : Sound config S c) (hr : S r) :
    Sound config S (c.respond r).2 := by
  have bound : c.config.keyBound = config.keyBound := by rw [h.sameConfig]
  have counted : Sound config S c.counted := h.of_cache rfl rfl fun _ _ hk => hk
  cases resolved : r.tree.resolved r.factories r.options.scope r.next with
  | error e =>
    rw [respond_of_unresolved resolved]
    exact h
  | ok found =>
    rcases found with ⟨⟨n, diagnostics⟩, next⟩
    cases names : (n.surveyed config.keyBound).checkBindNames with
    | error fault =>
      rw [respond_of_names (c := c) resolved (by rw [bound]; exact names)]
      exact h
    | ok =>
      rw [respond_of_resolved (c := c) resolved (by rw [bound]; exact names), bound]
      cases inline : r.options.literalBinds with
      | true =>
        obtain ⟨-, snd⟩ := template_of_uncached (c := c.counted) n r.dialect
          (n.surveyed config.keyBound) true rfl
        exact counted.of_cache template_config (by rw [snd]) fun _ _ hk => by rwa [snd] at hk
      | false =>
        cases key : (n.surveyed config.keyBound).buffer.key? with
        | none =>
          obtain ⟨-, snd⟩ := template_of_none (c := c.counted) n r.dialect false key
          exact counted.of_cache template_config (by rw [snd]) fun _ _ hk => by rwa [snd] at hk
        | some key => exact counted.template hr ⟨⟨_, _, resolved⟩, names, inline, key⟩

/-- Among requests whose templates serve one another, a sound compiler answers each as if it were
alone. -/
theorem Sound.respond (h : Sound config S c) (hr : S r)
    (serves : config.caching = true → config.capacity ≠ 0 →
      ∀ r', S r' → r'.dialect.name = r.dialect.name → r'.Serves config r) :
    (c.respond r).1 = r.alone config ∧ Sound config S (c.respond r).2 := by
  refine ⟨?_, h.after_respond hr⟩
  have bound : c.config.keyBound = config.keyBound := by rw [h.sameConfig]
  have counted : Sound config S c.counted := h.of_cache rfl rfl fun _ _ hk => hk
  cases resolved : r.tree.resolved r.factories r.options.scope r.next with
  | error e =>
    rw [Request.alone, respond_of_unresolved resolved, respond_of_unresolved resolved]
  | ok found =>
    rcases found with ⟨⟨n, diagnostics⟩, next⟩
    cases names : (n.surveyed config.keyBound).checkBindNames with
    | error fault =>
      rw [Request.alone, respond_of_names (c := .new config.withoutCache) resolved names,
        respond_of_names (c := c) resolved (by rw [bound]; exact names)]
    | ok =>
      have plain : (Compiler.new config.withoutCache).counted.filled n r.dialect
          r.options.literalBinds =
            (n.template r.dialect (n.surveyed config.keyBound) r.options.literalBinds).bind
              (·.assemble r.dialect (n.surveyed config.keyBound).binds) :=
        filled_of_plain rfl (template_of_uncached n _ _ _ (Bool.or_true _)).1
      rw [Request.alone, respond_of_resolved (c := .new config.withoutCache) resolved names,
        respond_of_resolved (c := c) resolved (by rw [bound]; exact names), bound, plain]
      cases inline : r.options.literalBinds with
      | true =>
        obtain ⟨fst, -⟩ := template_of_uncached (c := c.counted) n r.dialect
          (n.surveyed config.keyBound) true rfl
        rw [filled_of_plain (c := c.counted) bound fst]
        rfl
      | false =>
        cases key : (n.surveyed config.keyBound).buffer.key? with
        | none =>
          obtain ⟨fst, -⟩ := template_of_none (c := c.counted) n r.dialect false key
          rw [filled_of_plain (c := c.counted) bound fst]
          rfl
        | some key =>
          have reaches : r.Reaches config _ n := ⟨⟨_, _, resolved⟩, names, inline, key⟩
          rw [counted.filled reaches]
          · rfl
          · rintro k t rfl hk
            obtain ⟨caching, room, r', m, hr', reaches', name, rendered⟩ := counted.holds hk
            exact serves caching room r' hr' name reaches' reaches rendered

theorem Sound.answers (h : Sound config S c) {calls : List Call}
    (hcalls : ∀ r ∈ calls.filterMap Call.request?, S r)
    (serves : config.caching = true → config.capacity ≠ 0 →
      ∀ r r', S r → S r' → r'.dialect.name = r.dialect.name → r'.Serves config r) :
    c.answers calls = (calls.filterMap Call.request?).map (Request.alone config) := by
  induction calls generalizing c with
  | nil => rfl
  | cons call calls ih =>
    cases call with
    | clearCache => exact ih h.clearCache hcalls
    | compile r =>
      have hr : S r := hcalls r List.mem_cons_self
      obtain ⟨answer, sound⟩ := h.respond hr fun hc hn r' hr' => serves hc hn r r' hr hr'
      rw [Compiler.answers, answer, ih sound fun r' hr' => hcalls r' (List.mem_cons_of_mem _ hr')]
      rfl

/-- A template that a request left in an empty cache serves the request after it if the cache does
not show. -/
theorem serves_of_answers {r r' : Request} (caching : config.caching = true)
    (room : config.capacity ≠ 0) (same : r.dialect = r'.dialect)
    (h : (Compiler.new config).answers [.compile r, .compile r'] =
      [r.alone config, r'.alone config]) : r.Serves config r' := by
  intro key m n t hm hn rendered
  obtain ⟨diagnostics, next, resolved⟩ := hm.resolved
  obtain ⟨diagnostics', next', resolved'⟩ := hn.resolved
  have empty : ((Compiler.new config).counted.cache.get ⟨r.dialect.name, key⟩).1 = none := rfl
  obtain ⟨-, kept⟩ := template_of_miss (c := (Compiler.new config).counted) (n := m) hm.key caching
    empty
  rw [rendered] at kept
  have first := respond_of_resolved (c := .new config) resolved hm.names
  rw [hm.placeholders] at first
  have config' : ((Compiler.new config).respond r).2.config = config := respond_config
  have found : ((((Compiler.new config).respond r).2.counted.cache).get
      ⟨r'.dialect.name, key⟩).1 = some t := by
    rw [first, ← same]
    show (((Compiler.new config).counted.template m r.dialect (m.surveyed config.keyBound)
      false).2.cache.get ⟨r.dialect.name, key⟩).1 = some t
    rw [kept]
    exact TemplateCache.get_insertIfAbsent_empty room
  have second : (((Compiler.new config).respond r).2.respond r').1 = r'.alone config :=
    (List.cons.inj (List.cons.inj h).2).1
  generalize (Compiler.new config).respond r = after at config' found second
  obtain ⟨fst, -⟩ := template_of_hit (c := after.2.counted) (n := n) hn.key
    (config'.symm ▸ caching) found
  have plain : (Compiler.new config.withoutCache).counted.filled n r'.dialect false =
      (n.template r'.dialect (n.surveyed config.keyBound) false).bind
        (·.assemble r'.dialect (n.surveyed config.keyBound).binds) :=
    filled_of_plain rfl (template_of_uncached n _ _ _ (Bool.or_true _)).1
  have served : after.2.counted.filled n r'.dialect false =
      t.assemble r'.dialect (n.surveyed config.keyBound).binds := by
    rw [filled, show after.2.counted.config = config from config', fst]
    rfl
  rw [Request.alone, respond_of_resolved (c := after.2) resolved' (config'.symm ▸ hn.names),
    respond_of_resolved (c := .new config.withoutCache) resolved' hn.names, hn.placeholders, plain,
    served] at second
  rw [config'] at second
  exact report_injective second

end Compiler

namespace Request

variable {config : CompilerConfig} {S : Request → Prop}

/-- A template serves every tree whose FROM positions correspond one to one to those of its own. -/
theorem serves_of_samePlaces {r r' : Request} (same : r.dialect = r'.dialect)
    (h : ∀ ⦃key : Key⦄ ⦃m n : Node⦄, r.Reaches config key m → r'.Reaches config key n →
      m.IsCoherent ∧ n.IsCoherent ∧ SamePlaces m n) : r.Serves config r' := by
  intro key m n t hm hn rendered
  obtain ⟨coherent, coherent', places⟩ := h hm hn
  obtain ⟨shape, objects⟩ := sameShape_of_key? coherent coherent' hm.key hn.key
  have alike := (simulation_of_samePlaces coherent coherent' shape objects places).template .root
    r.dialect config.keyBound false fun h => nomatch h
  rw [rendered] at alike
  rw [← same]
  generalize n.template r.dialect (n.surveyed config.keyBound) false = x at alike
  cases alike
  rfl

/-- The cache never shows exactly if the templates of any two requests serve one another, as they do
where the FROM positions of trees with the same key correspond one to one. -/
theorem answers_eq_alone_iff (config : CompilerConfig) (S : Request → Prop)
    (names : ∀ r r', S r → S r' → r.dialect.name = r'.dialect.name → r.dialect = r'.dialect) :
    ((∀ calls : List Call, (∀ r ∈ calls.filterMap Call.request?, S r) →
        (Compiler.new config).answers calls =
          (calls.filterMap Call.request?).map (Request.alone config)) ↔
      (config.caching = true → config.capacity ≠ 0 →
        ∀ r r', S r → S r' → r.dialect = r'.dialect → r.Serves config r')) ∧
    ∀ r r', S r → S r' → r.dialect = r'.dialect →
      (∀ ⦃key : Key⦄ ⦃m n : Node⦄, r.Reaches config key m → r'.Reaches config key n →
        m.IsCoherent ∧ n.IsCoherent ∧ SamePlaces m n) → r.Serves config r' := by
  refine ⟨⟨fun h caching room r r' hr hr' same => ?_, fun h calls hcalls => ?_⟩,
    fun r r' _ _ => serves_of_samePlaces⟩
  · refine Compiler.serves_of_answers caching room same (h [.compile r, .compile r'] ?_)
    intro x hx
    obtain rfl | rfl : x = r ∨ x = r' := by simpa [Call.request?] using hx
    · exact hr
    · exact hr'
  · refine Compiler.sound_new.answers hcalls fun caching room r r' hr hr' name => ?_
    exact h caching room r' r hr' hr (names r' r hr' hr name)

section Sample

/-- A compilation of a tree for one database, where no factory is called. -/
def sample (n : Node) : Request := ⟨fun _ _ => pure .nothing, n, .postgres, {}, 9⟩

theorem containsDeferred_sampleSelect (i : Identity) (value : Int64) :
    (sampleSelect i value).containsDeferred = false := by
  refine containsDeferred_eq_false fun x hx => ?_
  have hx := mem_sampleParts i value hx
  simp only [sampleParts, List.mem_cons, List.not_mem_nil, or_false] at hx
  rcases hx with rfl | rfl | rfl | rfl | rfl <;> rfl

theorem eq_of_reaches_sample {key : Key} {m n : Node} (plain : n.containsDeferred = false)
    (h : (sample n).Reaches config key m) : m = n := by
  obtain ⟨diagnostics, next, resolved⟩ := h.resolved
  rw [sample, Node.resolved, plain] at resolved
  cases resolved
  rfl

end Sample

/-- However often a statement is compiled with other values, the cache does not show. -/
theorem answers_eq_alone_sampleSelect :
    (∀ r r', (∃ v, r = sample (sampleSelect 0 v)) → (∃ v, r' = sample (sampleSelect 0 v)) →
        r.dialect.name = r'.dialect.name → r.dialect = r'.dialect) ∧
      ∀ calls : List Call,
        (∀ r ∈ calls.filterMap Call.request?, ∃ v, r = sample (sampleSelect 0 v)) →
          (Compiler.new {}).answers calls =
            (calls.filterMap Call.request?).map (Request.alone {}) := by
  have names (r r' : Request) (hr : ∃ v, r = sample (sampleSelect 0 v))
      (hr' : ∃ v, r' = sample (sampleSelect 0 v)) (_ : r.dialect.name = r'.dialect.name) :
      r.dialect = r'.dialect := by
    obtain ⟨v, rfl⟩ := hr
    obtain ⟨w, rfl⟩ := hr'
    rfl
  obtain ⟨iff, serves⟩ :=
    answers_eq_alone_iff {} (fun r => ∃ v, r = sample (sampleSelect 0 v)) names
  refine ⟨names, iff.2 fun _ _ r r' hr hr' same => serves r r' hr hr' same ?_⟩
  obtain ⟨v, rfl⟩ := hr
  obtain ⟨w, rfl⟩ := hr'
  intro key m n hm hn
  obtain rfl := eq_of_reaches_sample (containsDeferred_sampleSelect 0 v) hm
  obtain rfl := eq_of_reaches_sample (containsDeferred_sampleSelect 0 w) hn
  exact ⟨isCoherent_sampleSelect 0 v, isCoherent_sampleSelect 0 w, samePlaces_sampleSelect 0 0 v w⟩

section Sample

/-- `SELECT 1 FROM x, x`, where the two texts are one node or two. -/
def sampleTwice (i j : Identity) : Node :=
  ⟨i, .select ⟨[sampleOne], [sampleText 0, sampleText j], none, [], none, [], none, none, false,
    true⟩, .null, [], []⟩

end Sample

/-- A key does not tell whether two texts in a FROM clause are one node, on which the clause
depends. -/
theorem answers_ne_alone :
    (sampleTwice 3 0).IsCoherent ∧ (sampleTwice 4 1).IsCoherent ∧
      ((sampleTwice 3 0).surveyed 100).buffer.key? = ((sampleTwice 4 1).surveyed 100).buffer.key? ∧
      ((Compiler.new {}).answers
          [.compile (sample (sampleTwice 3 0)), .compile (sample (sampleTwice 4 1))]).map
            (·.toOption.map (·.1.sql)) =
        [some "SELECT 1 FROM x", some "SELECT 1 FROM x"] ∧
      [sample (sampleTwice 3 0), sample (sampleTwice 4 1)].map
          (fun r => (r.alone {}).toOption.map (·.1.sql)) =
        [some "SELECT 1 FROM x", some "SELECT 1 FROM x, x"] := by
  refine ⟨?_, ?_, by decide +kernel, by decide +kernel, by decide +kernel⟩
  · refine isCoherent_of_list [sampleText 0, sampleOne, sampleTwice 3 0] (by simp) ?_ ?_
    · simp [children, Kind.children, Select.children, sampleText, sampleOne, sampleTwice]
    · decide
  · refine isCoherent_of_list [sampleText 0, sampleText 1, sampleOne, sampleTwice 4 1]
      (by simp) ?_ ?_
    · simp [children, Kind.children, Select.children, sampleText, sampleOne, sampleTwice]
    · decide

/-! ## Where the cache never shows -/

/-- A request that is made about nodes that exist. -/
def Formed (r : Request) : Prop :=
  ∃ K : Heap, K.Valid r.next ∧ K r.tree ∧ r.factories.Within r.options.scope K

theorem Formed.isCoherent_of_resolved {r : Request} {n : Node} {diagnostics : List Diagnostic}
    {next : Identity} (h : r.Formed)
    (resolved : r.tree.resolved r.factories r.options.scope r.next =
      .ok ((n, diagnostics), next)) : n.IsCoherent := by
  obtain ⟨K, heap, root, sound⟩ := h
  exact SqlAlgebra.isCoherent_of_resolved heap root sound resolved

theorem Formed.isCoherent {r : Request} {key : Key} {n : Node} (h : r.Formed)
    (hn : r.Reaches config key n) : n.IsCoherent := by
  obtain ⟨diagnostics, next, resolved⟩ := hn.resolved
  exact h.isCoherent_of_resolved resolved

/-- The cache never shows among requests whose FROM positions hold nothing but what a key tells
apart. -/
theorem answers_eq_alone_of_placesTracked
    (names : ∀ r r', S r → S r' → r.dialect.name = r'.dialect.name → r.dialect = r'.dialect)
    (formed : ∀ r, S r → r.Formed)
    (tracked : ∀ r, S r → ∀ ⦃key : Key⦄ ⦃n : Node⦄, r.Reaches config key n → n.PlacesTracked)
    {calls : List Call} (hcalls : ∀ r ∈ calls.filterMap Call.request?, S r) :
    (Compiler.new config).answers calls =
      (calls.filterMap Call.request?).map (Request.alone config) := by
  refine Compiler.sound_new.answers hcalls fun _ _ r r' hr hr' name => ?_
  refine serves_of_samePlaces (names r' r hr' hr name) fun key m n hm hn => ?_
  have coherent := (formed r' hr').isCoherent hm
  have coherent' := (formed r hr).isCoherent hn
  obtain ⟨shape, objects⟩ := sameShape_of_key? coherent coherent' hm.key hn.key
  exact ⟨coherent, coherent', (tracked r' hr' hm).samePlaces shape objects⟩

end Request

end SqlAlgebra
