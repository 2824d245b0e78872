import SqlAlgebra.Proofs.Cache.Literals
import SqlAlgebra.Proofs.Template.Percent

/-!
# Other placeholders

A compiler that writes placeholders with percent signs does the same, call after call, as one that
writes them otherwise.  Its cache has the same templates with their percent signs doubled, and what
it answers differs in the text alone.  There every percent sign begins a pair, and the text of the
other compiler is what the pairs stand for, with the placeholders in their places.
-/

namespace SqlAlgebra

open Node

/-! ## Caches with other templates -/

open Clock (tick)

namespace TemplateCache

variable {Time : Type} {cache : TemplateCache Time} {f : String → Template → Template}
  {key : TemplateKey}

/-- An entry with its template changed, depending on the dialect that it is kept for. -/
def changed (f : String → Template → Template) (entry : TemplateKey × CachedTemplate Time) :
    TemplateKey × CachedTemplate Time :=
  (entry.1, { entry.2 with template := f entry.1.dialect entry.2.template })

def map (f : String → Template → Template) (cache : TemplateCache Time) : TemplateCache Time :=
  { cache with entries := cache.entries.map (changed f) }

theorem lookup_map (entries : List (TemplateKey × CachedTemplate Time)) :
    (entries.map (changed f)).lookup key =
      (entries.lookup key).map fun entry =>
        { entry with template := f key.dialect entry.template } := by
  induction entries with
  | nil => rfl
  | cons entry entries ih =>
    rcases entry with ⟨k, entry⟩
    show List.lookup key ((k, _) :: _) = _
    by_cases same : key = k
    · subst same
      rw [List.lookup_cons_self, List.lookup_cons_self]
      rfl
    · rw [List.lookup_cons, List.lookup_cons, beq_eq_false_iff_ne.2 same]
      exact ih

theorem replace_map (f : String → Template → Template) (key : TemplateKey) (entry : CachedTemplate Time)
    (entries : List (TemplateKey × CachedTemplate Time)) :
    replace key { entry with template := f key.dialect entry.template } (entries.map (changed f)) =
      (replace key entry entries).map (changed f) := by
  induction entries with
  | nil => rfl
  | cons first entries ih =>
    rcases first with ⟨k, old⟩
    show replace key _ ((k, _) :: _) = _
    rw [replace, replace]
    by_cases same : k = key
    · subst same
      rw [if_pos rfl, if_pos rfl]
      rfl
    · rw [if_neg same, if_neg same, ih]
      rfl

theorem evict_map (capacity : Nat) (recency : List (Time × TemplateKey))
    (entries : List (TemplateKey × CachedTemplate Time)) :
    evict capacity recency (entries.map (changed f)) =
      ((evict capacity recency entries).1, (evict capacity recency entries).2.map (changed f)) := by
  induction recency generalizing entries with
  | nil => rfl
  | cons use recency ih =>
    rw [evict, evict, List.length_map]
    split
    · rfl
    · rw [List.filter_map, ← ih]
      rfl

theorem evict_append_map (capacity : Nat) (now : Time) (recency : List (Time × TemplateKey))
    (entries : List (TemplateKey × CachedTemplate Time)) (t : Template) :
    evict capacity recency (entries.map (changed f) ++ [(key, ⟨f key.dialect t, now⟩)]) =
      ((evict capacity recency (entries ++ [(key, ⟨t, now⟩)])).1,
        (evict capacity recency (entries ++ [(key, ⟨t, now⟩)])).2.map (changed f)) := by
  rw [← evict_map, List.map_append]
  rfl

variable [Clock Time]

theorem get_map (cache : TemplateCache Time) (key : TemplateKey) :
    (cache.map f).get key =
      ((cache.get key).1.map (f key.dialect), (cache.get key).2.map f) := by
  unfold get
  rw [map, lookup_map]
  cases cache.entries.lookup key with
  | none => rfl
  | some entry =>
    dsimp only [Option.map]
    have renewed := replace_map f key { entry with stamp := tick cache.clock } cache.entries
    dsimp only at renewed
    rw [renewed]
    rfl

theorem insertIfAbsent_map (cache : TemplateCache Time) (key : TemplateKey) (t : Template) :
    (cache.map f).insertIfAbsent key (f key.dialect t) =
      (f key.dialect (cache.insertIfAbsent key t).1, (cache.insertIfAbsent key t).2.map f) := by
  unfold insertIfAbsent
  rw [get_map]
  generalize cache.get key = looked
  rcases looked with ⟨_ | existing, cache⟩
  · dsimp only [Option.map]
    by_cases full : cache.capacity = 0
    · rw [if_pos full]
      exact if_pos full
    · rw [if_neg full]
      refine (if_neg full).trans ?_
      exact congrArg (fun kept : List (Time × TemplateKey) × List (TemplateKey × CachedTemplate Time) =>
        (f key.dialect t, TemplateCache.mk cache.capacity kept.2 kept.1 (tick cache.clock)))
          (evict_append_map cache.capacity (tick cache.clock) _ cache.entries t)
  · rfl

end TemplateCache

/-! ## Compilers with other templates -/

/-- A call with its placeholders in another style, if it is for a dialect of this name. -/
def Request.restyled (name : String) (style : BindStyle) (r : Request) : Request :=
  { r with dialect := if r.dialect.name = name then r.dialect.restyled style else r.dialect }

def Call.restyled (name : String) (style : BindStyle) : Call → Call
  | .compile r => .compile (r.restyled name style)
  | .clearCache => .clearCache

/-- Doubles the percent signs of the templates of one dialect. -/
def doubledFor (name dialect : String) (t : Template) : Template :=
  if dialect = name then t.doubled else t

theorem doubledFor_self (name : String) : doubledFor name name = Template.doubled :=
  funext fun _ => if_pos rfl

namespace Compiler

variable {c : Compiler} {config : CompilerConfig} {n : Node} {d d' : Dialect} {survey : Survey}
  {inline : Bool} {name : String} {style : BindStyle} {r : Request} {calls : List Call}
  {f : String → Template → Template}

def map (f : String → Template → Template) (c : Compiler) : Compiler :=
  { c with cache := c.cache.map f }

/-- Compilers whose templates differ throughout in the same way keep and find them alike. -/
theorem template_map (d' : Dialect) (inline : Bool) (same : d'.name = d.name)
    (rendered : ∀ inline, n.template d survey inline =
      (n.template d' survey inline).map (f d.name)) :
    (c.map f).template n d survey inline =
      ((c.template n d' survey inline).1.map fun found => (f d.name found.1, found.2),
        (c.template n d' survey inline).2.map f) := by
  have plain : (n.template d survey inline).map (·, false) =
      ((n.template d' survey inline).map (·, false)).map
        fun found : Template × Bool => (f d.name found.1, found.2) := by
    rw [rendered]
    cases n.template d' survey inline <;> rfl
  unfold template
  cases survey.buffer.key? with
  | none =>
    dsimp only
    rw [plain]
    rfl
  | some key =>
    dsimp only
    have config : (c.map f).config = c.config := rfl
    rw [config]
    by_cases anew : (inline || !c.config.caching) = true
    · rw [if_pos anew, if_pos anew, plain]
    · rw [if_neg anew, if_neg anew, same]
      have looked : (c.map f).cache.get ⟨d.name, key⟩ = _ :=
        TemplateCache.get_map c.cache ⟨d.name, key⟩
      rw [looked]
      generalize c.cache.get ⟨d.name, key⟩ = found
      rcases found with ⟨_ | t, cache⟩
      · dsimp only [Option.map]
        rw [rendered]
        cases n.template d' survey false with
        | error fault => rfl
        | ok t =>
          have kept := TemplateCache.insertIfAbsent_map (f := f) cache ⟨d.name, key⟩ t
          dsimp only [Except.map, map]
          rw [kept]
      · rfl

/-- Whether one request leads to the templates of another one with this change made to them. -/
def Rendered (f : String → Template → Template) (r r' : Request) : Prop :=
  r'.dialect.name = r.dialect.name ∧ ∀ (n : Node) (survey : Survey) (inline : Bool),
    n.template r.dialect survey inline =
      (n.template r'.dialect survey inline).map (f r.dialect.name)

theorem respond_map {d' : Dialect} (rendered : Rendered f r { r with dialect := d' }) :
    ((c.map f).respond r).2 = (c.respond { r with dialect := d' }).2.map f := by
  cases resolved : r.tree.resolved r.factories r.options.scope r.next with
  | error e =>
    rw [respond_of_unresolved resolved,
      respond_of_unresolved (r := { r with dialect := d' }) resolved]
  | ok found =>
    rcases found with ⟨⟨n, diagnostics⟩, next⟩
    cases names : (n.surveyed c.config.keyBound).checkBindNames with
    | error fault =>
      rw [respond_of_names (c := c.map f) resolved names,
        respond_of_names (r := { r with dialect := d' }) resolved names]
    | ok =>
      rw [respond_of_resolved (c := c.map f) resolved names,
        respond_of_resolved (r := { r with dialect := d' }) resolved names]
      have kept := template_map (c := c.counted) _ r.options.literalBinds rendered.1
        (rendered.2 n (n.surveyed c.config.keyBound))
      exact congrArg Prod.snd kept

/-- A request for one dialect, of which all have placeholders with percent signs, or for another. -/
theorem rendered_restyled (format : r.dialect.name = name → r.dialect.bindStyle = .format)
    (other : style ≠ .format) : Rendered (doubledFor name) r (r.restyled name style) := by
  unfold Rendered Request.restyled doubledFor
  by_cases same : r.dialect.name = name
  · rw [if_pos same]
    refine ⟨rfl, fun n survey inline => ?_⟩
    rw [Template.template_doubled (format same) other]
    refine congrArg (Except.map · _) (funext fun t => ?_)
    rw [if_pos same]
  · rw [if_neg same]
    refine ⟨rfl, fun n survey inline => ?_⟩
    cases n.template r.dialect survey inline with
    | error fault => rfl
    | ok t => exact congrArg Except.ok (if_neg same).symm

theorem after_map (c : Compiler) (other : style ≠ .format)
    (format : ∀ r ∈ calls.filterMap Call.request?, r.dialect.name = name →
      r.dialect.bindStyle = .format) :
    (c.map (doubledFor name)).after calls =
      (c.after (calls.map (Call.restyled name style))).map (doubledFor name) := by
  induction calls generalizing c with
  | nil => rfl
  | cons call calls ih =>
    cases call with
    | clearCache => exact ih c.clearCache format
    | compile r =>
      have one := respond_map (c := c) (rendered_restyled (format r List.mem_cons_self) other)
      show ((c.map (doubledFor name)).respond r).2.after calls = _
      rw [one]
      exact ih _ fun r' hr' => format r' (List.mem_cons_of_mem _ hr')

/-- A compiler whose templates for a dialect have their percent signs doubled compiles for it what
spells the statement of the other compiler. -/
theorem exists_spelled (format : r.dialect.bindStyle = .format) (other : style ≠ .format)
    (plain : '%' ∉ r.dialect.emptySet.toList) {compiled : Compiled} {next : Identity}
    (h : ((c.map (doubledFor r.dialect.name)).compile r.factories r.tree r.dialect r.options
      r.next).1 = .ok (compiled, next)) :
    ∃ tokens, Spells compiled.sql tokens ∧ tokens.count none = compiled.params.size ∧
      (c.compile r.factories r.tree (r.dialect.restyled style) r.options r.next).1 =
        .ok ({ compiled with
          sql := Part.written tokens (Template.placeholders (r.dialect.restyled style) 0
            compiled.params.entries) }, next) := by
  obtain ⟨n, diagnostics, t, resolved, names, template, assembled⟩ := exists_of_compile h
  have whole := compile_of_template resolved names template assembled
  rw [h] at whole
  have same : ∀ inline, n.template r.dialect (n.surveyed c.config.keyBound) inline =
      (n.template (r.dialect.restyled style) (n.surveyed c.config.keyBound) inline).map
        (doubledFor r.dialect.name r.dialect.name) := by
    rw [doubledFor_self]
    exact fun inline => Template.template_doubled format other n
  have name : (r.dialect.restyled style).name = r.dialect.name := rfl
  have found := congrArg Prod.fst
    (template_map (c := c.counted) (r.dialect.restyled style) r.options.literalBinds name same)
  rw [doubledFor_self] at found
  obtain ⟨⟨u, hit⟩, rendered, same⟩ := Template.exists_of_map (found.symm.trans template)
  obtain ⟨rfl, rfl⟩ := Prod.mk.inj same
  obtain ⟨s, tokens, assembled', stands⟩ := Template.assemble_doubled style format plain
    u.segments.reverse (by rw [← List.map_reverse, List.reverse_reverse]; exact assembled)
  rw [List.reverse_reverse] at assembled'
  have compiles := compile_of_template (c := c)
    (r := { r with dialect := r.dialect.restyled style }) resolved names rendered assembled'
  refine ⟨tokens, stands.spells, stands.gaps, compiles.trans ?_⟩
  rcases compiled with ⟨sql, params, diagnostics', hit⟩
  cases whole
  rw [stands.sql, stands.params]
  rfl

/-- Whatever a tree contains and whatever was compiled before, every percent sign of a statement for
MySQL begins a pair.  As many of them are placeholders as there are parameters, and what the pairs
stand for is the statement that the same dialect has with placeholders of another style. -/
theorem percents_of_compile (style : BindStyle) {compiled : Compiled} {next : Identity}
    (mysql : r.dialect = .mysql) (other : style ≠ .format)
    (format : ∀ r' ∈ calls.filterMap Call.request?, r'.dialect.name = "mysql" →
      r'.dialect.bindStyle = .format)
    (h : (((Compiler.new config).after calls).compile r.factories r.tree r.dialect r.options
      r.next).1 = .ok (compiled, next)) :
    ∃ tokens, percents? compiled.sql.toList = some tokens ∧
      tokens.count none = compiled.params.size ∧
      (((Compiler.new config).after (calls.map (Call.restyled "mysql" style))).compile r.factories
          r.tree (r.dialect.restyled style) r.options r.next).1 =
        .ok ({ compiled with
          sql := Part.written tokens (Template.placeholders (r.dialect.restyled style) 0
            compiled.params.entries) }, next) := by
  have name : r.dialect.name = "mysql" := by rw [mysql]; rfl
  have earlier : (Compiler.new config).after calls =
      ((Compiler.new config).after (calls.map (Call.restyled "mysql" style))).map
        (doubledFor r.dialect.name) := by
    rw [name]
    exact after_map (.new config) other format
  rw [earlier] at h
  obtain ⟨tokens, spells, gaps, compiles⟩ :=
    exists_spelled (by rw [mysql]; rfl) other (by rw [mysql]; decide) h
  exact ⟨tokens, spells.percents?, gaps, compiles⟩

end Compiler

section Sample

/-- The remainder of the column `a` divided by a parameter. -/
def sampleRemainder : Node := ⟨3, .binary (sampleColumn 0) .mod samplePattern, .string, [], []⟩

def Request.sampleRemainder : Request :=
  { Request.sample SqlAlgebra.sampleRemainder with dialect := .mysql }

end Sample

/-- The operator is told from the placeholder after it, also in a text from the cache. -/
theorem Compiler.percents_of_compile_sampleRemainder :
    let r := Request.sampleRemainder
    let plain := (Compiler.new {}).after [.compile (r.restyled "mysql" .questionMark)]
    ∃ (compiled : Compiled) (next : Identity) (tokens : List (Option Char)),
      compiled.sql = "t.a %% %s" ∧ compiled.cacheHit = true ∧
      percents? compiled.sql.toList = some tokens ∧ tokens.count none = compiled.params.size ∧
      (plain.compile r.factories r.tree (r.dialect.restyled .questionMark) r.options r.next).1 =
        .ok ({ compiled with
          sql := Part.written tokens (Template.placeholders (r.dialect.restyled .questionMark) 0
            compiled.params.entries) }, next) := by
  intro r plain
  have run : (((Compiler.new {}).after [.compile r]).compile r.factories r.tree r.dialect r.options
      r.next).1.toOption.map (fun found => (found.1.sql, found.1.cacheHit)) =
        some ("t.a %% %s", true) := by
    decide +kernel
  obtain ⟨⟨compiled, next⟩, out, shown⟩ := Build.exists_of_toOption run
  obtain ⟨sql, hit⟩ := Prod.mk.inj shown
  obtain ⟨tokens, spells, gaps, compiles⟩ := percents_of_compile .questionMark rfl
    nofun (by simp [Call.request?, r, Request.sampleRemainder, Dialect.mysql]) out
  exact ⟨compiled, next, tokens, sql, hit, spells, gaps, compiles⟩

end SqlAlgebra
