import Mathlib
import SqlAlgebra.Dialect.Database
import SqlAlgebra.Proofs.Deferred.Resolution
import SqlAlgebra.Proofs.Deferred.Search
import SqlAlgebra.Proofs.Survey.KeyEquality
import SqlAlgebra.Proofs.Template.Statement

/-!
# Resolution is substitution

Resolving a statement gives what comes of putting the expressions that were made in the places of
its deferred nodes, all at once and with every sharing of nodes kept, as long as no two of the trees
that are gone over have a deferred node in common.  Where two of them do, its factory is called for
each.
-/

namespace SqlAlgebra

open List (Forall₂)
open Node

/-- Whether two trees have no deferred node in common. -/
def Node.Apart (s t : Node) : Prop := ∀ x, Occurs x s → Occurs x t → x.isDeferred = false

theorem Node.Apart.symm {s t : Node} (h : s.Apart t) : t.Apart s := fun x ht hs => h x hs ht

namespace World

variable {w : World} {memo : Memo} {x y a a' b c d : Node} {r : Rewriting}

/-- What a source became in one of the trees that were gone over. -/
def Seen (w : World) (x a : Node) : Prop :=
  ∃ r ∈ w.log, Occurs x r.tree ∧ r.images.lookup x.id = some a

/-- A part of a tree without deferred nodes is still the same one. -/
theorem Records.unchanged (records : w.Records r) (valid : w.Valid) (hx : Occurs x r.tree)
    (hl : r.images.lookup x.id = some a) (plain : ∀ y, Occurs y x → y.isDeferred = false) :
    a = x := by
  induction x using Node.induct generalizing a with
  | step x ih =>
    cases records.keeps.images (valid.sources.occurs records.source hx) hl with
    | made deferred =>
      rw [plain x .root] at deferred
      cases deferred
    | filled _ below _ _ _ same =>
      refine same (List.ext_getElem below.length_eq.symm fun i hi hi' => ?_)
      have hc : x.children[i] ∈ x.children := List.getElem_mem hi'
      exact ih _ hc (.trans (.deeper hc .root) hx) ((List.forall₂_iff_get.1 below).2 i hi' hi)
        fun y hy => plain y (.deeper hc hy)

/-- If the trees have no deferred node in common, a source became one node everywhere. -/
theorem Seen.unique (valid : w.Valid) (apart : w.log.Pairwise fun r r' => r.tree.Apart r'.tree)
    (h : w.Seen x a) (h' : w.Seen x a') : a = a' := by
  obtain ⟨r, hr, hx, hl⟩ := h
  obtain ⟨r', hr', hx', hl'⟩ := h'
  by_cases same : r = r'
  · subst same
    rw [hl] at hl'
    exact Option.some.inj hl'
  · have : Std.Symm fun r r' : Rewriting => r.tree.Apart r'.tree := ⟨fun _ _ h => h.symm⟩
    have apart := apart.forall hr hr' same
    have plain (y : Node) (hy : Occurs y x) : y.isDeferred = false :=
      apart y (.trans hy hx) (.trans hy hx')
    rw [(valid.log r hr).unchanged valid hx hl plain,
      (valid.log r' hr').unchanged valid hx' hl' plain]

/-- What a source became in the resolution corresponds to what it becomes by substitution. -/
def Corresponds (w : World) (a b : Node) : Prop :=
  ∃ x, x.isDeferred = false ∧ w.Seen x a ∧ x.Becomes w.calls b

theorem corresponds_of_becomes (valid : w.Valid) (once : (w.calls.map fun c => c.deferred.id).Nodup)
    (h : x.Becomes w.calls b) (seen : w.Seen x a) : w.Corresponds a b := by
  induction h with
  | @made x made b deferred call _ ih =>
    obtain ⟨r, hr, hx, hl⟩ := seen
    have records := valid.log r hr
    cases records.keeps.images (valid.sources.occurs records.source hx) hl with
    | @made r' _ call' hr' root =>
      have same := List.inj_on_of_nodup_map once call call' rfl
      cases same
      exact ih ⟨r', hr', .root, root⟩
    | filled plain =>
      rw [plain] at deferred
      cases deferred
  | kept plain length below =>
    exact ⟨_, plain, seen, .kept plain length below⟩

theorem Corresponds.parts (valid : w.Valid) (h : w.Corresponds a b) :
    ∃ (x : Node) (news bs : List Node), w.sources x ∧ x.isDeferred = false ∧ w.Seen x a ∧
      w.origin a.id = x.id ∧ a.type = x.type ∧ a.kind = x.kind.refill news ∧
        b = { x with kind := x.kind.refill bs } ∧ Forall₂ w.Seen x.children news ∧
          Forall₂ (Becomes w.calls) x.children bs := by
  obtain ⟨x, plain, seen, becomes⟩ := h
  obtain ⟨bs, hbs, rfl⟩ := becomes.of_plain plain
  obtain ⟨r, hr, hx, hl⟩ := id seen
  have records := valid.log r hr
  have hs := valid.sources.occurs records.source hx
  cases records.keeps.images hs hl with
  | made deferred =>
    rw [plain] at deferred
    cases deferred
  | @filled news _ below origin type kind _ =>
    refine ⟨x, news, bs, hs, plain, seen, origin, type, kind, rfl, ?_, hbs⟩
    rw [List.forall₂_iff_get]
    refine ⟨below.length_eq, fun i hi hi' => ?_⟩
    have hc : x.children[i] ∈ x.children := List.getElem_mem hi
    exact ⟨r, hr, .trans (.deeper hc .root) hx, (List.forall₂_iff_get.1 below).2 i hi hi'⟩

theorem forall₂_corresponds (valid : w.Valid) (once : (w.calls.map fun c => c.deferred.id).Nodup)
    {xs news bs : List Node} (seen : Forall₂ w.Seen xs news)
    (becomes : Forall₂ (Becomes w.calls) xs bs) :
    Forall₂ w.Corresponds news bs := by
  induction seen generalizing bs with
  | nil =>
    cases becomes
    exact .nil
  | cons seen _ ih =>
    cases becomes with
    | cons becomes others =>
      exact .cons (corresponds_of_becomes valid once becomes seen) (ih others)

theorem visibleType_eq {R : Node → Node → Prop} (kind : a.kind.Like R R R b.kind)
    (type : a.type = b.type) : a.visibleType = b.visibleType := by
  unfold visibleType
  rw [type]
  generalize a.kind = k at kind
  generalize b.kind = k' at kind
  cases kind <;> rfl

/-- The resolved statement and the one with the expressions put in place are rendered alike. -/
theorem simulation (valid : w.Valid) (once : (w.calls.map fun c => c.deferred.id).Nodup)
    (apart : w.log.Pairwise fun r r' => r.tree.Apart r'.tree) :
    Simulation w.Corresponds w.Corresponds w.Corresponds := by
  have identity {a b c d : Node} (hab : w.Corresponds a b) (hcd : w.Corresponds c d) :
      a.id = c.id ↔ b.id = d.id := by
    obtain ⟨x, _, _, hx, _, seen, origin, _, _, rfl, -⟩ := hab.parts valid
    obtain ⟨y, _, _, hy, _, seen', origin', _, _, rfl, -⟩ := hcd.parts valid
    constructor
    · intro eq
      show x.id = y.id
      rw [← origin, ← origin', eq]
    · intro eq
      obtain rfl := valid.sources.unique hx hy eq
      rw [seen.unique valid apart seen']
  refine ⟨fun {a b} hab => ?_, id, id, fun hab hcd _ => identity hab hcd, identity, identity⟩
  obtain ⟨x, news, bs, _, _, _, _, type, kind, rfl, seen, becomes⟩ := hab.parts valid
  have like : a.kind.Like w.Corresponds w.Corresponds w.Corresponds (x.kind.refill bs) := by
    rw [kind]
    exact Kind.refill_like seen.length_eq.symm (forall₂_corresponds valid once seen becomes)
  exact ⟨like, visibleType_eq (b := { x with kind := x.kind.refill bs }) like type⟩

theorem param?_eq (valid : w.Valid) (h : w.Corresponds a b) : a.param? = b.param? := by
  obtain ⟨x, news, bs, _, _, _, _, _, kind, rfl, -⟩ := h.parts valid
  unfold param?
  rw [kind]
  cases x.kind <;> rfl

/-! ## The whole resolution -/

/-- Each deferred node is asked for once exactly if no two trees have one in common. -/
theorem once_iff_apart {n : Node} {logs : List Rewriting} {calls : List LambdaCall}
    (records : ∀ r ∈ logs, w.Records r) (valid : w.Valid) (perm : calls.Perm (callsOf logs))
    (trees : (logs.map Rewriting.tree).Perm (n :: (callsOf logs).map LambdaCall.made)) :
    (calls.map fun c => c.deferred.id).Nodup ↔
      (n :: calls.map LambdaCall.made).Pairwise Node.Apart := by
  have symm {s t : Node} (h : s.Apart t) : t.Apart s := h.symm
  have disjoint {r r' : Rewriting} (hr : r ∈ logs) (hr' : r' ∈ logs) :
      List.Disjoint (r.calls.map fun c => c.deferred.id) (r'.calls.map fun c => c.deferred.id) ↔
        r.tree.Apart r'.tree := by
    constructor
    · intro h x hx hx'
      by_contra deferred
      rw [Bool.not_eq_false] at deferred
      obtain ⟨c, hc, rfl⟩ := ((records r hr).calls x).2 ⟨deferred, hx⟩
      obtain ⟨c', hc', eq⟩ := ((records r' hr').calls _).2 ⟨deferred, hx'⟩
      exact h (List.mem_map_of_mem hc) (eq ▸ List.mem_map_of_mem hc')
    · intro h i hi hi'
      obtain ⟨c, hc, rfl⟩ := List.mem_map.1 hi
      obtain ⟨c', hc', eq⟩ := List.mem_map.1 hi'
      obtain ⟨deferred, hx⟩ := ((records r hr).calls c.deferred).1 ⟨c, hc, rfl⟩
      obtain ⟨-, hx'⟩ := ((records r' hr').calls c'.deferred).1 ⟨c', hc', rfl⟩
      have same := valid.sources.unique (valid.sources.occurs (records r' hr').source hx')
        (valid.sources.occurs (records r hr).source hx) eq
      rw [h _ hx (same ▸ hx')] at deferred
      cases deferred
  rw [(perm.map _).nodup_iff, callsOf, List.map_flatMap, List.nodup_flatMap,
    and_iff_right fun r hr => (records r hr).once,
    ((perm.map LambdaCall.made).cons n).pairwise_iff symm, ← trees.pairwise_iff symm,
    List.pairwise_map]
  exact List.Pairwise.iff_of_mem fun hr hr' => disjoint hr hr'

end World

namespace Compiler

variable {c : Compiler} {factories : Factories} {n m : Node} {d : Dialect}
  {options : CompileOptions} {next next' : Identity} {diagnostics : List Diagnostic}

theorem compile_of_resolved
    (h : n.resolved factories options.scope next = .ok ((m, diagnostics), next')) :
    (c.compile factories n d options next).1.map (·.1.statement) =
        ((c.compileResolved m d options.literalBinds).1.map Compiled.statement).mapError
          Error.compile ∧
      (c.compile factories n d options next).2 =
        (c.compileResolved m d options.literalBinds).2 := by
  unfold compile
  rw [h]
  dsimp only
  generalize c.compileResolved m d options.literalBinds = x
  rcases x with ⟨fault | compiled, c'⟩ <;> exact ⟨rfl, rfl⟩

end Compiler

section Statement

variable {factories : Factories} {scope : Scope} {K : Heap} {n out : Node} {trace : Trace}
  {next next' : Identity}

theorem resolved_of_plain (h : ∀ x, Occurs x n → x.isDeferred = false) :
    n.resolved factories scope next = .ok ((n, []), next) := by
  rw [resolved, containsDeferred_eq_false h]
  rfl

theorem compile_eq_of_compileResolved_eq {m : Node}
    (run : n.traced factories scope next = .ok ((out, trace), next'))
    (plain : ∀ x, Occurs x m → x.isDeferred = false)
    (same : ∀ (c : Compiler) (d : Dialect) (inline : Bool),
      (c.compileResolved out d inline).1.map Compiled.statement =
          (c.compileResolved m d inline).1.map Compiled.statement ∧
        (c.compileResolved out d inline).2 = (c.compileResolved m d inline).2)
    (c : Compiler) (d : Dialect) {options : CompileOptions} (hscope : options.scope = scope) :
    (c.compile factories n d options next).1.map (·.1.statement) =
        (c.compile factories m d options next').1.map (·.1.statement) ∧
      (c.compile factories n d options next).2 = (c.compile factories m d options next').2 := by
  subst hscope
  have resolved : n.resolved factories options.scope next =
    .ok ((out, trace.diagnostics), next') := by
    rw [resolved_eq_traced, run]
    rfl
  obtain ⟨fst, snd⟩ := Compiler.compile_of_resolved (c := c) (d := d) resolved
  have itself : m.resolved factories options.scope next' = .ok ((m, []), next') :=
    resolved_of_plain plain
  obtain ⟨fst', snd'⟩ := Compiler.compile_of_resolved (c := c) (d := d) itself
  obtain ⟨statement, compiler⟩ := same c d options.literalBinds
  rw [fst, snd, fst', snd', statement, compiler]
  exact ⟨rfl, rfl⟩

theorem once_and_substituted_of_deferred (heap : K.Valid next) (root : K n)
    (sound : factories.Within scope K)
    (run : tracedWithin factories scope maxSteps n ⟨[], []⟩ next = .ok ((out, trace), next')) :
    ((trace.calls.map fun c => c.deferred.id).Nodup ↔
        (n :: trace.calls.map LambdaCall.made).Pairwise Node.Apart) ∧
      ((trace.calls.map fun c => c.deferred.id).Nodup →
        ∃ m, n.Becomes trace.calls m ∧ ∀ (c : Compiler) (d : Dialect) (inline : Bool),
          (c.compileResolved out d inline).1.map Compiled.statement =
              (c.compileResolved m d inline).1.map Compiled.statement ∧
            (c.compileResolved out d inline).2 = (c.compileResolved m d inline).2) := by
  obtain ⟨w, logs, resolution, -, calls⟩ := resolves_tracedWithin sound heap.closed maxSteps
    (World.valid_start heap) (fun _ hx => hx) root rfl run
  have valid := resolution.valid
  have log : w.log = logs := resolution.log
  obtain ⟨new, eq, perm⟩ := resolution.calls
  obtain rfl : new = trace.calls := by rw [← calls, eq]; rfl
  have iff := World.once_iff_apart (fun r hr => valid.log r (log ▸ hr)) valid perm resolution.trees
  refine ⟨iff, fun once => ?_⟩
  have apart : w.log.Pairwise fun r r' => r.tree.Apart r'.tree := by
    rw [log, ← List.pairwise_map, resolution.trees.pairwise_iff fun h => h.symm,
      ← ((perm.map LambdaCall.made).cons n).pairwise_iff fun h => h.symm]
    exact iff.1 once
  obtain ⟨r, hr, rfl, hl⟩ := resolution.root
  obtain ⟨m, becomes⟩ := (valid.log r hr).keeps.becomes (valid.log r hr).source hl
  rw [← calls] at once
  have simulation := World.simulation valid once apart
  have corresponds := World.corresponds_of_becomes valid once becomes ⟨r, hr, .root, hl⟩
  refine ⟨m, calls ▸ becomes, fun c d inline => ?_⟩
  exact simulation.compileResolved_eq (fun h => World.param?_eq valid h) corresponds c d inline

theorem once_and_substituted (heap : K.Valid next) (root : K n) (sound : factories.Within scope K)
    (run : n.traced factories scope next = .ok ((out, trace), next')) :
    ((trace.calls.map fun c => c.deferred.id).Nodup ↔
        (n :: trace.calls.map LambdaCall.made).Pairwise Node.Apart) ∧
      ((trace.calls.map fun c => c.deferred.id).Nodup →
        ∃ m, n.Becomes trace.calls m ∧ ∀ (c : Compiler) (d : Dialect) (inline : Bool),
          (c.compileResolved out d inline).1.map Compiled.statement =
              (c.compileResolved m d inline).1.map Compiled.statement ∧
            (c.compileResolved out d inline).2 = (c.compileResolved m d inline).2) := by
  unfold traced at run
  split at run
  · exact once_and_substituted_of_deferred heap root sound run
  · next found =>
    -- nothing is deferred, and nothing happens
    cases run
    have plain (x : Node) (hx : Occurs x n) : x.isDeferred = false :=
      isDeferred_of_not_containsDeferred heap root (Bool.eq_false_iff.2 found) hx
    refine ⟨⟨fun _ => List.pairwise_singleton _ _, fun _ => List.nodup_nil⟩, fun _ => ?_⟩
    exact ⟨n, becomes_self plain, fun _ _ _ => ⟨rfl, rfl⟩⟩

/-- Compiling a statement is compiling the one tree in which its deferred nodes gave way to what was
made for them, and each of them is asked for once, exactly if no two of the trees that are gone over
have a deferred node in common. -/
theorem compile_eq_substituted_iff (heap : K.Valid next) (root : K n)
    (sound : factories.Within scope K)
    (run : n.traced factories scope next = .ok ((out, trace), next')) :
    ((trace.calls.map fun c => c.deferred.id).Nodup ∧
      ∃! m, n.Becomes trace.calls m ∧
        ∀ (c : Compiler) (d : Dialect) (options : CompileOptions), options.scope = scope →
          (c.compile factories n d options next).1.map (·.1.statement) =
              (c.compile factories m d options next').1.map (·.1.statement) ∧
            (c.compile factories n d options next).2 =
              (c.compile factories m d options next').2) ↔
      (n :: trace.calls.map LambdaCall.made).Pairwise Node.Apart := by
  obtain ⟨iff, substituted⟩ := once_and_substituted heap root sound run
  refine ⟨fun h => iff.1 h.1, fun apart => ?_⟩
  have once := iff.2 apart
  obtain ⟨m, becomes, same⟩ := substituted once
  refine ⟨once, m, ⟨becomes, fun c d options hscope => ?_⟩, fun m' h => h.1.unique once becomes⟩
  exact compile_eq_of_compileResolved_eq run (fun _ hx => becomes.isDeferred_eq_false hx) same c d
    hscope

end Statement

namespace Node

section Sample

def sampleDeferred (i : Identity) (factory : Nat) : Node :=
  ⟨i, .deferred ⟨i + 1, factory⟩ .whereHaving, .null, [], []⟩

/-- The column `a` of the table `t` where something holds. -/
def sampleInner (criterion : Node) : Node :=
  ⟨6, .select ⟨[sampleColumn 0], [sampleTable 0], some criterion, [], none, [], none, none, false,
    true⟩, .null, [], []⟩

def sampleSub (criterion : Node) : Node :=
  ⟨7, .subquery (sampleInner criterion) (some "s"), .null, [], []⟩

def sampleSubColumn (criterion : Node) : Node :=
  ⟨8, .column "a" (some (sampleSub criterion)) false, .integer, [], []⟩

def sampleSubCriterion (criterion : Node) : Node :=
  ⟨10, .binary (sampleSubColumn criterion) .eq (sampleParam 7 2), .boolean, [], []⟩

/-- The column `a` of a subquery, where something holds inside and outside. -/
def sampleOuter (inside outside : Node) : Node :=
  ⟨13, .select ⟨[sampleSubColumn inside], [sampleSub inside], some outside, [], none, [], none,
    none, false, true⟩, .null, [], []⟩

/-- One factory compares the column of the table, the other that of the subquery. -/
def sampleFactories : Factories
  | 0, _ => pure (.node (sampleCriterion 0 1))
  | _, _ => pure (.node (sampleSubCriterion (sampleDeferred 4 0)))

def sampleNodes : List Node :=
  [sampleTable 0, sampleColumn 0, sampleParam 0 1, sampleCriterion 0 1, sampleDeferred 4 0,
    sampleInner (sampleDeferred 4 0), sampleSub (sampleDeferred 4 0),
    sampleSubColumn (sampleDeferred 4 0), sampleParam 7 2, sampleSubCriterion (sampleDeferred 4 0),
    sampleDeferred 11 1, sampleOuter (sampleDeferred 4 0) (sampleDeferred 11 1)]

theorem valid_sampleNodes : Heap.Valid (· ∈ sampleNodes) 14 := by
  refine Heap.valid_of_list ?_ (by decide) (by decide)
  simp [sampleNodes, children, Kind.children, Select.children, sampleTable, sampleColumn,
    sampleParam, sampleCriterion, sampleDeferred, sampleInner, sampleSub, sampleSubColumn,
    sampleSubCriterion, sampleOuter]

theorem within_sampleFactories (scope : Scope) :
    sampleFactories.Within scope (· ∈ sampleNodes) := by
  intro f
  cases f with
  | zero =>
    refine .pure ?_
    rintro n ⟨⟩
    simp [sampleNodes]
  | succ =>
    refine .pure ?_
    rintro n ⟨⟩
    simp [sampleNodes]

theorem traced_sampleInner : ∃ out diagnostics next',
    (sampleInner (sampleDeferred 4 0)).traced sampleFactories .empty 14 =
      .ok ((out, ⟨diagnostics, [⟨sampleDeferred 4 0, sampleCriterion 0 1⟩]⟩), next') := by
  obtain ⟨⟨⟨out, diagnostics, calls⟩, next'⟩, run, rfl⟩ := Build.exists_of_toOption
    (show ((sampleInner (sampleDeferred 4 0)).traced sampleFactories .empty 14).toOption.map
      (·.1.2.calls) = some [⟨sampleDeferred 4 0, sampleCriterion 0 1⟩] by cbv)
  exact ⟨out, diagnostics, next', run⟩

theorem traced_sampleOuter : ∃ out diagnostics next',
    (sampleOuter (sampleDeferred 4 0) (sampleDeferred 11 1)).traced sampleFactories .empty 14 =
      .ok ((out, ⟨diagnostics, [⟨sampleDeferred 4 0, sampleCriterion 0 1⟩,
        ⟨sampleDeferred 11 1, sampleSubCriterion (sampleDeferred 4 0)⟩,
        ⟨sampleDeferred 4 0, sampleCriterion 0 1⟩]⟩), next') := by
  obtain ⟨⟨⟨out, diagnostics, calls⟩, next'⟩, run, rfl⟩ := Build.exists_of_toOption
    (show ((sampleOuter (sampleDeferred 4 0) (sampleDeferred 11 1)).traced sampleFactories .empty
      14).toOption.map (·.1.2.calls) = some [⟨sampleDeferred 4 0, sampleCriterion 0 1⟩,
        ⟨sampleDeferred 11 1, sampleSubCriterion (sampleDeferred 4 0)⟩,
        ⟨sampleDeferred 4 0, sampleCriterion 0 1⟩] by cbv)
  exact ⟨out, diagnostics, next', run⟩

variable {calls : List LambdaCall} {d c : Node}

theorem becomes_sampleTable : (sampleTable 0).Becomes calls (sampleTable 0) :=
  becomes_of_children (x := sampleTable 0) rfl .nil

theorem becomes_sampleColumn : (sampleColumn 0).Becomes calls (sampleColumn 0) :=
  becomes_of_children (x := sampleColumn 0) rfl (.cons becomes_sampleTable .nil)

theorem becomes_sampleParam (i : Identity) (value : Int64) :
    (sampleParam i value).Becomes calls (sampleParam i value) :=
  becomes_of_children (x := sampleParam i value) rfl .nil

theorem becomes_sampleSub (h : d.Becomes calls c) : (sampleSub d).Becomes calls (sampleSub c) := by
  have inner : (sampleInner d).Becomes calls (sampleInner c) :=
    becomes_of_children (x := sampleInner d) rfl
      (.cons becomes_sampleColumn (.cons becomes_sampleTable (.cons h .nil)))
  exact becomes_of_children (x := sampleSub d) rfl (.cons inner .nil)

theorem becomes_sampleSubColumn (h : d.Becomes calls c) :
    (sampleSubColumn d).Becomes calls (sampleSubColumn c) :=
  becomes_of_children (x := sampleSubColumn d) rfl (.cons (becomes_sampleSub h) .nil)

theorem becomes_sampleSubCriterion (h : d.Becomes calls c) :
    (sampleSubCriterion d).Becomes calls (sampleSubCriterion c) :=
  becomes_of_children (x := sampleSubCriterion d) rfl
    (.cons (becomes_sampleSubColumn h) (.cons (becomes_sampleParam 7 2) .nil))

/-- What the sample statement becomes if its deferred nodes give way to what their factories
make. -/
theorem becomes_sampleOuter (inside : ⟨sampleDeferred 4 0, sampleCriterion 0 1⟩ ∈ calls)
    (outside : ⟨sampleDeferred 11 1, sampleSubCriterion (sampleDeferred 4 0)⟩ ∈ calls) :
    (sampleOuter (sampleDeferred 4 0) (sampleDeferred 11 1)).Becomes calls
      (sampleOuter (sampleCriterion 0 1) (sampleSubCriterion (sampleCriterion 0 1))) := by
  have criterion : (sampleCriterion 0 1).Becomes calls (sampleCriterion 0 1) :=
    becomes_of_children (x := sampleCriterion 0 1) rfl
      (.cons becomes_sampleColumn (.cons (becomes_sampleParam 0 1) .nil))
  have first : (sampleDeferred 4 0).Becomes calls (sampleCriterion 0 1) :=
    .made rfl inside criterion
  have second : (sampleDeferred 11 1).Becomes calls (sampleSubCriterion (sampleCriterion 0 1)) :=
    .made rfl outside (becomes_sampleSubCriterion first)
  exact becomes_of_children (x := sampleOuter (sampleDeferred 4 0) (sampleDeferred 11 1)) rfl
    (.cons (becomes_sampleSubColumn first) (.cons (becomes_sampleSub first) (.cons second .nil)))

end Sample

end Node

/-- A statement with one deferred expression is what comes of putting the expression in its
place. -/
theorem compile_eq_substituted_sampleInner : ∃ out diagnostics next',
    Heap.Valid (· ∈ sampleNodes) 14 ∧ sampleInner (sampleDeferred 4 0) ∈ sampleNodes ∧
      sampleFactories.Within .empty (· ∈ sampleNodes) ∧
        (sampleInner (sampleDeferred 4 0)).traced sampleFactories .empty 14 =
          .ok ((out, ⟨diagnostics, [⟨sampleDeferred 4 0, sampleCriterion 0 1⟩]⟩), next') ∧
        ∃! m, (sampleInner (sampleDeferred 4 0)).Becomes
            [⟨sampleDeferred 4 0, sampleCriterion 0 1⟩] m ∧
          ∀ (c : Compiler) (d : Dialect) (options : CompileOptions), options.scope = .empty →
            (c.compile sampleFactories (sampleInner (sampleDeferred 4 0)) d options 14).1.map
                (·.1.statement) =
              (c.compile sampleFactories m d options next').1.map (·.1.statement) ∧
            (c.compile sampleFactories (sampleInner (sampleDeferred 4 0)) d options 14).2 =
              (c.compile sampleFactories m d options next').2 := by
  obtain ⟨out, diagnostics, next', run⟩ := traced_sampleInner
  have root : sampleInner (sampleDeferred 4 0) ∈ sampleNodes := by simp [sampleNodes]
  have criterion : sampleCriterion 0 1 ∈ sampleNodes := by simp [sampleNodes]
  have sound := within_sampleFactories .empty
  refine ⟨out, diagnostics, next', valid_sampleNodes, root, sound, run, ?_⟩
  refine ((compile_eq_substituted_iff valid_sampleNodes root sound run).2 ?_).2
  refine List.pairwise_pair.2 fun x _ hx => ?_
  exact isDeferred_of_not_containsDeferred valid_sampleNodes criterion (by decide +kernel) hx

/-- A subquery with a deferred expression inside is another FROM element wherever the expression is
resolved again, although by substitution it is one. -/
theorem compile_ne_substituted : ∃ (factories : Factories) (K : Heap) (n m out : Node)
    (trace : Trace) (next next' : Identity), K.Valid next ∧ K n ∧ factories.Within .empty K ∧
      n.traced factories .empty next = .ok ((out, trace), next') ∧
        trace.calls.map (·.deferred.id) = [4, 11, 4] ∧ n.Becomes trace.calls m ∧
          ((Compiler.new {}).compile factories n .postgres {} next).1.toOption.map (·.1.sql) =
              some ("SELECT s.a FROM (SELECT t.a FROM t WHERE t.a = $1) AS s, " ++
                "(SELECT t.a FROM t WHERE t.a = $2) AS s WHERE s.a = $3") ∧
            ((Compiler.new {}).compile factories m .postgres {} next).1.toOption.map (·.1.sql) =
              some "SELECT s.a FROM (SELECT t.a FROM t WHERE t.a = $1) AS s WHERE s.a = $2" := by
  obtain ⟨out, diagnostics, next', run⟩ := traced_sampleOuter
  refine ⟨sampleFactories, (· ∈ sampleNodes),
    sampleOuter (sampleDeferred 4 0) (sampleDeferred 11 1),
    sampleOuter (sampleCriterion 0 1) (sampleSubCriterion (sampleCriterion 0 1)), out, _, 14, next',
    valid_sampleNodes, by simp [sampleNodes], within_sampleFactories .empty, run, rfl, ?_,
    by decide +kernel, by decide +kernel⟩
  exact becomes_sampleOuter (by simp) (by simp)

end SqlAlgebra
