import SqlAlgebra.Proofs.Cache.Placeholders
import SqlAlgebra.Proofs.Survey.Spelling
import SqlAlgebra.Proofs.Template.Naming

/-!
# Synthetic names in a statement

Names are given when a statement is rendered, in the order in which its nodes are met.  Whatever
that order is, a node has one name wherever it stands, no two nodes have the same, and none has a
name that the author of the tree wrote in it.  A template carries this over to every tree that it is
filled for, since such a tree has the same identifiers and its nodes correspond one to one.
-/

namespace SqlAlgebra

open List (Forall₂)
open Node

variable {config : CompilerConfig} {r : Request} {calls : List Call} {d : Dialect} {m n : Node}
  {R : Node → Node → Prop} {later : Namer} {bound : Nat} {inline : Bool} {piece : Piece}
  {part : Part} {pieces : List Piece} {parts parts' : List Part}

/-- Whether nodes of a tree have one name each, which nothing else in the tree has: no other node,
no identifier of the tree, and no column that a FROM element in it stands for. -/
structure Node.Naming (n : Node) (named : Node → String → Prop) : Prop where
  inside : ∀ ⦃a name⦄, named a name → Occurs a n
  one : ∀ ⦃a name name'⦄, named a name → named a name' → name = name'
  apart : ∀ ⦃a b name⦄, named a name → named b name → a = b
  fresh : ∀ ⦃a name⦄, named a name → ¬n.Spells name
  columns : ∀ ⦃a name⦄, named a name →
    ∀ x, Occurs x n → ∀ column ∈ x.declaredColumns, column.2.1 ≠ name

/-- Whether a node has the name that a namer gave to one that it is related to. -/
def Namer.Passes (namer : Namer) (R : Node → Node → Prop) (b : Node) (name : String) : Prop :=
  ∃ a, R a b ∧ a.isTracked ∧ namer.Gave a name

/-- The names that a namer gave in one tree are a naming of every tree that corresponds to it. -/
theorem Namer.Sound.naming (h : later.Sound) (hR : Correspondence R) (hmn : R m n)
    (inside : ∀ {a b}, R a b → Occurs b n) (coherent : n.IsCoherent)
    (taken : later.taken = (m.surveyed bound).identifiers) : n.Naming (later.Passes R) := by
  have fresh {b : Node} {name : String} (hb : later.Passes R b name) : ¬n.Spells name := by
    obtain ⟨a, -, -, given⟩ := hb
    rw [← mem_identifiers_iff_spells coherent bound, ← (hR.surveyed hmn bound).identifiers, ← taken]
    exact h.notMem_taken given
  refine ⟨?_, ?_, ?_, fun _ _ => fresh, ?_⟩
  · rintro b name ⟨a, hab, -⟩
    exact inside hab
  · rintro b name name' ⟨a, hab, tracked, given⟩ ⟨a', hab', tracked', given'⟩
    have same : a.id = a'.id := (hR.tracked hab hab' tracked tracked').2 rfl
    rw [Namer.Gave, same] at given
    exact Option.some.inj (given.symm.trans given')
  · rintro b b' name ⟨a, hab, tracked, given⟩ ⟨a', hab', tracked', given'⟩
    exact coherent b b' (inside hab) (inside hab')
      ((hR.tracked hab hab' tracked tracked').1 (h.lookup_inj given given'))
  · rintro b name hb x hx ⟨source, column⟩ mem rfl
    exact fresh hb ((spells_of_mem_declaredColumns mem).of_occurs hx)

/-! ## Pieces of a tree -/

/-- What is written for a piece of a tree is written under a name of the tree. -/
theorem Piece.Written.within (h : piece.Written d inline later.Gave part) (of : piece.IsOf n) :
    piece.Written d inline (later.Passes n.Same) part := by
  cases h with
  | text sql => exact .text sql
  | anonymous given =>
    exact .anonymous ⟨_, ⟨rfl, of.2⟩, isTracked_of_isNameless of.1, given⟩
  | kept placeholders key unique => exact .kept placeholders key unique
  | synthetic placeholders kind given =>
    exact .synthetic placeholders kind ⟨_, ⟨rfl, of.2⟩, Template.isTracked_of_bind of.1, given⟩
  | literal inline written => exact .literal inline written

theorem Piece.written_within (h : Forall₂ (Written d inline later.Gave) pieces parts)
    (of : ∀ piece ∈ pieces, piece.IsOf n) :
    Forall₂ (Written d inline (later.Passes n.Same)) pieces parts := by
  induction h with
  | nil => exact .nil
  | cons first _ ih =>
    exact .cons (first.within (of _ List.mem_cons_self))
      (ih fun piece mem => of piece (List.mem_cons_of_mem _ mem))

/-- Parts that stand for those of another tree are written for the pieces that correspond to its
own. -/
theorem Piece.exists_written (total : ∀ a, Occurs a m → ∃ b, R a b)
    (written : Forall₂ (Written d false later.Gave) pieces parts)
    (of : ∀ piece ∈ pieces, piece.IsOf m) (like : Forall₂ (Part.Like R) parts parts') :
    ∃ pieces', Forall₂ (Piece.Like R) pieces pieces' ∧
      Forall₂ (Written d false (later.Passes R)) pieces' parts' := by
  induction written generalizing parts' with
  | nil =>
    cases like
    exact ⟨[], .nil, .nil⟩
  | @cons piece part _ _ first _ ih =>
    cases like with
    | @cons _ part' _ _ alike like =>
      obtain ⟨rest, likes, writtens⟩ := ih (fun p mem => of p (List.mem_cons_of_mem _ mem)) like
      have own := of _ List.mem_cons_self
      suffices ∃ piece', Piece.Like R piece piece' ∧
          Written d false (later.Passes R) piece' part' by
        obtain ⟨piece', like', written'⟩ := this
        exact ⟨piece' :: rest, .cons like' likes, .cons written' writtens⟩
      cases first with
      | text sql =>
        cases alike
        exact ⟨.text sql, .text sql, .text sql⟩
      | anonymous given =>
        cases alike
        obtain ⟨b, hab⟩ := total _ own.2
        exact ⟨.anonymous b, .anonymous hab own.1,
          .anonymous ⟨_, hab, isTracked_of_isNameless own.1, given⟩⟩
      | kept _ key unique =>
        cases alike with
        | param _ hab ha hb hpq =>
          exact ⟨.bind _ _, .bind hab ha hb hpq,
            .kept rfl (hpq.key ▸ key) (hpq.isUnique ▸ unique)⟩
      | synthetic _ kind given =>
        cases alike with
        | param _ hab ha hb hpq =>
          exact ⟨.bind _ _, .bind hab ha hb hpq,
            .synthetic rfl (kind.imp (hpq.key ▸ ·) (hpq.isUnique ▸ ·))
              ⟨_, hab, Template.isTracked_of_bind ha, given⟩⟩
      | literal inline => cases inline

/-- Whatever the pieces of a tree are, and in whatever order they come, they are written under names
that are a naming of the tree. -/
theorem Node.exists_naming (coherent : n.IsCoherent) (d : Dialect) (bound : Nat)
    (of : ∀ piece ∈ pieces, piece.IsOf n) :
    ∃ named, n.Naming named ∧ Forall₂ (Piece.Written d false named) pieces
      (Part.ofPieces d pieces (.start (n.surveyed bound).identifiers)) := by
  obtain ⟨later, sound, continues, written⟩ := Template.written_ofPieces d pieces
    (Namer.sound_start (n.surveyed bound).identifiers)
  exact ⟨_, sound.naming (simulation_same n).correspondence ⟨rfl, .root⟩
    (fun same => same.1 ▸ same.2) coherent continues.taken, Piece.written_within written of⟩

/-! ## Statements -/

/-- Where the pieces of a statement come from: they are those of the tree, or those of the tree of
an earlier request whose template was filled, with the nodes of the tree in the places of the ones
that correspond to them. -/
inductive Request.Renders (config : CompilerConfig) (earlier : List Request) (r : Request)
    (n : Node) : Bool → Dialect → List Piece → Prop where
  | rendered : Renders config earlier r n false r.dialect (Layout.statement r.dialect [] n).pieces
  | found {r' : Request} {key : Key} {m : Node} {pieces : List Piece} :
      r' ∈ earlier → r'.dialect.name = r.dialect.name → r'.Reaches config key m →
        r.Reaches config key n → SameShape m n → SameObjects m n →
          Forall₂ (Piece.Like (Beside m n)) (Layout.statement r'.dialect [] m).pieces pieces →
            Renders config earlier r n true r'.dialect pieces

/-- All pieces of a statement are of its tree. -/
theorem Request.Renders.isOf {earlier : List Request} {hit : Bool}
    (h : r.Renders config earlier n hit d pieces) : ∀ piece ∈ pieces, piece.IsOf n := by
  intro piece mem
  cases h with
  | rendered => exact isOf_of_mem_pieces mem
  | found _ _ _ _ shape _ like =>
    obtain ⟨i, hi⟩ := List.getElem?_of_mem mem
    obtain ⟨other, -, alike⟩ := exists_getElem? like.flip hi
    cases alike with
    | text sql => trivial
    | anonymous beside nameless =>
      exact ⟨(shape beside).isNameless ▸ nameless, beside.occurs_right⟩
    | bind beside _ hb => exact ⟨hb, beside.occurs_right⟩

theorem Request.Gives.exists_written {earlier : List Request} {hit : Bool}
    (gives : r.Gives config earlier n hit parts) (coherent : n.IsCoherent) :
    ∃ d pieces named, r.Renders config earlier n hit d pieces ∧ n.Naming named ∧
      Forall₂ (Piece.Written d false named) pieces parts := by
  cases gives with
  | rendered =>
    obtain ⟨named, naming, written⟩ :=
      exists_naming coherent r.dialect config.keyBound fun _ => isOf_of_mem_pieces
    exact ⟨_, _, named, .rendered, naming, written⟩
  | @found r' key m parts mem name reaches reaches' shape objects like =>
    obtain ⟨later, sound, continues, written⟩ := Template.written_ofPieces r'.dialect
      (Layout.statement r'.dialect [] m).pieces
      (Namer.sound_start (m.surveyed config.keyBound).identifiers)
    obtain ⟨pieces, likes, written'⟩ := Piece.exists_written (R := Beside m n)
      (fun a => shape.exists_beside) written (fun _ => isOf_of_mem_pieces)
      (like.imp fun _ _ h => h.mono fun _ _ at_ => at_.1)
    exact ⟨_, pieces, _, .found mem name reaches reaches' shape objects likes,
      sound.naming (shape.correspondence objects) .root (fun beside => beside.occurs_right) coherent
        continues.taken, written'⟩

namespace Compiler

/-- A statement in which values are written out is made of the pieces of its tree. -/
theorem exists_written_of_inline {c : Compiler} {survey : Survey} {t : Template} {hit : Bool}
    {s : Statement} (coherent : n.IsCoherent) (hs : survey = n.surveyed bound)
    (ht : (c.template n d survey true).1 = .ok (t, hit))
    (assembled : t.assemble d survey.binds = .ok s) :
    hit = false ∧ ∃ parts named, n.Naming named ∧
      Forall₂ (Piece.Written d true named) (Layout.statement d [] n).pieces parts ∧
      s.MadeOf d parts := by
  subst hs
  rw [(template_of_uncached n d _ true rfl).1] at ht
  obtain ⟨miss, rendered⟩ := rendered_of_map ht
  obtain ⟨later, parts, sound, continues, written, assembles⟩ := Template.exists_inlined rendered
  obtain ⟨s', assembled', made⟩ := assembles d (n.surveyed bound).binds
  cases assembled.symm.trans assembled'
  exact ⟨miss, parts, _, sound.naming (simulation_same n).correspondence ⟨rfl, .root⟩
    (fun same => same.1 ▸ same.2) coherent continues.taken,
    Piece.written_within written fun _ => isOf_of_mem_pieces, made⟩

/-- Synthetic names never collide.  Whatever was compiled before, and whether or not the text comes
from the cache, a statement is made of pieces of its tree in which every FROM element, label or
parameter that is left to be named has one name at all places, which no other node, no identifier of
the tree and no column of a FROM element has.  This does not depend on the order in which the pieces
come. -/
theorem names_of_compile
    (formed : ∀ r' ∈ calls.filterMap Call.request?, r'.Formed) (hr : r.Formed)
    {compiled : Compiled} {next : Identity}
    (h : (((Compiler.new config).after calls).compile r.factories r.tree r.dialect r.options
      r.next).1 = .ok (compiled, next)) :
    ∃ n diagnostics d pieces parts named, r.tree.resolved r.factories r.options.scope r.next =
        .ok ((n, diagnostics), next) ∧
      r.Renders config (calls.filterMap Call.request?) n compiled.cacheHit d pieces ∧
      (∀ piece ∈ pieces, piece.IsOf n) ∧
      n.Naming named ∧
      Forall₂ (Piece.Written d r.options.literalBinds named) pieces parts ∧
      Statement.MadeOf ⟨compiled.sql, compiled.params⟩ r.dialect parts ∧
      ∀ pieces' : List Piece, (∀ piece ∈ pieces', piece.IsOf n) →
        ∃ named', n.Naming named' ∧ Forall₂ (Piece.Written d false named') pieces'
          (Part.ofPieces d pieces' (.start (n.surveyed config.keyBound).identifiers)) := by
  have coherent {n : Node} {diagnostics : List Diagnostic}
      (resolved : r.tree.resolved r.factories r.options.scope r.next =
        .ok ((n, diagnostics), next)) : n.IsCoherent := by
    obtain ⟨K, heap, root, within⟩ := hr
    exact isCoherent_of_resolved heap root within resolved
  cases inline : r.options.literalBinds with
  | false =>
    obtain ⟨n, diagnostics, parts, resolved, -, gives, -, made⟩ :=
      exists_parts_of_compile formed hr inline h
    obtain ⟨d, pieces, named, renders, naming, written⟩ := gives.exists_written (coherent resolved)
    exact ⟨n, diagnostics, d, pieces, parts, named, resolved, renders, renders.isOf, naming,
      written, made, fun _ => exists_naming (coherent resolved) d config.keyBound⟩
  | true =>
    obtain ⟨n, diagnostics, t, resolved, -, template, assembled⟩ := exists_of_compile h
    have same : ((Compiler.new config).after calls).config = config :=
      (sound_new.after (S := (· ∈ calls.filterMap Call.request?)) fun _ h => h).sameConfig
    rw [inline] at template
    obtain ⟨miss, parts, named, naming, written, made⟩ := exists_written_of_inline
      (coherent resolved) (congrArg n.surveyed (congrArg CompilerConfig.keyBound same)) template
      assembled
    rw [miss]
    exact ⟨n, diagnostics, r.dialect, _, parts, named, resolved, .rendered,
      fun _ => isOf_of_mem_pieces, naming, written, made,
      fun _ => exists_naming (coherent resolved) r.dialect config.keyBound⟩

end Compiler

section Sample

/-- An alias of the table `t` that is left without a name. -/
def sampleAlias : Node := ⟨2, .alias (sampleTable 0) none, .null, [], []⟩

def sampleAliasColumn : Node := ⟨3, .column "a" (some sampleAlias) false, .integer, [], []⟩

/-- Its column under a name that the alias would get. -/
def sampleLabel : Node := ⟨4, .label (some "anon_1") sampleAliasColumn, .integer, [], []⟩

def sampleAliased : Node :=
  ⟨5, .select ⟨[sampleLabel], [], none, [], none, [], none, none, false, true⟩, .null, [], []⟩

theorem formed_sampleAliased : (Request.sample sampleAliased).Formed := by
  refine ⟨(· ∈ [sampleTable 0, sampleAlias, sampleAliasColumn, sampleLabel, sampleAliased]),
    Heap.valid_of_list ?_ ?_ ?_, ?_, fun _ => .pure nofun⟩
  · simp [children, Kind.children, Select.children, sampleTable, sampleAlias, sampleAliasColumn,
      sampleLabel, sampleAliased]
  · simp [sampleTable, sampleAlias, sampleAliasColumn, sampleLabel, sampleAliased]
  · simp [Request.sample, sampleTable, sampleAlias, sampleAliasColumn, sampleLabel, sampleAliased]
  · simp [Request.sample]

end Sample

/-- The first name is left out because the author of the tree wrote it. -/
theorem Compiler.names_of_compile_sampleAliased :
    ∃ (compiled : Compiled) (d : Dialect) (pieces : List Piece) (parts : List Part)
      (named : Node → String → Prop), compiled.cacheHit = true ∧
      compiled.sql = "SELECT anon_2.a AS anon_1 FROM t AS anon_2" ∧
      sampleAliased.Naming named ∧
      Forall₂ (Piece.Written d false named) pieces parts ∧
      Statement.MadeOf ⟨compiled.sql, compiled.params⟩ .postgres parts := by
  have run : (((Compiler.new {}).after [.compile (.sample sampleAliased)]).compile
      (Request.sample sampleAliased).factories sampleAliased .postgres {} 9).1.toOption.map
        (fun out => (out.1.cacheHit, out.1.sql)) =
      some (true, "SELECT anon_2.a AS anon_1 FROM t AS anon_2") := by
    decide +kernel
  have plain : sampleAliased.containsDeferred = false := by decide +kernel
  obtain ⟨⟨compiled, next⟩, out, shown⟩ := Build.exists_of_toOption run
  obtain ⟨hit, sql⟩ := Prod.mk.inj shown
  obtain ⟨n, diagnostics, d, pieces, parts, named, resolved, -, -, naming, written, made, -⟩ :=
    @names_of_compile {} (.sample sampleAliased) [.compile (.sample sampleAliased)]
      (fun r' hr' => by
        obtain rfl := List.mem_singleton.1 hr'
        exact formed_sampleAliased) formed_sampleAliased compiled next out
  rw [Request.sample, Node.resolved, plain] at resolved
  cases resolved
  exact ⟨compiled, d, pieces, parts, named, hit, sql, naming, written, made⟩

end SqlAlgebra
