import SqlAlgebra.Proofs.Cache.Placeholders
import SqlAlgebra.Proofs.Template.Naming
import SqlAlgebra.Proofs.Template.Statement
import SqlAlgebra.Proofs.Value.Sameness

/-!
# Parameters of one name

Parameters that keep their keys are checked to agree, and synthetic names are all different.  What
neither sees are the names of the elements of an expanding parameter, which are made when the
statement is assembled: an element can get the name of another parameter, and then one name stands
for two values.  Nothing else goes wrong: where no element has the name of another parameter, every
name stands for one value.
-/

namespace SqlAlgebra

open List (Forall₂)
open Node

/-- Whether parameters can go under one name: both expanding or neither, with the same value. -/
structure BindParam.Alike (p q : BindParam) : Prop where
  isExpanding : p.isExpanding = q.isExpanding
  value : p.value.SameAs q.value

namespace BindParam.Alike

variable {p q r : BindParam}

theorem refl (p : BindParam) : p.Alike p := ⟨rfl, .refl _⟩

theorem symm (h : p.Alike q) : q.Alike p := ⟨h.isExpanding.symm, h.value.symm⟩

theorem trans (h : p.Alike q) (h' : q.Alike r) : p.Alike r :=
  ⟨h.isExpanding.trans h'.isExpanding, h.value.trans h'.value⟩

theorem of_agree (h : Survey.agree p q = true) : p.Alike q := by
  rw [Survey.agree, Bool.and_eq_true, beq_iff_eq] at h
  exact ⟨h.1, .inr h.2⟩

end BindParam.Alike

/-- Whether a node is a bound parameter that keeps a key as its name. -/
def Node.Keeps (n : Node) (key : String) (p : BindParam) : Prop :=
  n.param? = some p ∧ p.key = some key ∧ p.isUnique = false

namespace Survey

variable {first : List (String × BindParam)} {n x y : Node} {ns : List Node} {key : String}
  {p q : BindParam}

/-- What a check of one more parameter means for the others: the parameter joins the first ones, or
agrees with the first of its name, or does not keep a key. -/
theorem checkNames_cons_cases (h : checkNames first (n :: ns) = .ok ()) :
    (∃ key p, n.Keeps key p ∧ first.lookup key = none ∧
        checkNames ((key, p) :: first) ns = .ok ()) ∨
      (∃ key p other, n.Keeps key p ∧ first.lookup key = some other ∧ other.Alike p ∧
        checkNames first ns = .ok ()) ∨
      (∀ key p, ¬ n.Keeps key p) ∧ checkNames first ns = .ok () := by
  rw [checkNames_cons] at h
  cases param : n.param? with
  | none =>
    rw [param] at h
    refine .inr (.inr ⟨fun key p keeps => ?_, h⟩)
    cases param.symm.trans keeps.1
  | some p =>
    rw [param] at h
    dsimp only at h
    cases hk : p.key with
    | none =>
      rw [hk] at h
      refine .inr (.inr ⟨fun key q keeps => ?_, h⟩)
      cases param.symm.trans keeps.1
      cases hk.symm.trans keeps.2.1
    | some key =>
      rw [hk] at h
      dsimp only at h
      cases unique : p.isUnique with
      | true =>
        rw [unique] at h
        refine .inr (.inr ⟨fun key q keeps => ?_, h⟩)
        cases param.symm.trans keeps.1
        cases unique.symm.trans keeps.2.2
      | false =>
        rw [unique, if_neg Bool.false_ne_true] at h
        have keeps : n.Keeps key p := ⟨param, hk, unique⟩
        cases found : first.lookup key with
        | none =>
          rw [found] at h
          exact .inl ⟨key, p, keeps, found, h⟩
        | some other =>
          rw [found] at h
          dsimp only at h
          split at h
          · next agrees => exact .inr (.inl ⟨key, p, other, keeps, found, .of_agree agrees, h⟩)
          · cases h

theorem keeps_unique {key' : String} (h : n.Keeps key p) (h' : n.Keeps key' q) :
    key = key' ∧ p = q := by
  cases h.1.symm.trans h'.1
  exact ⟨Option.some.inj (h.2.1.symm.trans h'.2.1), rfl⟩

/-- Checked parameters agree with the first of their name. -/
theorem alike_first (h : checkNames first ns = .ok ()) (hx : x ∈ ns) (keeps : x.Keeps key p)
    {other : BindParam} (found : first.lookup key = some other) : other.Alike p := by
  induction ns generalizing first with
  | nil => cases hx
  | cons n ns ih =>
    obtain ⟨key', q, keeps', absent, rest⟩ | ⟨key', q, other', keeps', found', alike, rest⟩ |
      ⟨plain, rest⟩ := checkNames_cons_cases h
    · obtain rfl | hx := List.mem_cons.1 hx
      · obtain ⟨rfl, rfl⟩ := keeps_unique keeps keeps'
        cases found.symm.trans absent
      · refine ih rest hx ?_
        have different : (key == key') = false := by
          rw [beq_eq_false_iff_ne]
          rintro rfl
          cases found.symm.trans absent
        rw [List.lookup_cons, different]
        exact found
    · obtain rfl | hx := List.mem_cons.1 hx
      · obtain ⟨rfl, rfl⟩ := keeps_unique keeps keeps'
        cases found.symm.trans found'
        exact alike
      · exact ih rest hx found
    · obtain rfl | hx := List.mem_cons.1 hx
      · exact absurd keeps (plain key p)
      · exact ih rest hx found

/-- Checked parameters that keep the same key agree. -/
theorem alike_of_checkNames (h : checkNames first ns = .ok ()) (hx : x ∈ ns) (hy : y ∈ ns)
    (keeps : x.Keeps key p) (keeps' : y.Keeps key q) : p.Alike q := by
  induction ns generalizing first with
  | nil => cases hx
  | cons n ns ih =>
    -- one of the two comes first, and the check of it settles the other
    have head {z w : Node} {p q : BindParam} (same : z = n) (hw : w ∈ ns) (keeps : z.Keeps key p)
        (keeps' : w.Keeps key q) : p.Alike q := by
      rw [same] at keeps
      obtain ⟨key', r, kept, -, rest⟩ | ⟨key', r, other, kept, found, alike, rest⟩ | ⟨plain, -⟩ :=
        checkNames_cons_cases h
      · obtain ⟨rfl, rfl⟩ := keeps_unique keeps kept
        exact alike_first rest hw keeps' List.lookup_cons_self
      · obtain ⟨rfl, rfl⟩ := keeps_unique keeps kept
        exact alike.symm.trans (alike_first rest hw keeps' found)
      · exact absurd keeps (plain key p)
    obtain eq | hx := List.mem_cons.1 hx <;> obtain eq' | hy := List.mem_cons.1 hy
    · subst eq eq'
      obtain ⟨-, rfl⟩ := keeps_unique keeps keeps'
      exact .refl _
    · exact head eq hy keeps keeps'
    · exact (head eq' hx keeps' keeps).symm
    · obtain ⟨_, _, _, _, rest⟩ | ⟨_, _, _, _, _, _, rest⟩ | ⟨_, rest⟩ :=
        checkNames_cons_cases h <;> exact ih rest hx hy

end Survey

namespace Node

variable {R : Node → Node → Prop} {m n b b' : Node} {d : Dialect} {bound : Nat} {parts : List Part}
  {q q' : BindParam} {name : String}

/-- Parameters of a statement that go by the same name before they are expanded agree. -/
theorem Fills.alike (h : Fills R m n d bound parts) (coherent : n.IsCoherent)
    (names : (n.surveyed bound).checkBindNames = .ok ()) (hb : .param b q name ∈ parts)
    (hb' : .param b' q' name ∈ parts) : q.Alike q' := by
  obtain ⟨a, p, mem, ⟨hab, slot, -, hs⟩, hap, hbq, like⟩ := h.exists_param hb
  obtain ⟨a', p', mem', ⟨hab', slot', -, hs'⟩, hap', hbq', like'⟩ := h.exists_param hb'
  obtain ⟨later, sound, continues, named⟩ := Part.exists_namer d (Layout.statement d [] m).pieces
    (Namer.sound_start (m.surveyed bound).identifiers)
  have surveys := h.correspondence.surveyed h.roots bound
  -- a key that the caller gave is not a name that the namer made
  have written {b : Node} {q : BindParam} {slot : Nat}
      (hs : (n.surveyed bound).binds[slot]? = some b) (hbq : b.kind = .bind q)
      (key : q.key = some name) : name ∈ later.taken := by
    rw [continues.taken]
    show name ∈ (m.surveyed bound).identifiers
    rw [surveys.identifiers]
    exact Survey.keyed_surveyed n bound b (List.mem_of_getElem? hs) q name hbq key
  obtain ⟨key, unique⟩ | known := named _ mem <;>
    obtain ⟨key', unique'⟩ | known' := named _ mem'
  · exact Survey.alike_of_checkNames names (List.mem_of_getElem? hs) (List.mem_of_getElem? hs')
      ⟨param?_of_bind hbq, like.key ▸ key, like.isUnique ▸ unique⟩
      ⟨param?_of_bind hbq', like'.key ▸ key', like'.isUnique ▸ unique'⟩
  · exact absurd (written hs hbq (like.key ▸ key)) (sound.notMem_taken known')
  · exact absurd (written hs' hbq' (like'.key ▸ key')) (sound.notMem_taken known)
  · have same := (h.correspondence.tracked hab hab' (Template.isTracked_of_bind hap)
      (Template.isTracked_of_bind hap')).1 (sound.lookup_inj known known')
    obtain rfl := coherent b b' (h.inside hab) (h.inside hab') same
    cases hbq.symm.trans hbq'
    exact .refl _

end Node

/-- Whether parameters of one name have the same value. -/
def ParamList.Unambiguous (params : ParamList) : Prop :=
  ∀ p ∈ params.entries, ∀ q ∈ params.entries, p.1 = q.1 → p.2.SameAs q.2

namespace Part

variable {parts : List Part} {b : Node} {q : BindParam} {name : String} {entry : String × Value}

/-- Whether every parameter that is not expanding and has the name of an element of an expanding one
has the value of that element as well. -/
def ElementsAgree (parts : List Part) : Prop :=
  ∀ a p name, .param a p name ∈ parts → p.isExpanding = false →
    ∀ b q stem, .param b q stem ∈ parts → q.isExpanding = true →
      ∀ (i : Nat) item, q.value.expand[i]? = some item → name = Namer.numbered stem (i + 1) →
        p.value.SameAs item

theorem mem_params_iff : entry ∈ (param b q name).params ↔
    (q.isExpanding = false ∧ entry = (name, q.value)) ∨
      (q.isExpanding = true ∧ ∃ (i : Nat) (item : Value), q.value.expand[i]? = some item ∧
        entry = (Namer.numbered name (i + 1), item)) := by
  cases h : q.isExpanding with
  | false => simp [params_of_plain h]
  | true =>
    rw [params_of_expanding h, Template.elements, List.mem_map]
    simp only [Prod.exists, List.mem_zipIdx_iff_getElem?, Bool.true_eq_false, false_and, false_or,
      true_and]
    constructor
    · rintro ⟨item, i, hi, rfl⟩
      exact ⟨i, item, hi, rfl⟩
    · rintro ⟨i, item, hi, rfl⟩
      exact ⟨item, i, hi, rfl⟩

theorem exists_param_of_mem (h : entry ∈ parts.flatMap params) :
    ∃ b q name, .param b q name ∈ parts ∧ entry ∈ (param b q name).params := by
  obtain ⟨part, mem, h⟩ := List.mem_flatMap.1 h
  cases part with
  | text sql => cases h
  | param b q name => exact ⟨b, q, name, mem, h⟩

/-- Where parameters that go by one name agree, nothing but the names of elements is ambiguous. -/
theorem unambiguous_iff
    (alike : ∀ a p b q name, .param a p name ∈ parts → .param b q name ∈ parts → p.Alike q) :
    ParamList.Unambiguous ⟨parts.flatMap params⟩ ↔ ElementsAgree parts := by
  constructor
  · intro h a p name ha plain b q stem hb expanding i item hi same
    exact h _ (List.mem_flatMap.2 ⟨_, ha, mem_params_iff.2 (.inl ⟨plain, rfl⟩)⟩) _
      (List.mem_flatMap.2 ⟨_, hb, mem_params_iff.2 (.inr ⟨expanding, i, item, hi, rfl⟩)⟩) same
  · intro h e he e' he' same
    obtain ⟨a, p, name, ha, he⟩ := exists_param_of_mem he
    obtain ⟨b, q, name', hb, he'⟩ := exists_param_of_mem he'
    obtain ⟨plain, rfl⟩ | ⟨expanding, i, item, hi, rfl⟩ := mem_params_iff.1 he <;>
      obtain ⟨plain', rfl⟩ | ⟨expanding', j, item', hj, rfl⟩ := mem_params_iff.1 he'
    · obtain rfl : name = name' := same
      exact (alike a p b q name ha hb).value
    · exact h a p name ha plain b q name' hb expanding' j item' hj same
    · exact (h b q name' hb plain' a p name ha expanding i item hi same.symm).symm
    · -- the number is that of the element, so elements of one name have the same place
      obtain ⟨rfl, places⟩ := Namer.numbered_injective same
      obtain rfl : i = j := Nat.add_right_cancel places
      exact (alike a p b q name ha hb).value.expand hi hj

end Part

variable {config : CompilerConfig} {r : Request} {calls : List Call}

/-- The parameters of a statement are unambiguous exactly if no element of an expanding parameter
has the name of a parameter with another value. -/
theorem Compiler.unambiguous_iff_elementsAgree
    (formed : ∀ r' ∈ calls.filterMap Call.request?, r'.Formed) (hr : r.Formed)
    (placeholders : r.options.literalBinds = false) {compiled : Compiled} {next : Identity}
    (h : (((Compiler.new config).after calls).compile r.factories r.tree r.dialect r.options
      r.next).1 = .ok (compiled, next)) :
    ∃ n diagnostics parts, r.tree.resolved r.factories r.options.scope r.next =
        .ok ((n, diagnostics), next) ∧
      r.Gives config (calls.filterMap Call.request?) n compiled.cacheHit parts ∧
      n.Binds parts ∧
      Statement.MadeOf ⟨compiled.sql, compiled.params⟩ r.dialect parts ∧
      (compiled.params.Unambiguous ↔ Part.ElementsAgree parts) := by
  obtain ⟨n, diagnostics, parts, resolved, names, gives, ⟨R, m, d, fills⟩, made⟩ :=
    exists_parts_of_compile formed hr placeholders h
  have coherent : n.IsCoherent := by
    obtain ⟨K, heap, root, within⟩ := hr
    exact isCoherent_of_resolved heap root within resolved
  have params : compiled.params = ⟨parts.flatMap Part.params⟩ := congrArg ParamList.mk made.params
  refine ⟨n, diagnostics, parts, resolved, gives, fills.binds, made, ?_⟩
  rw [params]
  exact Part.unambiguous_iff fun a p b q name ha hb => fills.alike coherent names ha hb

section Sample

variable (value : Int64)

/-- An expanding parameter whose elements get the names `a_1` and `a_2`. -/
def sampleElements : Node :=
  ⟨2, .bind ⟨some "a", .list [.integer 1, .integer 2], false, true, false⟩, .integer, [], []⟩

/-- A parameter that keeps the name of an element. -/
def sampleKept : Node :=
  ⟨4, .bind ⟨some "a_1", .integer value, false, false, false⟩, .integer, [], []⟩

def sampleConditions : List Node :=
  [⟨3, .binary (sampleColumn 0) .member sampleElements, .boolean, [], []⟩,
    ⟨5, .binary (sampleColumn 0) .eq (sampleKept value), .boolean, [], []⟩]

/-- The column `a` of the table `t` where it is one of `1` and `2` and the given value. -/
def sampleNamesakes : Node :=
  ⟨7, .select ⟨[sampleColumn 0], [sampleTable 0],
    some ⟨6, .clauseList .and (sampleConditions value), .boolean, [], []⟩, [], none, [], none, none,
    false, true⟩, .null, [], []⟩

/-- A compilation of it with named placeholders. -/
def Request.sampleNamesakes : Request :=
  { Request.sample (SqlAlgebra.sampleNamesakes value) with dialect := .generic }

theorem formed_sampleNamesakes : (Request.sampleNamesakes value).Formed := by
  refine ⟨(· ∈ [sampleTable 0, sampleColumn 0, sampleElements, sampleKept value,
    ⟨6, .clauseList .and (sampleConditions value), .boolean, [], []⟩, sampleNamesakes value] ++
      sampleConditions value), Heap.valid_of_list ?_ ?_ ?_, ?_, fun _ => .pure nofun⟩
  · simp [children, Kind.children, Select.children, sampleTable, sampleColumn, sampleElements,
      sampleKept, sampleConditions, sampleNamesakes]
  · simp [sampleTable, sampleColumn, sampleElements, sampleKept, sampleConditions, sampleNamesakes]
  · simp [Request.sampleNamesakes, Request.sample, sampleTable, sampleColumn, sampleElements,
      sampleKept, sampleConditions, sampleNamesakes]
  · simp [Request.sampleNamesakes, Request.sample]

/-- The parameters of a statement with the integers among their values. -/
def ParamList.integers (params : ParamList) : List (String × Option Int64) :=
  params.entries.map fun entry => (entry.1, match entry.2 with | .integer n => some n | _ => none)

theorem ParamList.entries_of_integers {params : ParamList} {named : List (String × Int64)}
    (h : params.integers = named.map fun entry => (entry.1, some entry.2)) :
    params.entries = named.map fun entry => (entry.1, .integer entry.2) := by
  rcases params with ⟨entries⟩
  dsimp only [integers] at h ⊢
  induction entries generalizing named with
  | nil => cases named <;> simp_all
  | cons entry entries ih =>
    cases named with
    | nil => cases h
    | cons first named =>
      rw [List.map_cons, List.map_cons] at h
      obtain ⟨head, tail⟩ := List.cons.inj h
      obtain ⟨name, value⟩ := Prod.mk.inj head
      rw [ih tail, List.map_cons]
      rcases entry with ⟨key, _ | _ | n | _ | _ | _ | _ | _ | _⟩ <;> simp_all

def sampleAnswer : Except Error (Compiled × Identity) :=
  let r := Request.sampleNamesakes value
  ((Compiler.new {}).compile r.factories r.tree r.dialect r.options r.next).1

def sampleNamed : List (String × Int64) := [("a_1", 1), ("a_2", 2), ("a_1", value)]

theorem exists_sampleAnswer
    (h : (sampleAnswer value).toOption.map (fun out => (out.1.sql, out.1.params.integers)) =
      some ("SELECT t.a FROM t WHERE t.a IN (:a_1, :a_2) AND t.a = :a_1",
        (sampleNamed value).map fun entry => (entry.1, some entry.2))) :
    ∃ compiled next, sampleAnswer value = .ok (compiled, next) ∧
      compiled.sql = "SELECT t.a FROM t WHERE t.a IN (:a_1, :a_2) AND t.a = :a_1" ∧
      compiled.params.entries =
        (sampleNamed value).map fun entry => (entry.1, .integer entry.2) := by
  cases out : sampleAnswer value with
  | error e =>
    rw [out] at h
    cases h
  | ok answer =>
    rcases answer with ⟨compiled, next⟩
    rw [out] at h
    obtain ⟨sql, params⟩ := Prod.mk.inj (Option.some.inj h)
    exact ⟨compiled, next, rfl, sql, ParamList.entries_of_integers params⟩

end Sample

/-- A parameter with the name of an element and the same value is not ambiguous. -/
theorem Compiler.unambiguous_sampleNamesakes :
    ∃ compiled next parts, sampleAnswer 1 = .ok (compiled, next) ∧
      compiled.params.entries = (sampleNamed 1).map (fun entry => (entry.1, .integer entry.2)) ∧
      (sampleNamesakes 1).Binds parts ∧
      Statement.MadeOf ⟨compiled.sql, compiled.params⟩ .generic parts ∧
      compiled.params.Unambiguous ∧ Part.ElementsAgree parts := by
  obtain ⟨compiled, next, out, -, entries⟩ := exists_sampleAnswer 1 (by decide +kernel)
  have plain : (sampleNamesakes 1).containsDeferred = false := by decide +kernel
  obtain ⟨n, diagnostics, parts, resolved, -, binds, made, iff⟩ :=
    @unambiguous_iff_elementsAgree {} (.sampleNamesakes 1) [] nofun (formed_sampleNamesakes 1) rfl
      compiled next out
  have unambiguous : compiled.params.Unambiguous := by
    intro p hp q hq same
    have known {p : String × Value} (hp : p ∈ compiled.params.entries) :
        p = ("a_1", .integer 1) ∨ p = ("a_2", .integer 2) := by
      rw [entries] at hp
      simpa [sampleNamed, or_comm, or_assoc] using hp
    obtain rfl | rfl := known hp <;> obtain rfl | rfl := known hq
    · exact .refl _
    · exact absurd same (by decide)
    · exact absurd same (by decide)
    · exact .refl _
  rw [Request.sampleNamesakes, Request.sample, Node.resolved, plain] at resolved
  cases resolved
  exact ⟨compiled, _, parts, out, entries, binds, made, unambiguous, iff.1 unambiguous⟩

/-- An element can get the name of a parameter with another value. -/
theorem Compiler.ambiguous_sampleNamesakes :
    (Request.sampleNamesakes 5).Formed ∧ ∃ compiled next, sampleAnswer 5 = .ok (compiled, next) ∧
      compiled.sql = "SELECT t.a FROM t WHERE t.a IN (:a_1, :a_2) AND t.a = :a_1" ∧
      compiled.params.entries = [("a_1", .integer 1), ("a_2", .integer 2), ("a_1", .integer 5)] ∧
      ¬ compiled.params.Unambiguous := by
  refine ⟨formed_sampleNamesakes 5, ?_⟩
  obtain ⟨compiled, next, out, sql, entries⟩ := exists_sampleAnswer 5 (by decide +kernel)
  refine ⟨compiled, next, out, sql, entries, fun unambiguous => ?_⟩
  have same := unambiguous ("a_1", .integer 1) (by simp [entries, sampleNamed])
    ("a_1", .integer 5) (by simp [entries, sampleNamed]) rfl
  obtain h | h := same
  · cases h
  · revert h
    decide +kernel

end SqlAlgebra
