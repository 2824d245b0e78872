import SqlAlgebra.Dialect.Database
import SqlAlgebra.Proofs.Template.Naming

/-!
# Values written out

A statement in which values are written out is the one with placeholders, with the values in their
places.  The two are not rendered alike, for where values are written out no parameter is named.
What the one namer gives out more than the other are names of parameters, and none of them is a
number of the stem from which FROM elements and labels are named, unless a parameter has that stem
for its key.  So FROM elements and labels have the same names in both.
-/

namespace SqlAlgebra

open List (Forall₂)
open Node

/-! ## Names beside the names of parameters -/

namespace Namer

variable {namer slim full : Namer} {stem : String} {steps steps' n k : Nat} {i : Identity}
  {IsBind : Identity → Prop}

theorem le_firstFree (namer : Namer) (stem : String) (steps n : Nat) :
    n ≤ namer.firstFree stem steps n := by
  induction steps generalizing n with
  | zero => exact Nat.le_refl n
  | succ steps ih =>
    rw [firstFree]
    split
    · exact Nat.le_refl n
    · exact Nat.le_of_succ_le (ih (n + 1))

/-- A search passes over no free name. -/
theorem not_isFree_of_lt_firstFree (above : n ≤ k) (below : k < namer.firstFree stem steps n) :
    namer.isFree (numbered stem k) = false := by
  induction steps generalizing n with
  | zero => exact absurd below (Nat.not_lt.2 above)
  | succ steps ih =>
    rw [firstFree] at below
    split at below
    · exact absurd below (Nat.not_lt.2 above)
    · next taken =>
      obtain rfl | above := Nat.eq_or_lt_of_le above
      · exact Bool.eq_false_iff.2 taken
      · exact ih above below

/-- Searches that end at a free name end at the same one, if the same names are free. -/
theorem firstFree_eq (same : ∀ k, slim.isFree (numbered stem k) = full.isFree (numbered stem k))
    (hslim : slim.isFree (numbered stem (slim.firstFree stem steps n)) = true)
    (hfull : full.isFree (numbered stem (full.firstFree stem steps' n)) = true) :
    slim.firstFree stem steps n = full.firstFree stem steps' n := by
  obtain lt | eq | lt := Nat.lt_trichotomy (slim.firstFree stem steps n)
    (full.firstFree stem steps' n)
  · have passed := not_isFree_of_lt_firstFree (slim.le_firstFree stem steps n) lt
    rw [← same, hslim] at passed
    cases passed
  · exact eq
  · have passed := not_isFree_of_lt_firstFree (full.le_firstFree stem steps' n) lt
    rw [same, hfull] at passed
    cases passed

/-- A name from one stem leaves the numbers of the others as they are. -/
theorem counter_fresh_of_ne {other : String} (h : other ≠ stem) :
    (namer.fresh stem).2.counter other = namer.counter other := by
  have apart : (other == stem) = false := beq_eq_false_iff_ne.2 h
  have kept (counters : List (String × Nat)) :
      (counters.filter fun entry => entry.1 != stem).lookup other = counters.lookup other := by
    induction counters with
    | nil => rfl
    | cons entry rest ih =>
      rcases entry with ⟨first, n⟩
      by_cases same : first = stem
      · rw [List.filter_cons_of_neg (by simp [same]), List.lookup_cons, same, apart]
        exact ih
      · rw [List.filter_cons_of_pos (by simpa using same), List.lookup_cons, List.lookup_cons, ih]
  unfold counter fresh
  dsimp only
  rw [List.lookup_cons, apart]
  exact congrArg (·.getD 0) (kept namer.counters)

/-- Whether a namer gives FROM elements and labels the names that another one gives them, which
names bound parameters besides. -/
structure Spares (IsBind : Identity → Prop) (slim full : Namer) : Prop where
  taken : full.taken = slim.taken
  counter : full.counter "anon" = slim.counter "anon"
  issued : ∀ k, numbered "anon" k ∈ full.issued ↔ numbered "anon" k ∈ slim.issued
  assigned : ∀ i, ¬IsBind i → full.assigned.lookup i = slim.assigned.lookup i

namespace Spares

theorem refl (namer : Namer) : namer.Spares IsBind namer :=
  ⟨rfl, rfl, fun _ => .rfl, fun _ _ => rfl⟩

theorem isFree (h : Spares IsBind slim full) (k : Nat) :
    slim.isFree (numbered "anon" k) = full.isFree (numbered "anon" k) := by
  rw [Bool.eq_iff_iff, isFree_iff, isFree_iff, h.taken, h.issued]

theorem fresh (h : Spares IsBind slim full) :
    ∃ n, (slim.fresh "anon").1 = numbered "anon" n ∧ (full.fresh "anon").1 = numbered "anon" n ∧
      Spares IsBind (slim.fresh "anon").2 (full.fresh "anon").2 := by
  have free := isFree_fresh slim "anon"
  have free' := isFree_fresh full "anon"
  unfold Namer.fresh at free free' ⊢
  rw [← h.counter] at free ⊢
  have same := firstFree_eq h.isFree free free'
  dsimp only
  rw [same]
  refine ⟨_, rfl, rfl, h.taken, ?_, fun k => ?_, h.assigned⟩
  · simp [Namer.counter]
  · rw [List.mem_cons, List.mem_cons, h.issued]

/-- What is no parameter is named alike. -/
theorem anonymous (h : Spares IsBind slim full) {a : Node} (ha : ¬IsBind a.id) :
    (slim.anonymous a).1 = (full.anonymous a).1 ∧
      Spares IsBind (slim.anonymous a).2 (full.anonymous a).2 := by
  unfold Namer.anonymous assign
  rw [h.assigned a.id ha]
  cases slim.assigned.lookup a.id with
  | some name => exact ⟨rfl, h⟩
  | none =>
    obtain ⟨n, name, name', spares⟩ := h.fresh
    refine ⟨name.trans name'.symm, spares.taken, spares.counter, spares.issued, fun i hi => ?_⟩
    show List.lookup i ((a.id, _) :: _) = List.lookup i ((a.id, _) :: _)
    rw [List.lookup_cons, List.lookup_cons, name, name', spares.assigned i hi]

/-- A name from another stem takes nothing from the ones that are made up for FROM elements and
labels. -/
theorem assign (h : Spares IsBind slim full) (hi : IsBind i) (hs : stem ≠ "anon") :
    Spares IsBind slim (full.assign i stem).2 := by
  unfold Namer.assign
  cases full.assigned.lookup i with
  | some name => exact h
  | none =>
    refine ⟨h.taken, ?_, fun k => ?_, fun j hj => ?_⟩
    · rw [← h.counter]
      exact counter_fresh_of_ne hs.symm
    · rw [← h.issued]
      show numbered "anon" k ∈ numbered stem _ :: full.issued ↔ _
      rw [List.mem_cons, or_iff_right]
      exact fun same => hs (numbered_injective same).1.symm
    · rw [← h.assigned j hj]
      show List.lookup j ((i, _) :: full.assigned) = _
      have other : (j == i) = false := beq_eq_false_iff_ne.2 fun same => hj (same ▸ hi)
      rw [List.lookup_cons, other]

theorem param (h : Spares IsBind slim full) {n : Node} {b : BindParam} (hn : IsBind n.id)
    (hb : b.isUnique = true → b.key ≠ some "anon") : Spares IsBind slim (full.param n b).2 := by
  unfold Namer.param
  cases key : b.key with
  | none => exact h.assign hn (by decide)
  | some key' =>
    dsimp only
    split
    · next unique => exact h.assign hn fun same => hb unique (by rw [key, same])
    · exact h

end Spares

end Namer

/-! ## Text in a statement -/

namespace Template

variable {d : Dialect}

theorem escaped_append (d : Dialect) (s t : String) :
    escaped d (s ++ t) = escaped d s ++ escaped d t := by
  unfold escaped
  split
  · rw [String.toList_append, Quoting.doubled_append, String.ofList_append]
  · rfl

theorem escaped_of_notMem {s : String} (h : '%' ∉ s.toList) : escaped d s = s := by
  unfold escaped
  rw [Quoting.doubled_of_notMem h, String.ofList_toList]
  split <;> rfl

theorem escaped_intercalate (d : Dialect) (texts : List String) :
    escaped d (", ".intercalate texts) = ", ".intercalate (texts.map (escaped d)) := by
  induction texts with
  | nil => exact escaped_of_notMem (by decide)
  | cons text rest ih =>
    cases rest with
    | nil => rw [List.map_singleton, String.intercalate_singleton, String.intercalate_singleton]
    | cons next rest =>
      have comma : escaped d ", " = ", " := escaped_of_notMem (by decide)
      rw [String.intercalate_cons_cons, escaped_append, escaped_append, ih, comma]
      exact String.intercalate_cons_cons.symm

end Template

/-! ## Parts with their values written out -/

namespace Part

/-- How a part stands where values are written out: text as it is, and a parameter as the text of
its value. -/
inductive Inlined (d : Dialect) : Part → Part → Prop where
  | text (sql : String) : Inlined d (.text sql) (.text sql)
  | literal {n : Node} {b : BindParam} {sql : String} (name : String) :
      Template.inlined d b = .ok sql →
        Inlined d (.param n b name) (.text (Template.escaped d sql))

variable {d : Dialect} {p q : Part} {ps qs : List Part}

theorem forall₂_literal_of_mapM {items : List Value} {literals : List String}
    (h : items.mapM d.literal = .ok literals) :
    Forall₂ (fun value text => d.literal value = .ok text) items literals := by
  induction items generalizing literals with
  | nil =>
    cases h
    exact .nil
  | cons item items ih =>
    rw [List.mapM_cons] at h
    cases first : d.literal item with
    | error fault =>
      rw [first] at h
      cases h
    | ok text =>
      rw [first] at h
      cases rest : items.mapM d.literal with
      | error fault =>
        rw [rest] at h
        cases h
      | ok texts =>
        rw [rest] at h
        cases h
        exact .cons first (ih rest)

/-- The text of a part with its values written out is the one that the part has with these values in
its gaps. -/
theorem Inlined.exists_literals (h : Inlined d p q)
    (emptySet : Template.escaped d d.emptySet = d.emptySet) :
    ∃ literals, Forall₂ (fun value text => d.literal value = .ok text) p.values literals ∧
      q = .text (filled (p.outline d) (literals.map (Template.escaped d))) := by
  cases h with
  | text sql => exact ⟨[], .nil, congrArg Part.text String.append_empty.symm⟩
  | @literal n b sql name written =>
    cases expanding : b.isExpanding with
    | false =>
      rw [Template.inlined, expanding] at written
      rw [values, outline_of_plain expanding, expanding]
      exact ⟨[sql], .cons written .nil, congrArg Part.text String.append_empty.symm⟩
    | true =>
      rw [Template.inlined, expanding, if_pos rfl] at written
      rw [values, expanding, if_pos rfl]
      cases expand : b.value.expand with
      | nil =>
        rw [expand] at written
        cases written
        rw [outline_of_empty expanding expand, emptySet]
        exact ⟨[], .nil, congrArg Part.text String.append_empty.symm⟩
      | cons item items =>
        rw [expand] at written
        cases found : (item :: items).mapM d.literal with
        | error fault =>
          simp only [found] at written
          cases written
        | ok literals =>
          simp only [found] at written
          cases written
          have each := forall₂_literal_of_mapM found
          have length : items.length + 1 = (literals.map (Template.escaped d)).length := by
            rw [List.length_map]
            exact each.length_eq
          refine ⟨literals, each, ?_⟩
          rw [outline_of_cons expanding expand, length, filled_enclosed, Template.escaped_append,
            Template.escaped_append, Template.escaped_intercalate,
            Template.escaped_of_notMem (s := "(") (by decide),
            Template.escaped_of_notMem (s := ")") (by decide)]

/-- The text of parts with their values written out. -/
theorem exists_literals (h : Forall₂ (Inlined d) ps qs)
    (emptySet : Template.escaped d d.emptySet = d.emptySet) :
    ∃ literals,
      Forall₂ (fun value text => d.literal value = .ok text) (ps.flatMap values) literals ∧
      qs.flatMap params = [] ∧
      filled (qs.flatMap (outline d)) [] =
        filled (ps.flatMap (outline d)) (literals.map (Template.escaped d)) := by
  induction h with
  | nil => exact ⟨[], .nil, rfl, rfl⟩
  | @cons p q ps qs hpq _ ih =>
    obtain ⟨first, each, rfl⟩ := hpq.exists_literals emptySet
    obtain ⟨rest, eachRest, none, same⟩ := ih
    refine ⟨first ++ rest, List.rel_append each eachRest, none, ?_⟩
    have count : (p.outline d).count Option.none =
        (first.map (Template.escaped d)).length := by
      rw [count_outline, List.length_map, ← each.length_eq, ← map_snd_params, List.length_map]
    rw [List.flatMap_cons, List.flatMap_cons, List.map_append, filled_append count, ← same]
    rfl

end Part

namespace Template

variable {d : Dialect} {survey : Survey} {reversed settled : List Segment}
  {IsBind : Identity → Prop}

/-- The pieces of a layout with values written out are those with placeholders, with the values in
their places.  The induction is on the pieces, with the two namers side by side. -/
theorem inlined_of_settle {pieces : List Piece} {slim full : Namer}
    (h : slim.Spares IsBind full) (anonymous : ∀ a, .anonymous a ∈ pieces → ¬IsBind a.id)
    (params : ∀ n b, .bind n b ∈ pieces →
      IsBind n.id ∧ (b.isUnique = true → b.key ≠ some "anon"))
    (hs : settle d survey true pieces slim reversed = .ok settled) :
    ∃ parts, Forall₂ (Part.Inlined d) (Part.ofPieces d pieces full) parts ∧
      ∀ {d' : Dialect} {binds : List Node} {before : List Part},
        Assembled d' binds before reversed → Assembled d' binds (before ++ parts) settled := by
  induction pieces generalizing slim full reversed with
  | nil =>
    cases hs
    exact ⟨[], .nil, fun assembled => by rwa [List.append_nil]⟩
  | cons piece rest ih =>
    -- one more piece of text, and then the rest
    have rests {slim' full' : Namer} (h' : slim'.Spares IsBind full') {sql : String} {part : Part}
        (first : part.Inlined d (.text sql))
        (hs : settle d survey true rest slim' (pushText reversed sql) = .ok settled) :
        ∃ parts, Forall₂ (Part.Inlined d) (part :: Part.ofPieces d rest full') parts ∧
          ∀ {d' : Dialect} {binds : List Node} {before : List Part},
            Assembled d' binds before reversed → Assembled d' binds (before ++ parts) settled := by
      obtain ⟨parts, like, assembles⟩ := ih h'
        (fun a mem => anonymous a (List.mem_cons_of_mem _ mem))
        (fun n b mem => params n b (List.mem_cons_of_mem _ mem)) hs
      refine ⟨.text sql :: parts, .cons first like, fun assembled => ?_⟩
      have next := assembles (assembled.pushText sql)
      rwa [List.append_assoc] at next
    cases piece with
    | text sql => exact rests h (.text _) hs
    | anonymous a =>
      obtain ⟨name, h'⟩ := h.anonymous (anonymous a List.mem_cons_self)
      have part : Part.Inlined d (.text (escaped d (full.anonymous a).1))
          (.text (escaped d (slim.anonymous a).1)) := by
        rw [name]
        exact .text _
      exact rests h' part hs
    | bind n b =>
      obtain ⟨hn, hb⟩ := params n b List.mem_cons_self
      rw [settle, if_pos rfl] at hs
      cases literal : inlined d b with
      | error fault =>
        rw [literal] at hs
        cases hs
      | ok sql =>
        rw [literal] at hs
        exact rests (h.param hn hb) (.literal _ literal) hs

end Template

namespace Node

variable {n : Node} {d : Dialect} {bound : Nat} {t : Template}

/-- Whether no parameter of a tree takes its number from the stem from which FROM elements and
labels are named. -/
def KeysApart (n : Node) : Prop :=
  ∀ x b, Occurs x n → x.kind = .bind b → b.isUnique = true → b.key ≠ some "anon"

/-- Whether an identity is that of a bound parameter of a tree. -/
def HasParam (n : Node) (i : Identity) : Prop :=
  ∃ x b, Occurs x n ∧ x.id = i ∧ x.kind = .bind b

/-- A FROM element or label without a name is no bound parameter. -/
theorem not_hasParam {a : Node} (coherent : n.IsCoherent) (ha : Occurs a n)
    (nameless : a.isNameless = true) : ¬n.HasParam a.id := by
  rintro ⟨x, b, hx, same, kind⟩
  obtain rfl := coherent x a hx ha same
  rw [isNameless, kind] at nameless
  cases nameless

/-- A template in which values are written out is assembled to the parts of its tree, with the
values in the places of the parameters. -/
theorem exists_inlined_parts (coherent : n.IsCoherent) (keys : n.KeysApart)
    (h : n.template d (n.surveyed bound) true = .ok t) :
    (Layout.statement d [] n).fault = none ∧
      ∃ parts, Forall₂ (Part.Inlined d) (n.parts d bound) parts ∧
        ∀ (d' : Dialect) (binds : List Node), ∃ s, t.assemble d' binds = .ok s ∧
          s.MadeOf d' parts := by
  refine ⟨Template.fault_of_ofLayout h, ?_⟩
  have start : (Namer.start (n.surveyed bound).identifiers).Spares n.HasParam
      (.start (n.surveyed bound).identifiers) := .refl _
  obtain ⟨parts, like, assembles⟩ := Template.inlined_of_settle start
    (fun a mem => not_hasParam coherent (isOf_of_mem_pieces mem).2 (isOf_of_mem_pieces mem).1)
    (fun x b mem => by
      obtain ⟨kind, hx⟩ := occurs_of_mem_pieces mem
      exact ⟨⟨x, b, hx, rfl, kind⟩, keys x b hx kind⟩)
    (Template.settled_of_ofLayout h)
  refine ⟨parts, like, fun d' binds => ?_⟩
  obtain ⟨s, assembled, made⟩ := assembles (.nil d' binds)
  rw [List.reverse_reverse] at assembled
  exact ⟨s, assembled, made⟩

end Node

end SqlAlgebra
