import SqlAlgebra.Proofs.Coercion.Acceptance
import SqlAlgebra.Proofs.Coercion.Growth
import SqlAlgebra.Proofs.Layout.Correlation
import SqlAlgebra.Proofs.Tree.Rewriting

/-!
# Flat anonymization of a join

A join that is made anonymous flat becomes a join of the same shape in which each element has an
alias of its own.  Each ON clause is rewritten on the way up: the columns of the elements that its
join has on its two sides become columns of the aliases.  The whole rows of elements, and the
columns of elements that only an outer join has, still refer to what was replaced.
-/

namespace SqlAlgebra

namespace Node

open Build (Ends bind_run)

/-- The elements that a join puts together, from left to right; other nodes stand for themselves. -/
def leaves (n : Node) : List Node :=
  match _h : n.kind with
  | .join j => j.left.leaves ++ j.right.leaves
  | _ => [n]
termination_by sizeOf n
decreasing_by all_goals exact sizeOf_child (by simp [children, Kind.children, *])

/-- Whether a node is a column of one of some FROM elements. -/
def ColumnOf (y : Node) (elements : List Node) : Prop :=
  ∃ a ∈ elements, ∃ name isLiteral, y.kind = .column name (some a) isLiteral

/-- Whether a node refers to one of some FROM elements, by a column of it or by its whole row. -/
def RefersTo (y : Node) (elements : List Node) : Prop :=
  y.ColumnOf elements ∨ ∃ a ∈ elements, y.kind = .tableValued a

/-- The columns of replaced FROM elements and the columns of the same name in their place. -/
inductive Columns (pairs : List (Node × Node)) : Kind Node → Kind Node → Prop where
  | column {a b : Node} {name : String} {isLiteral : Bool} : (a, b) ∈ pairs →
      Columns pairs (.column name (some a) isLiteral) (.column name (some b) isLiteral)

/-- The references to replaced FROM elements and those in their place. -/
inductive References (pairs : List (Node × Node)) : Kind Node → Kind Node → Prop where
  | column {a b : Node} {name : String} {isLiteral : Bool} : (a, b) ∈ pairs →
      References pairs (.column name (some a) isLiteral) (.column name (some b) isLiteral)
  | wholeRow {a b : Node} : (a, b) ∈ pairs → References pairs (.tableValued a) (.tableValued b)

/-- Whether a node is an alias or a subquery without a name of what a FROM element stands for. -/
def IsAnonymousOf (m n : Node) : Prop :=
  match n.kind with
  | .table _ => m.kind = .alias n none
  | .alias element _ => m.kind = .alias element none
  | .subquery element _ => m.kind = .subquery element none
  | _ => False

/-- Whether a join has the same shape and kinds as another one, with an anonymous alias in place of
each element.  `clause` says of every ON clause what it became, beside the elements that its join
puts together and their aliases. -/
inductive Anonymized (clause : List (Node × Node) → Node → Node → Prop) : Node → Node → Prop where
  | leaf {n m : Node} : m.IsAnonymousOf n → Anonymized clause n m
  | join {n m : Node} {j j' : Join Node} : n.kind = .join j → m.kind = .join j' →
      j'.kind = j.kind → Anonymized clause j.left j'.left → Anonymized clause j.right j'.right →
        clause (n.leaves.zip m.leaves) j.on j'.on → Anonymized clause n m

variable {K : Heap} {n m : Node} {j : Join Node} {next next' low : Identity}
  {clause : List (Node × Node) → Node → Node → Prop} {pairs : List (Node × Node)}

theorem leaves_of_join (h : n.kind = .join j) : n.leaves = j.left.leaves ++ j.right.leaves := by
  rw [leaves]
  split
  · next h' =>
    rw [h] at h'
    cases h'
    rfl
  · next h' => exact absurd h (h' j)

theorem leaves_of_ne_join (h : ∀ j, n.kind ≠ .join j) : n.leaves = [n] := by
  rw [leaves]
  split
  · next h' => exact absurd h' (h _)
  · rfl

theorem members_of_join (h : n.kind = .join j) :
    n.members = n :: (j.left.members ++ j.right.members) := by
  rw [members]
  split
  · next h' =>
    rw [h] at h'
    cases h'
    rfl
  · next h' => exact absurd h (h' j)

theorem IsAnonymousOf.ne_join (h : m.IsAnonymousOf n) :
    (∀ j, n.kind ≠ .join j) ∧ ∀ j, m.kind ≠ .join j := by
  rcases n with ⟨i, kind, type, annotations, diagnostics⟩
  cases kind with
  | table | «alias» | subquery =>
    have hm : m.kind = _ := h
    exact ⟨nofun, by rw [hm]; exact nofun⟩
  | _ => cases h

theorem IsAnonymousOf.leaves_eq (h : m.IsAnonymousOf n) : n.leaves = [n] ∧ m.leaves = [m] :=
  ⟨leaves_of_ne_join h.ne_join.1, leaves_of_ne_join h.ne_join.2⟩

theorem Anonymized.length_leaves (h : n.Anonymized clause m) :
    n.leaves.length = m.leaves.length := by
  induction h with
  | leaf h => rw [h.leaves_eq.1, h.leaves_eq.2]; rfl
  | join hn hm _ _ _ _ ihl ihr =>
    rw [leaves_of_join hn, leaves_of_join hm, List.length_append, List.length_append, ihl, ihr]

/-- The elements of a join beside their aliases are those of its sides. -/
theorem Anonymized.zip_leaves {j' : Join Node} (hn : n.kind = .join j) (hm : m.kind = .join j')
    (left : j.left.Anonymized clause j'.left) :
    n.leaves.zip m.leaves =
      j.left.leaves.zip j'.left.leaves ++ j.right.leaves.zip j'.right.leaves := by
  rw [leaves_of_join hn, leaves_of_join hm, List.zip_append left.length_leaves]

theorem occurs_of_mem_leaves {x : Node} (h : x ∈ n.leaves) : Occurs x n := by
  induction n using Node.induct with
  | step n ih =>
    by_cases hj : ∃ j, n.kind = .join j
    · obtain ⟨j, hj⟩ := hj
      rw [leaves_of_join hj] at h
      obtain h | h := List.mem_append.1 h
      · have side : j.left ∈ n.children := by simp [children, hj, Kind.children]
        exact .deeper side (ih j.left side h)
      · have side : j.right ∈ n.children := by simp [children, hj, Kind.children]
        exact .deeper side (ih j.right side h)
    · rw [leaves_of_ne_join fun j h => hj ⟨j, h⟩, List.mem_singleton] at h
      rw [h]
      exact .root

theorem rewritesTo_of_repointColumns {on out : Node} (valid : K.Valid next) (hon : K on)
    (hpairs : ∀ p ∈ pairs, K p.1) (run : repointColumns pairs on next = .ok (out, next')) :
    RewritesTo next (Columns pairs) on out := by
  unfold repointColumns at run
  obtain ⟨⟨out, state⟩, i, first, last⟩ := Build.bind_ok run
  cases last
  refine rewritesTo_of_substitute valid hon (fun x hx => ?_) first
  rcases x with ⟨i, kind, type, annotations, diagnostics⟩
  cases kind with
  | column name source isLiteral =>
    cases source with
    | none => exact .inr ⟨(fun ⟨_, gives⟩ => nomatch gives), fun _ _ => rfl⟩
    | some source =>
      have sourceMem : K source := valid.closed hx source List.mem_cons_self
      unfold Reshapes
      dsimp only
      cases found : pairs.find? fun pair => pair.1.isSame source with
      | some pair =>
        have mem := List.mem_of_find?_eq_some found
        have same : pair.1 = source :=
          valid.unique (hpairs pair mem) sourceMem (by simpa [isSame] using List.find?_some found)
        exact .inl ⟨.column name (some pair.2) isLiteral, .column (same ▸ mem), fun _ _ => rfl⟩
      | none =>
        refine .inr ⟨fun ⟨_, gives⟩ => ?_, fun _ _ => rfl⟩
        cases gives with
        | column mem => exact List.find?_eq_none.1 found _ mem (by simp [isSame])
  | _ => exact .inr ⟨(fun ⟨_, gives⟩ => nomatch gives), fun _ _ => rfl⟩

/-- An alias without a name of a FROM element that is no join. -/
theorem exists_of_aliased {i : Identity} (source : n.isFromClause) (alone : ∀ j, n.kind ≠ .join j) :
    ∃ kind, n.aliased none i = .ok (⟨i, kind, .null, [], []⟩, i + 1) ∧
      IsAnonymousOf ⟨i, kind, .null, [], []⟩ n := by
  rcases n with ⟨id, kind, type, annotations, diagnostics⟩
  cases kind with
  | table | «alias» | subquery => exact ⟨_, rfl, rfl⟩
  | join j => exact absurd rfl (alone j)
  | _ => cases source

theorem anonymizeSides_of_join (hj : n.kind = .join j) :
    n.anonymizeSides = (do
      let (left, replacedLeft) ← anonymizeSides j.left
      let (right, replacedRight) ← anonymizeSides j.right
      let replaced := replacedLeft ++ replacedRight
      let on ← repointColumns replaced j.on
      let joined ← Build.untyped (.join ⟨left, right, on, j.kind⟩)
      pure (joined, replaced)) := by
  rw [anonymizeSides]
  split
  · next h =>
    rw [hj] at h
    cases h
    rfl
  · next h => exact absurd hj (h j)

theorem anonymizeSides_of_ne_join (h : ∀ j, n.kind ≠ .join j) :
    n.anonymizeSides = (do
      let new ← n.aliased none
      pure (new, [(n, new)])) := by
  rw [anonymizeSides]
  split
  · next h' => exact absurd h' (h _)
  · rfl

/-- What is left behind when a node is made anonymous: new aliases, each its own, in place of its
elements, and ON clauses with the columns of their own sides replaced. -/
structure Anonymizing (low : Identity) (K : Heap) (next : Identity) (n m : Node)
    (pairs : List (Node × Node)) (K' : Heap) (next' : Identity) : Prop where
  le : next ≤ next'
  growth : K.Extends next K'
  valid : K'.Valid next'
  mem : K' m
  pairs : pairs = n.leaves.zip m.leaves
  fresh : ∀ x ∈ m.leaves, next ≤ x.id
  once : (m.leaves.map Node.id).Nodup
  anonymized : n.Anonymized (fun own => RewritesTo low (Columns own)) m

theorem mem_of_mem_zip_leaves {K' : Heap} (valid : K.Valid next) (hn : K n)
    (valid' : K'.Valid next') (hm : K' m) {p : Node × Node} (hp : p ∈ n.leaves.zip m.leaves) :
    K p.1 ∧ K' p.2 := by
  obtain ⟨hx, hy⟩ := List.of_mem_zip hp
  exact ⟨valid.occurs hn (occurs_of_mem_leaves hx), valid'.occurs hm (occurs_of_mem_leaves hy)⟩

/-- The elements of a join are different ones if those of its right side are newer than all of its
left side. -/
theorem nodup_leaves_of_join (valid : K.Valid next) (hm : m.kind = .join j) (left : K j.left)
    (onceLeft : (j.left.leaves.map Node.id).Nodup) (onceRight : (j.right.leaves.map Node.id).Nodup)
    (newer : ∀ y ∈ j.right.leaves, next ≤ y.id) : (m.leaves.map Node.id).Nodup := by
  rw [leaves_of_join hm, List.map_append, List.nodup_append]
  refine ⟨onceLeft, onceRight, ?_⟩
  rintro _ hx _ hy rfl
  obtain ⟨x, memx, rfl⟩ := List.mem_map.1 hx
  obtain ⟨y, memy, same⟩ := List.mem_map.1 hy
  have before := valid.bounded (valid.occurs left (occurs_of_mem_leaves memx))
  exact absurd before (Nat.not_lt.2 (same ▸ newer y memy))

/-- An element that is no join gets an alias. -/
theorem exists_anonymizing_of_ne_join (valid : K.Valid next) (hn : K n)
    (alone : ∀ j, n.kind ≠ .join j) (source : n.isFromClause)
    (run : n.anonymizeSides next = .ok ((m, pairs), next')) :
    ∃ K', Anonymizing low K next n m pairs K' next' := by
  obtain ⟨kind, made, anonymous⟩ := exists_of_aliased (i := next) source alone
  rw [anonymizeSides_of_ne_join alone] at run
  obtain ⟨new, i, first, last⟩ := Build.bind_ok run
  obtain ⟨le, K', ext, valid', mem⟩ := grows_aliased hn valid first
  rw [made] at first
  cases first
  cases last
  have leaves := anonymous.leaves_eq
  refine ⟨K', le, ext, valid', mem, by rw [leaves.1, leaves.2]; rfl, ?_, ?_, .leaf anonymous⟩
  · rw [leaves.2]
    intro x hx
    obtain rfl := List.mem_singleton.1 hx
    exact Nat.le_refl _
  · rw [leaves.2]
    exact List.nodup_singleton _

/-- A join of what its sides became, once its ON clause has the columns of both replaced. -/
theorem Anonymizing.exists_join {K₁ K₂ : Heap} {i₁ i₂ i₃ : Identity} {left right on : Node}
    {ps qs : List (Node × Node)} (valid : K.Valid next) (hn : K n) (le : low ≤ next)
    (hj : n.kind = .join j) (hl : Anonymizing low K next j.left left ps K₁ i₁)
    (hr : Anonymizing low K₁ i₁ j.right right qs K₂ i₂)
    (run : repointColumns (ps ++ qs) j.on i₂ = .ok (on, i₃)) :
    ∃ K', Anonymizing low K next n ⟨i₃, .join ⟨left, right, on, j.kind⟩, .null, [], []⟩ (ps ++ qs)
      K' (i₃ + 1) := by
  have child (c : Node) (hc : c ∈ [j.left, j.right, j.on]) : K c :=
    valid.closed hn c (by simpa [children, hj, Kind.children] using hc)
  have le₂ := Nat.le_trans hl.le hr.le
  have ext₂ := hl.growth.trans hl.le hr.growth
  have elements : ∀ p ∈ ps ++ qs, K₂ p.1 ∧ K₂ p.2 := by
    intro p hp
    rw [hl.pairs, hr.pairs, List.mem_append] at hp
    obtain hp | hp := hp
    · have mem := mem_of_mem_zip_leaves valid (child _ (by simp)) hl.valid hl.mem hp
      exact ⟨ext₂.keeps mem.1, hr.growth.keeps mem.2⟩
    · have mem := mem_of_mem_zip_leaves valid (child _ (by simp)) hr.valid hr.mem hp
      exact ⟨ext₂.keeps mem.1, mem.2⟩
  have onMem : K₂ j.on := ext₂.keeps (child _ (by simp))
  obtain ⟨le₃, K₃, ext₃, valid₃, mem₃⟩ :=
    grows_repointColumns (fun p hp => (elements p hp).2) onMem hr.valid run
  have clause := rewritesTo_of_repointColumns hr.valid onMem (fun p hp => (elements p hp).1) run
  generalize hm : (⟨i₃, .join ⟨left, right, on, j.kind⟩, .null, [], []⟩ : Node) = m
  have kind : m.kind = .join ⟨left, right, on, j.kind⟩ := by rw [← hm]
  have id : m.id = i₃ := by rw [← hm]
  have zip : ps ++ qs = n.leaves.zip m.leaves := by
    rw [hl.anonymized.zip_leaves hj kind, hl.pairs, hr.pairs]
  refine ⟨K₃.insert m, ?_, ?_, ?_, .inr rfl, zip, ?_, ?_, ?_⟩
  · exact Nat.le_trans le₂ (Nat.le_trans le₃ (Nat.le_succ _))
  · exact (ext₂.trans le₂ ext₃).trans (Nat.le_trans le₂ le₃) (.insert id)
  · refine valid₃.insert id fun c hc => ?_
    rw [children, kind] at hc
    obtain rfl | rfl | rfl : c = left ∨ c = right ∨ c = on := by
      simpa [Kind.children] using hc
    · exact ext₃.keeps (hr.growth.keeps hl.mem)
    · exact ext₃.keeps hr.mem
    · exact mem₃
  · intro x hx
    rw [leaves_of_join kind] at hx
    obtain hx | hx := List.mem_append.1 hx
    · exact hl.fresh x hx
    · exact Nat.le_trans hl.le (hr.fresh x hx)
  · exact nodup_leaves_of_join hl.valid kind hl.mem hl.once hr.once hr.fresh
  · refine .join hj kind rfl hl.anonymized hr.anonymized ?_
    rw [← zip]
    exact clause.mono (Nat.le_trans le le₂)

/-- Every node whose elements are FROM elements is made anonymous in this way. -/
theorem exists_anonymizing (valid : K.Valid next) (hn : K n)
    (sources : ∀ x ∈ n.leaves, x.isFromClause) (le : low ≤ next)
    (run : n.anonymizeSides next = .ok ((m, pairs), next')) :
    ∃ K', Anonymizing low K next n m pairs K' next' := by
  induction n using Node.induct generalizing K next m pairs next' with
  | step n ih =>
    by_cases hj : ∃ j, n.kind = .join j
    · obtain ⟨j, hj⟩ := hj
      have hl : j.left ∈ n.children := by simp [children, hj, Kind.children]
      have hr : j.right ∈ n.children := by simp [children, hj, Kind.children]
      rw [leaves_of_join hj] at sources
      rw [anonymizeSides_of_join hj] at run
      obtain ⟨⟨left, ps⟩, i₁, runLeft, run⟩ := Build.bind_ok run
      obtain ⟨⟨right, qs⟩, i₂, runRight, run⟩ := Build.bind_ok run
      obtain ⟨on, i₃, runOn, run⟩ := Build.bind_ok run
      obtain ⟨joined, i₄, made, run⟩ := Build.bind_ok run
      cases run
      cases made
      obtain ⟨K₁, left⟩ := ih j.left hl valid (valid.closed hn _ hl)
        (fun x hx => sources x (List.mem_append_left _ hx)) le runLeft
      obtain ⟨K₂, right⟩ := ih j.right hr left.valid (left.growth.keeps (valid.closed hn _ hr))
        (fun x hx => sources x (List.mem_append_right _ hx)) (Nat.le_trans le left.le) runRight
      exact left.exists_join valid hn le hj right runOn
    · have alone : ∀ j, n.kind ≠ .join j := fun j h => hj ⟨j, h⟩
      rw [leaves_of_ne_join alone] at sources
      exact exists_anonymizing_of_ne_join valid hn alone (sources n List.mem_cons_self) run

/-! ## Where it is complete -/

/-- Whether an ON clause became one in which every reference to a replaced element, by a column or
by the whole row, is the reference of the same name to what replaces it, and everything else is as
it was.  References inside what replaces the elements are not looked at. -/
structure Repointed (low : Identity) (pairs : List (Node × Node)) (on on' : Node) : Prop where
  rewrites : RewritesTo low (References pairs) on on'
  noneLeft : ∀ y : Node, y.Met (·.RefersTo (pairs.map Prod.snd)) on' →
    ¬ y.RefersTo (pairs.map Prod.fst)

/-- Whether FROM elements are replaced by anonymous aliases that are newer. -/
def Replacing (low : Identity) (pairs : List (Node × Node)) : Prop :=
  ∀ p ∈ pairs, p.1.id < low ∧ low ≤ p.2.id ∧ p.2.IsAnonymousOf p.1

section Clause

variable {own : List (Node × Node)} {f : Node → Node} {a b y on on' : Node}

theorem givesWay_references_iff :
    y.GivesWay (References pairs) ↔ y.RefersTo (pairs.map Prod.fst) := by
  constructor
  · rintro ⟨k, gives⟩
    generalize hy : y.kind = kind at gives
    cases gives with
    | column mem => exact .inl ⟨_, List.mem_map_of_mem mem, _, _, hy⟩
    | wholeRow mem => exact .inr ⟨_, List.mem_map_of_mem mem, hy⟩
  · rintro (⟨a, ha, name, isLiteral, hy⟩ | ⟨a, ha, hy⟩)
    · obtain ⟨p, hp, rfl⟩ := List.mem_map.1 ha
      exact ⟨.column name (some p.2) isLiteral, by rw [hy]; exact .column hp⟩
    · obtain ⟨p, hp, rfl⟩ := List.mem_map.1 ha
      exact ⟨.tableValued p.2, by rw [hy]; exact .wholeRow hp⟩

theorem givesWay_columns_iff : y.GivesWay (Columns own) ↔ y.ColumnOf (own.map Prod.fst) := by
  constructor
  · rintro ⟨k, gives⟩
    generalize hy : y.kind = kind at gives
    cases gives with
    | column mem => exact ⟨_, List.mem_map_of_mem mem, _, _, hy⟩
  · rintro ⟨a, ha, name, isLiteral, hy⟩
    obtain ⟨p, hp, rfl⟩ := List.mem_map.1 ha
    exact ⟨.column name (some p.2) isLiteral, by rw [hy]; exact .column hp⟩

theorem Columns.references {k k' : Kind Node} (h : Columns own k k') (sub : own ⊆ pairs) :
    References pairs k k' := by
  cases h with
  | column mem => exact .column (sub mem)

/-- A replaced element itself stays what it is, or is built anew with other children; in neither
case it is its alias. -/
theorem Rewrites.ne_alias (h : Rewrites low (Columns own) f on)
    (ha : a.Met (GivesWay (Columns own)) on) (older : a.id < low) (newer : low ≤ b.id)
    (anonymous : b.IsAnonymousOf a) : f a ≠ b := by
  rintro rfl
  have apart : f a ≠ a := fun same => absurd older (Nat.not_lt.2 (same ▸ newer))
  have stays : ¬ a.GivesWay (Columns own) := by
    rintro ⟨k, gives⟩
    rcases a with ⟨i, kind, type, annotations, diagnostics⟩
    cases gives
    cases anonymous
  obtain ⟨kind, itself⟩ := h.of_kept ha stays
  refine apart (itself ?_)
  rcases a with ⟨i, kind', type, annotations, diagnostics⟩
  cases kind' with
  | table => rfl
  | «alias» element name =>
    have same : Kind.alias (f element) name = .alias element none := kind.symm.trans anonymous
    exact congrArg (fun e => [e]) (Kind.alias.inj same).1
  | subquery element name =>
    have same : Kind.subquery (f element) name = .subquery element none :=
      kind.symm.trans anonymous
    exact congrArg (fun e => [e]) (Kind.subquery.inj same).1
  | _ => cases anonymous

/-- No reference to a replaced element is left, neither among those that were put in its place nor
among the nodes that were kept. -/
theorem not_refersTo_of_rewrites (replacing : Replacing low pairs)
    (h : Rewrites low (References pairs) f on) (hy : y.Met (GivesWay (References pairs)) on) :
    ¬ (f y).RefersTo (pairs.map Prod.fst) := by
  have older {a : Node} (ha : a ∈ pairs.map Prod.fst) : a.id < low := by
    obtain ⟨p, hp, rfl⟩ := List.mem_map.1 ha
    exact (replacing p hp).1
  by_cases gives : y.GivesWay (References pairs)
  · have replaced := h.of_replaced hy gives
    rintro (⟨a, ha, name, isLiteral, hk⟩ | ⟨a, ha, hk⟩)
    · rw [hk] at replaced
      generalize y.kind = kind at replaced
      cases replaced with
      | column mem => exact absurd (older ha) (Nat.not_lt.2 (replacing _ mem).2.1)
    · rw [hk] at replaced
      generalize y.kind = kind at replaced
      cases replaced with
      | wholeRow mem => exact absurd (older ha) (Nat.not_lt.2 (replacing _ mem).2.1)
  · have kept := (h.of_kept hy gives).1
    -- a child that became an element was this element itself
    have itself {s : Node} (hs : s ∈ y.children) (ha : f s ∈ pairs.map Prod.fst) : f s = s :=
      (h.fresh s (hy.child gives hs)).resolve_right fun newer =>
        absurd (older ha) (Nat.not_lt.2 newer)
    rw [givesWay_references_iff] at gives
    rcases y with ⟨i, kind, type, annotations, diagnostics⟩
    rintro (⟨a, ha, name, isLiteral, hk⟩ | ⟨a, ha, hk⟩)
    · rw [hk] at kept
      cases kind with
      | column name' source isLiteral' =>
        cases source with
        | none => cases kept
        | some s =>
          obtain rfl : a = f s := by cases kept; rfl
          rw [itself List.mem_cons_self ha] at ha
          exact gives (.inl ⟨s, ha, name', isLiteral', rfl⟩)
      | _ => cases kept
    · rw [hk] at kept
      cases kind with
      | tableValued s =>
        obtain rfl : a = f s := by cases kept; rfl
        rw [itself List.mem_cons_self ha] at ha
        exact gives (.inr ⟨s, ha, rfl⟩)
      | _ => cases kept

theorem noneLeft_of_rewritesTo (replacing : Replacing low pairs)
    (h : RewritesTo low (References pairs) on on')
    (hy : y.Met (·.RefersTo (pairs.map Prod.snd)) on') : ¬ y.RefersTo (pairs.map Prod.fst) := by
  obtain ⟨f, h, rfl⟩ := h
  have stops (x : Node) (gives : x.GivesWay (References pairs))
      (hx : x.Met (GivesWay (References pairs)) on) : (f x).RefersTo (pairs.map Prod.snd) := by
    have replaced := h.of_replaced hx gives
    generalize hk : (f x).kind = k at replaced
    generalize x.kind = kind at replaced
    cases replaced with
    | column mem => exact .inl ⟨_, List.mem_map_of_mem mem, _, _, hk⟩
    | wholeRow mem => exact .inr ⟨_, List.mem_map_of_mem mem, hk⟩
  obtain ⟨x, hx, rfl⟩ := h.exists_of_met hy stops
  exact not_refersTo_of_rewrites replacing h hx

theorem givesWay_references_of_columns (sub : own ⊆ pairs) (y : Node)
    (gives : y.GivesWay (Columns own)) : y.GivesWay (References pairs) := by
  obtain ⟨k, gives⟩ := gives
  exact ⟨k, gives.references sub⟩

/-- If replacing some columns did what replacing all references does, every reference that is met
was one of these columns. -/
theorem givesWay_columns_of_repointed (replacing : Replacing low pairs) (sub : own ⊆ pairs)
    (h : Rewrites low (Columns own) f on) (all : RewritesTo low (References pairs) on (f on))
    (hy : y.Met (GivesWay (References pairs)) on) (gives : y.GivesWay (References pairs)) :
    y.GivesWay (Columns own) := by
  by_contra stays
  obtain ⟨f', h', same⟩ := all
  have agree : f' y = f y := h'.agree h (givesWay_references_of_columns sub) same.symm hy
  have met : y.Met (GivesWay (Columns own)) on := hy.mono (givesWay_references_of_columns sub)
  have replaced := h'.of_replaced hy gives
  have kept := (h.of_kept met stays).1
  rw [agree, kept] at replaced
  -- the reference would have to be to the alias, but its element did not become the alias
  have apart {s : Node} (hs : s ∈ y.children) : (s, f s) ∉ pairs := fun mem => by
    obtain ⟨older, newer, anonymous⟩ := replacing _ mem
    exact h.ne_alias (met.child stays hs) older newer anonymous rfl
  rcases y with ⟨i, kind, type, annotations, diagnostics⟩
  cases kind with
  | column name source isLiteral =>
    cases source with
    | none => cases replaced
    | some s =>
      change References pairs (.column name (some s) isLiteral)
        (.column name (some (f s)) isLiteral) at replaced
      cases replaced with
      | column mem => exact apart List.mem_cons_self mem
  | tableValued s =>
    change References pairs (.tableValued s) (.tableValued (f s)) at replaced
    cases replaced with
    | wholeRow mem => exact apart List.mem_cons_self mem
  | _ => cases replaced

/-- If every reference that is met is one of the replaced columns, replacing these did what
replacing all references does. -/
theorem rewritesTo_references (sub : own ⊆ pairs) (h : Rewrites low (Columns own) f on)
    (all : ∀ y : Node, y.Met (GivesWay (References pairs)) on → y.GivesWay (References pairs) →
      y.GivesWay (Columns own)) : RewritesTo low (References pairs) on (f on) := by
  have met {x : Node} (hx : x.Met (GivesWay (References pairs)) on) :
      x.Met (GivesWay (Columns own)) on := hx.mono (givesWay_references_of_columns sub)
  refine ⟨f, ⟨fun x hx => ?_, fun x hx => h.fresh x (met hx),
    fun x y hx hy => h.injective x y (met hx) (met hy)⟩, rfl⟩
  generalize hfx : f x = a
  have image := h.image x (met hx)
  rw [hfx] at image
  cases image with
  | replaced gives => exact .replaced (gives.references sub)
  | kept stays below same => exact .kept (fun gives => stays (all x hx gives)) below same

/-- An ON clause of which only some columns were replaced is as it should be exactly if these are
all the references that are met in it. -/
theorem repointed_iff_of_rewritesTo (replacing : Replacing low pairs) (sub : own ⊆ pairs)
    (h : RewritesTo low (Columns own) on on') :
    Repointed low pairs on on' ↔
      ∀ y : Node, y.Met (·.RefersTo (pairs.map Prod.fst)) on → y.RefersTo (pairs.map Prod.fst) →
        y.ColumnOf (own.map Prod.fst) := by
  have refers : (GivesWay (References pairs)) = (·.RefersTo (pairs.map Prod.fst)) :=
    funext fun _ => propext givesWay_references_iff
  obtain ⟨f, h, rfl⟩ := h
  rw [← refers]
  simp only [← givesWay_references_iff, ← givesWay_columns_iff]
  constructor
  · rintro ⟨all, -⟩ y hy gives
    exact givesWay_columns_of_repointed replacing sub h all hy gives
  · intro all
    have rewrites := rewritesTo_references sub h all
    exact ⟨rewrites, fun y hy => noneLeft_of_rewritesTo replacing rewrites hy⟩

end Clause

theorem ends_anonymizeSides_of_sources (sources : ∀ x ∈ n.leaves, x.isFromClause) :
    Ends n.anonymizeSides (fun _ => True) fun _ => False := by
  induction n using Node.induct with
  | step n ih =>
    by_cases hj : ∃ j, n.kind = .join j
    · obtain ⟨j, hj⟩ := hj
      have leaves := leaves_of_join hj
      rw [anonymizeSides_of_join hj]
      refine (ih j.left (by simp [children, hj, Kind.children])
        fun x hx => sources x (by simp [leaves, hx])).bind fun _ _ => ?_
      refine (ih j.right (by simp [children, hj, Kind.children])
        fun x hx => sources x (by simp [leaves, hx])).bind fun _ _ => ?_
      refine (ends_repointColumns _ _).bind fun _ _ => ?_
      exact (ends_kind (P := fun _ => True) fun _ _ => trivial).bind fun _ _ => .pure trivial
    · have alone : ∀ j, n.kind ≠ .join j := fun j h => hj ⟨j, h⟩
      have source : n.isFromClause :=
        sources n (by rw [leaves_of_ne_join alone]; exact List.mem_singleton_self n)
      have aliased : Ends (n.aliased none) (fun _ => True) fun _ => False := by
        refine ⟨fun _ _ _ _ => trivial, fun i e run => ?_⟩
        obtain ⟨kind, made, -⟩ := exists_of_aliased (i := i) source alone
        rw [made] at run
        cases run
      rw [anonymizeSides_of_ne_join alone]
      exact aliased.bind fun _ _ => .pure trivial

theorem expect_of_anonymizeSides {args : CoercionArgs} (hj : n.kind = .join j)
    (flat : args.flat = true) (run : n.anonymizeSides next = .ok ((m, pairs), next')) :
    expect .anonymizedFromClause (.node n) args next = .ok (⟨.node m, []⟩, next') := by
  have anonymize : n.anonymize args.flat args.aliasName next = .ok (m, next') := by
    unfold anonymize
    rw [hj, flat]
    show (n.anonymizeSides next >>= fun p => Except.ok (p.1.1, p.2)) = _
    rw [run]
    rfl
  have accepts : Role.accepts .anonymizedFromClause n = true := by
    simp [Role.accepts, isDeferred, isFromClause, hj]
  have lifted : (liftM (n.anonymize args.flat args.aliasName) : Coerce Node) [] next =
      .ok ((m, []), next') :=
    bind_run (f := fun n => Pure.pure (n, [])) anonymize
  have settled : (⟨.anonymizedFromClause, args⟩ : Site).settle (.node n) n [] next =
      .ok ((.node m, []), next') := by
    show (Coerced.node <$> (liftM (n.anonymize args.flat args.aliasName) : Coerce Node)) [] next = _
    rw [map_eq_pure_bind]
    exact bind_run (f := fun p => Pure.pure (Coerced.node p.1, p.2)) lifted
  unfold expect
  rw [Site.coerce_of_accepts accepts]
  exact bind_run settled

/-- A join of which only the columns of each side were replaced is as it should be exactly if its ON
clauses, and those of the joins in it, have no other references to its elements. -/
theorem Anonymized.repointed_iff {pairs : List (Node × Node)} (replacing : Replacing low pairs)
    (h : n.Anonymized (fun own => RewritesTo low (Columns own)) m)
    (sub : n.leaves.zip m.leaves ⊆ pairs) :
    n.Anonymized (fun _ => Repointed low pairs) m ↔
      ∀ x ∈ n.members, ∀ j, x.kind = .join j → ∀ y : Node,
        y.Met (·.RefersTo (pairs.map Prod.fst)) j.on → y.RefersTo (pairs.map Prod.fst) →
          y.ColumnOf x.leaves := by
  induction h with
  | @leaf n m anonymous =>
    refine ⟨fun _ x hx j hj => ?_, fun _ => .leaf anonymous⟩
    obtain rfl | inner := mem_members_iff.1 hx
    · exact absurd hj (anonymous.ne_join.1 j)
    · obtain ⟨y, -, k, hk, -⟩ := Relation.TransGen.tail'_iff.1 inner
      exact absurd hk (anonymous.ne_join.1 k)
  | @join n m j j' hn hm hk left right clause ihl ihr =>
    have zip := left.zip_leaves hn hm
    have subLeft := List.Subset.trans (List.subset_append_left _ _) (zip ▸ sub)
    have subRight := List.Subset.trans (List.subset_append_right _ _) (zip ▸ sub)
    have length : n.leaves.length ≤ m.leaves.length :=
      Nat.le_of_eq (Anonymized.join hn hm hk left right clause).length_leaves
    have own := repointed_iff_of_rewritesTo replacing sub clause
    rw [List.map_fst_zip length] at own
    rw [members_of_join hn]
    constructor
    · intro complete x hx k hx'
      cases complete with
      | leaf anonymous => exact absurd hn (anonymous.ne_join.1 j)
      | @join _ _ l l' hn' hm' _ left' right' clause' =>
        obtain rfl := Kind.join.inj (hn'.symm.trans hn)
        obtain rfl := Kind.join.inj (hm'.symm.trans hm)
        rw [List.mem_cons, List.mem_append] at hx
        obtain rfl | hx | hx := hx
        · obtain rfl := Kind.join.inj (hx'.symm.trans hn)
          exact own.1 clause'
        · exact (ihl subLeft).1 left' x hx k hx'
        · exact (ihr subRight).1 right' x hx k hx'
    · intro all
      refine .join hn hm hk ((ihl subLeft).2 fun x hx => all x ?_)
        ((ihr subRight).2 fun x hx => all x ?_) (own.2 (all n List.mem_cons_self j hn))
      · exact List.mem_cons_of_mem _ (List.mem_append_left _ hx)
      · exact List.mem_cons_of_mem _ (List.mem_append_right _ hx)

theorem Anonymized.anonymous (h : n.Anonymized clause m) {p : Node × Node}
    (hp : p ∈ n.leaves.zip m.leaves) : p.2.IsAnonymousOf p.1 := by
  induction h with
  | leaf anonymous =>
    rw [anonymous.leaves_eq.1, anonymous.leaves_eq.2] at hp
    obtain rfl := List.mem_singleton.1 hp
    exact anonymous
  | join hn hm _ left _ _ ihl ihr =>
    rw [left.zip_leaves hn hm] at hp
    exact (List.mem_append.1 hp).elim ihl ihr

theorem Anonymized.replacing (h : n.Anonymized clause m) (valid : K.Valid next) (hn : K n)
    (fresh : ∀ x ∈ m.leaves, next ≤ x.id) : Replacing next (n.leaves.zip m.leaves) := by
  intro p hp
  obtain ⟨hx, hy⟩ := List.of_mem_zip hp
  exact ⟨valid.bounded (valid.occurs hn (occurs_of_mem_leaves hx)), fresh p.2 hy, h.anonymous hp⟩

section Flat

variable {args : CoercionArgs} (valid : K.Valid next) (hn : K n) (hj : n.kind = .join j)
  (sources : ∀ x ∈ n.leaves, x.isFromClause) (flat : args.flat = true)

include valid hn hj sources flat

/-- A flat anonymization of a join of FROM elements gives a join of the same shape.  Each element
has a new alias of its own, and in the ON clauses the columns of their own sides are replaced. -/
theorem exists_anonymized_of_flat :
    ∃ m next', expect .anonymizedFromClause (.node n) args next = .ok (⟨.node m, []⟩, next') ∧
      (∃ K', K.Extends next K' ∧ K'.Valid next' ∧ K' m) ∧ (∀ x ∈ m.leaves, next ≤ x.id) ∧
        (m.leaves.map Node.id).Nodup ∧
          n.Anonymized (fun own => RewritesTo next (Columns own)) m := by
  cases run : n.anonymizeSides next with
  | error e => exact ((ends_anonymizeSides_of_sources sources).error run).elim
  | ok r =>
    obtain ⟨⟨m, pairs⟩, next'⟩ := r
    obtain ⟨K', made⟩ := exists_anonymizing valid hn sources (Nat.le_refl _) run
    exact ⟨m, next', expect_of_anonymizeSides hj flat run,
      ⟨K', made.growth, made.valid, made.mem⟩, made.fresh, made.once, made.anonymized⟩

/-- A flat anonymization gives every element of a join a new alias of its own.  It points all
references to the elements at the aliases exactly if no ON clause refers to an element by its whole
row, or by a column that is not of a side of its own join. -/
theorem repointed_iff_of_flat :
    ∃ m next', expect .anonymizedFromClause (.node n) args next = .ok (⟨.node m, []⟩, next') ∧
      (∃ K', K.Extends next K' ∧ K'.Valid next' ∧ K' m) ∧ (∀ x ∈ m.leaves, next ≤ x.id) ∧
        (m.leaves.map Node.id).Nodup ∧
          n.Anonymized (fun own => RewritesTo next (Columns own)) m ∧
            (n.Anonymized (fun _ => Repointed next (n.leaves.zip m.leaves)) m ↔
              ∀ x ∈ n.members, ∀ j, x.kind = .join j → ∀ y : Node,
                y.Met (·.RefersTo n.leaves) j.on → y.RefersTo n.leaves → y.ColumnOf x.leaves) := by
  obtain ⟨m, next', run, heap, fresh, once, anonymized⟩ :=
    exists_anonymized_of_flat valid hn hj sources flat
  have complete := anonymized.repointed_iff (anonymized.replacing valid hn fresh) fun _ hp => hp
  rw [List.map_fst_zip (Nat.le_of_eq anonymized.length_leaves)] at complete
  exact ⟨m, next', run, heap, fresh, once, anonymized, complete⟩

end Flat

section Sample

def sampleMatch (left : Node) : Node :=
  ⟨5, .binary left .eq (Select.sampleReference 2 (Select.sampleElement 1 "u")), .boolean, [], []⟩

/-- The tables `t` and `u` joined where something equals a column of `u`. -/
def sampleJoined (left : Node) : Node :=
  ⟨6, .join ⟨Select.sampleElement 0 "t", Select.sampleElement 1 "u", sampleMatch left, .inner⟩,
    .null, [], []⟩

/-- The whole row of `t` as the argument of a function. -/
def sampleRow : Node := ⟨3, .tableValued (Select.sampleElement 0 "t"), .null, [], []⟩

def sampleCall : Node := ⟨4, .function "f" [sampleRow], .null, [], []⟩

theorem valid_sampleJoined : Heap.Valid (· ∈ [
    Select.sampleElement 0 "t", Select.sampleElement 1 "u",
    Select.sampleReference 2 (Select.sampleElement 1 "u"),
    Select.sampleReference 3 (Select.sampleElement 0 "t"),
    sampleMatch (Select.sampleReference 3 (Select.sampleElement 0 "t")),
    sampleJoined (Select.sampleReference 3 (Select.sampleElement 0 "t"))]) 7 := by
  refine Heap.valid_of_list ?_ ?_ ?_
  · simp [sampleJoined, sampleMatch, Select.sampleReference, Select.sampleElement, children,
      Kind.children]
  · simp [sampleJoined, sampleMatch, Select.sampleReference, Select.sampleElement]
  · simp [sampleJoined, sampleMatch, Select.sampleReference, Select.sampleElement]

theorem leaves_sampleJoined (left : Node) :
    (sampleJoined left).leaves = [Select.sampleElement 0 "t", Select.sampleElement 1 "u"] := by
  have table (i : Identity) (name : String) :
      (Select.sampleElement i name).leaves = [Select.sampleElement i name] :=
    leaves_of_ne_join (by simp [Select.sampleElement])
  rw [leaves_of_join (j := ⟨_, _, sampleMatch left, .inner⟩) rfl, table, table]
  rfl

theorem sources_sampleJoined (left : Node) : ∀ x ∈ (sampleJoined left).leaves, x.isFromClause := by
  rw [leaves_sampleJoined]
  simp [Select.sampleElement, isFromClause]

/-- With columns of both tables in the ON clause everything is pointed at the aliases. -/
theorem repointed_sampleJoined :
    ∃ m next', expect .anonymizedFromClause
        (.node (sampleJoined (Select.sampleReference 3 (Select.sampleElement 0 "t"))))
        { flat := true } 7 = .ok (⟨.node m, []⟩, next') ∧
      (sampleJoined (Select.sampleReference 3 (Select.sampleElement 0 "t"))).Anonymized
        (fun _ => Repointed 7
          ([Select.sampleElement 0 "t", Select.sampleElement 1 "u"].zip m.leaves)) m := by
  obtain ⟨m, next', run, -, -, -, -, complete⟩ := repointed_iff_of_flat
    (n := sampleJoined (Select.sampleReference 3 (Select.sampleElement 0 "t")))
    valid_sampleJoined (by simp) rfl (sources_sampleJoined _)
    (show CoercionArgs.flat { flat := true } = true from rfl)
  rw [leaves_sampleJoined] at complete
  refine ⟨m, next', run, complete.2 fun x hx j hj y hy refers => ?_⟩
  have occurs : Occurs x (sampleJoined (Select.sampleReference 3 (Select.sampleElement 0 "t"))) :=
    (mem_members_iff.1 hx).elim (fun eq => eq ▸ .root) MemberOf.occurs
  have mem := valid_sampleJoined.occurs (by simp) occurs
  obtain rfl : x = sampleJoined (Select.sampleReference 3 (Select.sampleElement 0 "t")) := by
    simp only [List.mem_cons, List.not_mem_nil, or_false] at mem
    obtain rfl | rfl | rfl | rfl | rfl | rfl := mem
    all_goals first
      | rfl
      | cases hj
  rw [leaves_sampleJoined]
  obtain columns | ⟨a, -, row⟩ := refers
  · exact columns
  · have on : j.on ∈
        (sampleJoined (Select.sampleReference 3 (Select.sampleElement 0 "t"))).children := by
      simp [children, hj, Kind.children]
    have mem := valid_sampleJoined.occurs (by simp) (Occurs.deeper on hy.occurs)
    simp only [List.mem_cons, List.not_mem_nil, or_false] at mem
    obtain rfl | rfl | rfl | rfl | rfl | rfl := mem <;> cases row

/-- The whole row of a table in the ON clause still refers to the table and not to its alias. -/
theorem not_repointed_sampleCall :
    ¬ ∃ m next', expect .anonymizedFromClause (.node (sampleJoined sampleCall)) { flat := true } 7 =
        .ok (⟨.node m, []⟩, next') ∧
      (sampleJoined sampleCall).Anonymized
        (fun _ => Repointed 7
          ([Select.sampleElement 0 "t", Select.sampleElement 1 "u"].zip m.leaves)) m := by
  rintro ⟨m, next', run, complete⟩
  have valid : Heap.Valid (· ∈ [Select.sampleElement 0 "t", Select.sampleElement 1 "u",
      Select.sampleReference 2 (Select.sampleElement 1 "u"), sampleRow, sampleCall,
      sampleMatch sampleCall, sampleJoined sampleCall]) 7 := by
    refine Heap.valid_of_list ?_ ?_ ?_
    · simp [sampleJoined, sampleMatch, sampleCall, sampleRow, Select.sampleReference,
        Select.sampleElement, children, Kind.children]
    · simp [sampleJoined, sampleMatch, sampleCall, sampleRow, Select.sampleReference,
        Select.sampleElement]
    · simp [sampleJoined, sampleMatch, sampleCall, sampleRow, Select.sampleReference,
        Select.sampleElement]
  obtain ⟨m', next'', run', -, fresh, -, anonymized⟩ := exists_anonymized_of_flat
    (n := sampleJoined sampleCall) valid (by simp) rfl (sources_sampleJoined _)
    (show CoercionArgs.flat { flat := true } = true from rfl)
  rw [run'] at run
  cases run
  rw [← leaves_sampleJoined sampleCall] at complete
  have replacing := anonymized.replacing valid (by simp) fresh
  have all := (anonymized.repointed_iff replacing fun _ hp => hp).1
    complete (sampleJoined sampleCall) (mem_members_iff.2 (.inl rfl)) _ rfl sampleRow
  rw [List.map_fst_zip (Nat.le_of_eq anonymized.length_leaves), leaves_sampleJoined] at all
  have criterion : ¬ (sampleMatch sampleCall).RefersTo
      [Select.sampleElement 0 "t", Select.sampleElement 1 "u"] := by
    rintro (⟨_, -, _, _, kind⟩ | ⟨_, -, kind⟩) <;> cases kind
  have call : ¬ sampleCall.RefersTo [Select.sampleElement 0 "t", Select.sampleElement 1 "u"] := by
    rintro (⟨_, -, _, _, kind⟩ | ⟨_, -, kind⟩) <;> cases kind
  have row : sampleRow.RefersTo [Select.sampleElement 0 "t", Select.sampleElement 1 "u"] :=
    .inr ⟨_, List.mem_cons_self, rfl⟩
  obtain ⟨_, -, _, _, kind⟩ :=
    all (.deeper criterion List.mem_cons_self (.deeper call List.mem_cons_self .root)) row
  cases kind

end Sample

end Node

end SqlAlgebra
