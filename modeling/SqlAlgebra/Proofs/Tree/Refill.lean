import SqlAlgebra.Proofs.Tree.Likeness
import SqlAlgebra.Tree.Substitution

/-!
# Shapes with other children

A shape that is given other children has these children, is of the same form as before, and is
itself again when the children are its own.
-/

namespace SqlAlgebra.Kind

open List (Forall₂)

variable {α β κ : Type} {R : α → β → Prop}

/-! ## The parts of a shape

Each part takes its share of the children from the front and leaves the others. -/

theorem refillOne_append {old new : α} {rest : List α} :
    refillOne old (new :: rest) = (new, rest) := rfl

theorem refillMany_append {old news r : List α} (h : news.length = old.length) :
    refillMany old (news ++ r) = (news, r) := by
  rw [refillMany, ← h, List.take_left, List.drop_left]

/-- Where a part takes the children that are left, it leaves none. -/
theorem refillMany_all {old news : List α} (h : news.length = old.length) :
    refillMany old news = (news, []) := by
  have taken := refillMany_append (r := []) h
  rwa [List.append_nil] at taken

theorem refillMany_self {news : List α} : refillMany news news = (news, []) := refillMany_all rfl

theorem refillOption_append {old new : Option α} {r : List α}
    (h : new.toList.length = old.toList.length) :
    refillOption old (new.toList ++ r) = (new, r) := by
  cases old <;> cases new <;> first | rfl | cases h

theorem refillOption_all {old new : Option α} (h : new.toList.length = old.toList.length) :
    refillOption old new.toList = (new, []) := by
  have taken := refillOption_append (r := []) h
  rwa [List.append_nil] at taken

theorem refillPairs_append {old : List (κ × α)} {news rest : List α}
    (h : news.length = old.length) :
    refillPairs old (news ++ rest) = (List.zipWith (fun pair new => (pair.1, new)) old news,
    rest) := by
  rw [refillPairs, ← h, List.drop_left]
  congr 1
  induction old generalizing news with
  | nil =>
    obtain rfl := List.length_eq_zero_iff.1 h
    rfl
  | cons pair old ih =>
    cases news with
    | nil => cases h
    | cons new news => exact congrArg ((pair.1, new) :: ·) (ih (Nat.succ.inj h))

theorem map_snd_zipWith {old : List (κ × α)} {news : List α} (h : news.length = old.length) :
    (List.zipWith (fun pair new => (pair.1, new)) old news).map Prod.snd = news := by
  induction old generalizing news with
  | nil =>
    obtain rfl := List.length_eq_zero_iff.1 h
    rfl
  | cons pair old ih =>
    cases news with
    | nil => cases h
    | cons new news => exact congrArg (new :: ·) (ih (Nat.succ.inj h))

theorem exists_append {news : List α} {m n : Nat} (h : news.length = m + n) :
    ∃ xs ys, news = xs ++ ys ∧ xs.length = m ∧ ys.length = n :=
  ⟨news.take m, news.drop m, (List.take_append_drop m news).symm, by
    rw [List.length_take]; omega, by rw [List.length_drop]; omega⟩

theorem exists_toList {old : Option α} {news : List α} (h : news.length = old.toList.length) :
    ∃ new : Option α, news = new.toList := by
  cases old with
  | none => exact ⟨none, List.length_eq_zero_iff.1 h⟩
  | some old =>
    obtain ⟨new, rfl⟩ := List.length_eq_one_iff.1 h
    exact ⟨some new, rfl⟩

/-! ## Whole shapes -/

theorem children_refill_select {s : Select α} {news : List α}
    (h : news.length = s.children.length) : ((Kind.select s).refill news).children = news := by
  simp only [Select.children, List.length_append] at h
  obtain ⟨news, offset, rfl, h, h₈⟩ := exists_append h
  obtain ⟨news, limit, rfl, h, h₇⟩ := exists_append h
  obtain ⟨news, orderBy, rfl, h, h₆⟩ := exists_append h
  obtain ⟨news, having, rfl, h, h₅⟩ := exists_append h
  obtain ⟨news, groupBy, rfl, h, h₄⟩ := exists_append h
  obtain ⟨news, criteria, rfl, h, h₃⟩ := exists_append h
  obtain ⟨columns, froms, rfl, h₁, h₂⟩ := exists_append h
  obtain ⟨criteria, rfl⟩ := exists_toList h₃
  obtain ⟨having, rfl⟩ := exists_toList h₅
  obtain ⟨limit, rfl⟩ := exists_toList h₇
  obtain ⟨offset, rfl⟩ := exists_toList h₈
  simp only [refill, List.append_assoc, refillMany_append h₁, refillMany_append h₂,
    refillOption_append h₃, refillMany_append h₄, refillOption_append h₅, refillMany_append h₆,
    refillOption_append h₇, refillOption_all h₈, children, Select.children]

/-- A shape has the children that it is given. -/
theorem children_refill {k : Kind α} {news : List α} (h : news.length = k.children.length) :
    (k.refill news).children = news := by
  cases k with
  | null | truth | bind | text | textualLabelReference | table | deferred =>
    exact (List.length_eq_zero_iff.1 h).symm
  | column name source isLiteral =>
    obtain ⟨source, rfl⟩ := exists_toList h
    simp only [refill, refillOption_all h, children]
  | textualSelect | unary | grouping | cast | label | labelReference | ordering | «alias» | subquery
  | scalarSubquery | tableValued =>
    obtain ⟨new, rfl⟩ := List.length_eq_one_iff.1 h
    rfl
  | binary =>
    obtain ⟨left, right, rfl⟩ := List.length_eq_two.1 h
    rfl
  | join =>
    obtain ⟨left, right, on, rfl⟩ := List.length_eq_three.1 h
    rfl
  | clauseList | function | compound =>
    have taken := refillMany_all h
    simp only [children] at taken
    simp only [refill, taken, children]
  | select s => exact children_refill_select h
  | insert i =>
    rcases i with ⟨table, values, source, returning⟩
    obtain ⟨target, news, rfl⟩ := List.exists_cons_of_length_eq_add_one h
    have h := Nat.succ.inj h
    rw [List.length_append, List.length_append, List.length_map] at h
    obtain ⟨news, changed, rfl, h, h₃⟩ := exists_append h
    obtain ⟨news, query, rfl, h₁, h₂⟩ := exists_append h
    have last := refillMany_all h₃
    cases source with
    | none =>
      obtain rfl := List.length_eq_zero_iff.1 h₂
      simp only [refill, refillOne_append, List.append_assoc, refillPairs_append h₁,
        List.nil_append,
        last, children, map_snd_zipWith h₁, Option.map_none, Option.toList_none]
    | some source =>
      obtain ⟨query, rfl⟩ := List.length_eq_one_iff.1 h₂
      simp only [refill, refillOne_append, List.append_assoc, refillPairs_append h₁,
        List.cons_append, List.nil_append, last, children, map_snd_zipWith h₁, Option.map_some,
        Option.toList_some]
  | update u =>
    rcases u with ⟨table, values, criteria, returning⟩
    obtain ⟨target, news, rfl⟩ := List.exists_cons_of_length_eq_add_one h
    have h := Nat.succ.inj h
    rw [List.length_append, List.length_append, List.length_map] at h
    obtain ⟨news, changed, rfl, h, h₃⟩ := exists_append h
    obtain ⟨news, criteria, rfl, h₁, h₂⟩ := exists_append h
    obtain ⟨criteria, rfl⟩ := exists_toList h₂
    have last := refillMany_all h₃
    simp only [refill, refillOne_append, List.append_assoc, refillPairs_append h₁,
      refillOption_append h₂, last, children, map_snd_zipWith h₁]
  | delete d =>
    rcases d with ⟨table, criteria, returning⟩
    obtain ⟨target, news, rfl⟩ := List.exists_cons_of_length_eq_add_one h
    have h := Nat.succ.inj h
    rw [List.length_append] at h
    obtain ⟨criteria, changed, rfl, h₁, h₂⟩ := exists_append h
    obtain ⟨criteria, rfl⟩ := exists_toList h₁
    have last := refillMany_all h₂
    simp only [refill, refillOne_append, refillOption_append h₁, last, children]

/-- A shape that is given its own children is itself. -/
theorem refill_children (k : Kind α) : k.refill k.children = k := by
  have option (o : Option α) : refillOption o o.toList = (o, []) := refillOption_all rfl
  have pairs (values : List (String × α)) :
      List.zipWith (fun pair new => (pair.1, new)) values (values.map Prod.snd) = values := by
    rw [List.zipWith_map_right, List.zipWith_self]
    exact List.map_id values
  cases k with
  | null | truth | bind | text | textualLabelReference | table | deferred | textualSelect | unary
  | grouping | cast | label | labelReference | ordering | «alias» | subquery | scalarSubquery
  | tableValued | binary | join => rfl
  | column name source isLiteral => simp only [children, refill, option]
  | clauseList | function | compound => simp only [children, refill, refillMany_self]
  | select s =>
    simp only [children, Select.children, List.append_assoc, refill, refillMany_append rfl,
      refillOption_append rfl, option]
  | insert i =>
    rcases i with ⟨table, values, source, returning⟩
    cases source <;>
      simp only [children, refill, refillOne_append, List.append_assoc,
        refillPairs_append (List.length_map _), pairs, Option.map_none, Option.map_some,
        Option.toList_none, Option.toList_some, List.nil_append, List.cons_append, refillMany_self]
  | update u =>
    simp only [children, refill, refillOne_append, List.append_assoc,
      refillPairs_append (List.length_map _), pairs, refillOption_append rfl, refillMany_self]
  | delete d =>
    simp only [children, refill, refillOne_append, refillOption_append rfl, refillMany_self]

section SameForm

variable {T : α → α → Prop} {as bs : List α}

theorem refillMany_rel (old : List α) (h : Forall₂ T as bs) :
    Forall₂ T (refillMany old as).1 (refillMany old bs).1 ∧
      Forall₂ T (refillMany old as).2 (refillMany old bs).2 :=
  ⟨List.forall₂_take _ h, List.forall₂_drop _ h⟩

theorem refillOne_rel (hT : ∀ a, T a a) (old : α) (h : Forall₂ T as bs) :
    T (refillOne old as).1 (refillOne old bs).1 ∧
      Forall₂ T (refillOne old as).2 (refillOne old bs).2 := by
  cases h with
  | nil => exact ⟨hT old, .nil⟩
  | cons h hs => exact ⟨h, hs⟩

theorem refillOption_rel (hT : ∀ a, T a a) (old : Option α) (h : Forall₂ T as bs) :
    Option.Rel T (refillOption old as).1 (refillOption old bs).1 ∧
      Forall₂ T (refillOption old as).2 (refillOption old bs).2 := by
  cases old with
  | none => exact ⟨.none, h⟩
  | some old => exact ⟨.some (refillOne_rel hT old h).1, (refillOne_rel hT old h).2⟩

theorem refillPairs_rel (old : List (κ × α)) (h : Forall₂ T as bs) :
    Forall₂ (fun p q => p.1 = q.1 ∧ T p.2 q.2) (refillPairs old as).1 (refillPairs old bs).1 ∧
      Forall₂ T (refillPairs old as).2 (refillPairs old bs).2 := by
  refine ⟨?_, List.forall₂_drop _ h⟩
  unfold refillPairs
  induction old generalizing as bs with
  | nil => exact .nil
  | cons pair old ih =>
    cases h with
    | nil => exact .nil
    | cons h hs => exact .cons ⟨rfl, h⟩ (ih hs)

/-- Shapes that are given related children are alike. -/
theorem refill_rel (hT : ∀ a, T a a) (k : Kind α) (h : Forall₂ T as bs) :
    (k.refill as).Like T T T (k.refill bs) := by
  have one (old : α) {as bs : List α} (h : Forall₂ T as bs) := refillOne_rel hT old h
  have option (old : Option α) {as bs : List α} (h : Forall₂ T as bs) := refillOption_rel hT old h
  cases k with
  | null => exact .null
  | truth value => exact .truth value
  | bind b => exact .bind ⟨rfl, rfl, rfl⟩
  | column name source isLiteral => exact .column name isLiteral (option source h).1
  | text sql => exact .text sql
  | textualSelect e columns => exact .textualSelect columns (one e h).1
  | unary op e => exact .unary op (one e h).1
  | binary left op right => exact .binary op (one left h).1 (one right (one left h).2).1
  | clauseList op es => exact .clauseList op (refillMany_rel es h).1
  | grouping e => exact .grouping (one e h).1
  | function name es => exact .function name (refillMany_rel es h).1
  | cast e type => exact .cast type (one e h).1
  | label name e => exact .label name (one e h).1
  | labelReference e => exact .labelReference (one e h).1
  | textualLabelReference name => exact .textualLabelReference name
  | ordering e isDescending nulls => exact .ordering isDescending nulls (one e h).1
  | table t => exact .table t
  | «alias» e name => exact .alias name (one e h).1
  | subquery e name => exact .subquery name (one e h).1
  | scalarSubquery e => exact .scalarSubquery (one e h).1
  | tableValued e => exact .tableValued (one e h).1
  | join j =>
    obtain ⟨left, h⟩ := one j.left h
    obtain ⟨right, h⟩ := one j.right h
    exact .join j.kind left right (one j.on h).1
  | select s =>
    obtain ⟨h₁, h⟩ := refillMany_rel s.columns h
    obtain ⟨h₂, h⟩ := refillMany_rel s.froms h
    obtain ⟨h₃, h⟩ := option s.criteria h
    obtain ⟨h₄, h⟩ := refillMany_rel s.groupBy h
    obtain ⟨h₅, h⟩ := option s.having h
    obtain ⟨h₆, h⟩ := refillMany_rel s.orderBy h
    obtain ⟨h₇, h⟩ := option s.limit h
    obtain ⟨h₈, -⟩ := option s.offset h
    exact .select s.isDistinct s.autoCorrelate h₁ h₂ h₃ h₄ h₅ h₆ h₇ h₈
  | compound op es => exact .compound op (refillMany_rel es h).1
  | insert i =>
    rcases i with ⟨table, values, source, returning⟩
    obtain ⟨h₁, h⟩ := one table h
    obtain ⟨h₂, h⟩ := refillPairs_rel values h
    cases source with
    | none => exact .insert h₁ h₂ .none (refillMany_rel returning h).1
    | some source =>
      obtain ⟨h₃, h⟩ := one source.2 h
      exact .insert h₁ h₂ (.some ⟨rfl, h₃⟩) (refillMany_rel returning h).1
  | update u =>
    obtain ⟨h₁, h⟩ := one u.table h
    obtain ⟨h₂, h⟩ := refillPairs_rel u.values h
    obtain ⟨h₃, h⟩ := option u.criteria h
    exact .update h₁ h₂ h₃ (refillMany_rel u.returning h).1
  | delete d =>
    obtain ⟨h₁, h⟩ := one d.table h
    obtain ⟨h₂, h⟩ := option d.criteria h
    exact .delete h₁ h₂ (refillMany_rel d.returning h).1
  | deferred lambda role => exact .deferred rfl rfl

end SameForm

/-- A shape with related children in either's place is like itself. -/
theorem refill_like {R : α → α → Prop} {k : Kind α} {as bs : List α}
    (ha : as.length = k.children.length) (h : Forall₂ R as bs) :
    (k.refill as).Like R R R (k.refill bs) := by
  have all : Forall₂ (fun _ _ => True) as bs := h.imp fun _ _ _ => trivial
  refine (refill_rel (fun _ => trivial) k all).of_children ?_
  rwa [children_refill ha, children_refill (h.length_eq.symm.trans ha)]

theorem like_self {R : α → α → Prop} {k : Kind α} (h : ∀ c ∈ k.children, R c c) :
    k.Like R R R k := by
  have like := refill_like (k := k) rfl (List.forall₂_same.2 h)
  rwa [refill_children] at like

end SqlAlgebra.Kind
