import SqlAlgebra.Proofs.Survey.Marks
import SqlAlgebra.Proofs.Tree.Likeness

/-!
# Surveys of trees that are alike

Where trees correspond place by place, and their FROM elements, labels and bound parameters one to
one, surveys of them write the same key, number corresponding nodes alike, and take down the same
identifiers.
-/

namespace SqlAlgebra

open List (Forall₂)
open Node

namespace Mark

/-- Marks that say the same of nodes that are related. -/
inductive Like (R : Node → Node → Prop) : Mark → Mark → Prop where
  | put (e : KeyElement) : Like R (.put e) (.put e)
  | name (ident : String) : Like R (.name ident) (.name ident)
  | anonymous : Like R .anonymous .anonymous
  | slot {a b : Node} : R a b → a.isTracked → b.isTracked → Like R (.slot a) (.slot b)
  | child {a b : Node} : R a b → Like R (.child a) (.child b)

namespace Like

variable {R : Node → Node → Prop}

theorem append {xs ys xs' ys' : List Mark} (h : Forall₂ (Like R) xs ys)
    (h' : Forall₂ (Like R) xs' ys') : Forall₂ (Like R) (xs ++ xs') (ys ++ ys') :=
  List.rel_append h h'

theorem columnShapes (columns : List ColumnShape) :
    Forall₂ (Like R) (Mark.columnShapes columns) (Mark.columnShapes columns) := by
  refine .cons (.put _) ?_
  induction columns with
  | nil => exact .nil
  | cons column rest ih => exact .cons (.name _) (.cons (.put _) ih)

theorem identifier? (name : Option String) :
    Like R (Mark.identifier? name) (Mark.identifier? name) := by
  cases name
  · exact .put _
  · exact .name _

theorem nameOrAnonymous (name : Option String) :
    Like R (Mark.nameOrAnonymous name) (Mark.nameOrAnonymous name) := by
  cases name
  · exact .anonymous
  · exact .name _

theorem enclosed (group : String) {xs ys : List Mark} (h : Forall₂ (Like R) xs ys) :
    Forall₂ (Like R) (Mark.enclosed group xs) (Mark.enclosed group ys) :=
  .cons (.put _) (append h (.cons (.put _) .nil))

theorem children {ns ns' : List Node} (h : Forall₂ R ns ns') :
    Forall₂ (Like R) (ns.map .child) (ns'.map .child) := by
  induction h with
  | nil => exact .nil
  | cons h _ ih => exact .cons (.child h) ih

theorem group (group : String) {ns ns' : List Node} (h : Forall₂ R ns ns') :
    Forall₂ (Like R) (Mark.group group ns) (Mark.group group ns') := by
  unfold Mark.group
  rw [h.length_eq]
  exact enclosed group (.cons (.put _) (children h))

theorem option (group : String) {n n' : Option Node} (h : Option.Rel R n n') :
    Forall₂ (Like R) (Mark.option group n) (Mark.option group n') := by
  refine enclosed group ?_
  cases h with
  | none => exact .nil
  | some h => exact .cons (.child h) .nil

theorem pairs (group : String) {values values' : List (String × Node)}
    (h : Forall₂ (fun p q => p.1 = q.1 ∧ R p.2 q.2) values values') :
    Forall₂ (Like R) (Mark.pairs group values) (Mark.pairs group values') := by
  unfold Mark.pairs
  rw [h.length_eq]
  refine enclosed group (.cons (.put _) ?_)
  induction h with
  | nil => exact .nil
  | @cons p q _ _ h _ ih =>
    rw [List.flatMap_cons, List.flatMap_cons, h.1]
    exact .cons (.name _) (.cons (.child h.2) ih)

theorem inserted {source source' : Option (List String × Node)}
    (h : Option.Rel (fun p q => p.1 = q.1 ∧ R p.2 q.2) source source') :
    Forall₂ (Like R) (Mark.inserted source) (Mark.inserted source') := by
  refine enclosed "select" ?_
  cases h with
  | none => exact .nil
  | @some p q h =>
    rw [Option.elim_some, Option.elim_some, h.1]
    refine .cons (.put _) (append ?_ (.cons (.child h.2) .nil))
    induction q.1 with
    | nil => exact .nil
    | cons ident rest ih => exact .cons (.name ident) ih

end Like

end Mark

/-- Nodes that are alike leave marks that are alike. -/
theorem Node.Like.marks {R : Node → Node → Prop} {a b : Node} (h : a.Like R R R b) (hab : R a b) :
    Forall₂ (Mark.Like R) a.marks b.marks := by
  obtain ⟨kind, type⟩ := h
  rcases a with ⟨i, k, type, annotations, diagnostics⟩
  rcases b with ⟨i', k', type', annotations', diagnostics'⟩
  have one {a b : Node} (h : R a b) : Forall₂ (Mark.Like R) [.child a] [.child b] :=
    .cons (.child h) .nil
  cases kind with
  | null | truth => exact .nil
  | @bind p q h =>
    cases type
    rcases p with ⟨key, value, isUnique, isExpanding, isCrud⟩
    rcases q with ⟨key', value', isUnique', isExpanding', isCrud'⟩
    obtain ⟨hk, hu, he⟩ := h
    cases hk
    cases hu
    cases he
    exact .cons (.slot hab rfl rfl) (.cons (.identifier? key) (.cons (.put _) (.cons (.put _)
      (.cons (.put _) .nil))))
  | column name isLiteral h =>
    cases type
    exact .cons (.name name) (.cons (.put _) (.cons (.put _) (Mark.Like.option "table" h)))
  | text sql => exact .cons (.put _) .nil
  | textualSelect columns h => exact Mark.Like.append (Mark.Like.columnShapes columns) (one h)
  | unary op h => exact .cons (.put _) (one h)
  | binary op h₁ h₂ => exact .cons (.put _) (.cons (.child h₁) (one h₂))
  | clauseList op h => exact .cons (.put _) (Mark.Like.group "clauses" h)
  | grouping h | labelReference h | scalarSubquery h | tableValued h => exact one h
  | function name h => exact .cons (.put _) (Mark.Like.group "args" h)
  | cast type h => exact .cons (.put _) (one h)
  | label name h | «alias» name h | subquery name h => exact .cons (.nameOrAnonymous name) (one h)
  | textualLabelReference name => exact .cons (.name name) .nil
  | ordering isDescending nulls h => exact .cons (.put _) (.cons (.put _) (one h))
  | table t =>
    exact .cons (.name t.name) (.cons (.identifier? t.schema) (Mark.Like.columnShapes t.columns))
  | join kind h₁ h₂ h₃ => exact .cons (.put _) (.cons (.child h₁) (.cons (.child h₂) (one h₃)))
  | select isDistinct autoCorrelate h₁ h₂ h₃ h₄ h₅ h₆ h₇ h₈ =>
    have flags : Forall₂ (Mark.Like R) [.put (.flag isDistinct), .put (.flag autoCorrelate)]
        [.put (.flag isDistinct), .put (.flag autoCorrelate)] :=
      .cons (.put _) (.cons (.put _) .nil)
    refine Mark.Like.append flags ?_
    refine Mark.Like.append (Mark.Like.group "columns" h₁) ?_
    refine Mark.Like.append (Mark.Like.group "froms" h₂) ?_
    refine Mark.Like.append (Mark.Like.option "where" h₃) ?_
    refine Mark.Like.append (Mark.Like.group "group_by" h₄) ?_
    refine Mark.Like.append (Mark.Like.option "having" h₅) ?_
    refine Mark.Like.append (Mark.Like.group "order_by" h₆) ?_
    exact Mark.Like.append (Mark.Like.option "limit" h₇) (Mark.Like.option "offset" h₈)
  | compound op h => exact .cons (.put _) (Mark.Like.group "selects" h)
  | insert h₁ h₂ h₃ h₄ =>
    refine .cons (.child h₁) (Mark.Like.append (Mark.Like.pairs "values" h₂) ?_)
    exact Mark.Like.append (Mark.Like.inserted h₃) (Mark.Like.group "returning" h₄)
  | update h₁ h₂ h₃ h₄ =>
    refine .cons (.child h₁) (Mark.Like.append (Mark.Like.pairs "values" h₂) ?_)
    exact Mark.Like.append (Mark.Like.option "where" h₃) (Mark.Like.group "returning" h₄)
  | delete h₁ h₂ h₃ =>
    refine .cons (.child h₁) ?_
    exact Mark.Like.append (Mark.Like.option "where" h₂) (Mark.Like.group "returning" h₃)
  | @deferred l l' r r' hi hr =>
    show Forall₂ (Mark.Like R)
      [.put (.spelling ("Lambda(" ++ toString l.id ++ ")")), .put (.spelling r.name)]
      [.put (.spelling ("Lambda(" ++ toString l'.id ++ ")")), .put (.spelling r'.name)]
    rw [hi, hr]
    exact .cons (.put _) (.cons (.put _) .nil)

namespace Node

/-- A relation of nodes that agree on all that a key shows, which goes down along their children and
matches FROM elements, labels and bound parameters one to one. -/
structure Correspondence (R : Node → Node → Prop) : Prop where
  like : ∀ {a b : Node}, R a b → a.Like R R R b
  tracked : ∀ {a b c d : Node}, R a b → R c d → a.isTracked → c.isTracked →
    (a.id = c.id ↔ b.id = d.id)

variable {R : Node → Node → Prop} {m n a b : Node}

theorem SameShape.correspondence (h : SameShape m n) (objects : SameObjects m n) :
    Correspondence (Beside m n) where
  like hab := h.like hab
  tracked hab hcd ha hc :=
    objects ⟨hab, ha, (h hab).isTracked ▸ ha⟩ ⟨hcd, hc, (h hcd).isTracked ▸ hc⟩

end Node

namespace Survey

variable {R : Node → Node → Prop} {s t : Survey} {a b : Node}

/-- Surveys of trees that correspond. -/
structure Like (R : Node → Node → Prop) (s t : Survey) : Prop where
  buffer : s.buffer = t.buffer
  defined :
    Forall₂ (fun i j => ∃ a b, R a b ∧ a.isTracked ∧ a.id = i ∧ b.id = j) s.defined t.defined
  anonymous : s.anonymous = t.anonymous
  binds : Forall₂ (fun a b => R a b ∧ a.isTracked) s.binds t.binds
  identifiers : s.identifiers = t.identifiers

theorem Like.push (h : Like R s t) (e : KeyElement) : Like R (s.push e) (t.push e) :=
  ⟨by rw [Survey.push, Survey.push, h.buffer], h.defined, h.anonymous, h.binds, h.identifiers⟩

theorem findIdx?_congr {α β : Type} {Q : α → β → Prop} {p : α → Bool} {q : β → Bool} {xs : List α}
    {ys : List β} (h : Forall₂ Q xs ys) (hpq : ∀ x y, Q x y → p x = q y) :
    xs.findIdx? p = ys.findIdx? q := by
  induction h with
  | nil => rfl
  | cons hxy _ ih => rw [List.findIdx?_cons, List.findIdx?_cons, hpq _ _ hxy, ih]

theorem Like.ordinal? (hR : Correspondence R) (h : Like R s t) (hab : R a b) (ha : a.isTracked) :
    s.ordinal? a = t.ordinal? b := by
  unfold Survey.ordinal?
  rw [h.defined.length_eq]
  refine congrArg _ (findIdx?_congr h.defined ?_)
  rintro _ _ ⟨c, d, hcd, hc, rfl, rfl⟩
  rw [Bool.eq_iff_iff, beq_iff_eq, beq_iff_eq]
  exact hR.tracked hcd hab hc ha

theorem Like.slot? (hR : Correspondence R) (h : Like R s t) (hab : R a b) (ha : a.isTracked) :
    s.slot? a = t.slot? b := by
  refine findIdx?_congr h.binds ?_
  rintro c d ⟨hcd, hc⟩
  rw [Bool.eq_iff_iff, isSame, isSame, beq_iff_eq, beq_iff_eq]
  exact hR.tracked hcd hab hc ha

theorem Like.slotted (hR : Correspondence R) (h : Like R s t) (hab : R a b) (ha : a.isTracked) :
    Like R (s.slotted a) (t.slotted b) := by
  unfold Survey.slotted
  rw [h.slot? hR hab ha]
  cases t.slot? b with
  | some slot => exact h.push _
  | none =>
    rw [h.binds.length_eq]
    have grown : Like R { s with binds := s.binds ++ [a] } { t with binds := t.binds ++ [b] } :=
      ⟨h.buffer, h.defined, h.anonymous, List.rel_append h.binds (.cons ⟨hab, ha⟩ .nil),
        h.identifiers⟩
    exact grown.push _

theorem Like.define (h : Like R s t) (hab : R a b) (ha : a.isTracked) :
    Like R (s.define a) (t.define b) := by
  unfold Survey.define
  rw [h.defined.length_eq]
  have grown : Like R { s with defined := a.id :: s.defined }
    { t with defined := b.id :: t.defined } :=
    ⟨h.buffer, .cons ⟨a, b, hab, ha, rfl, rfl⟩ h.defined, h.anonymous, h.binds, h.identifiers⟩
  exact grown.push _

theorem Like.visit (h : Like R s t) (a b : Node) : Like R (s.visit a) (t.visit b) := by
  unfold Survey.visit
  split <;> split <;> exact ⟨h.buffer, h.defined, h.anonymous, h.binds, h.identifiers⟩

theorem Like.takeAll {xs ys : List Mark} (hR : Correspondence R) (h : Like R s t)
    (marks : Forall₂ (Mark.Like R) xs ys)
    (child : ∀ c, .child c ∈ xs → ∀ {s t : Survey} {d : Node}, Like R s t → R c d →
      Like R (survey s c) (survey t d)) :
    Like R (s.takeAll xs) (t.takeAll ys) := by
  induction marks generalizing s t with
  | nil => exact h
  | @cons x y xs ys hxy _ ih =>
    rw [takeAll_cons, takeAll_cons]
    refine ih ?_ fun c hc => child c (List.mem_cons_of_mem _ hc)
    cases hxy with
    | put e => exact h.push e
    | name ident =>
      have pushed := h.push (.spelling ident)
      refine ⟨pushed.buffer, h.defined, h.anonymous, h.binds, ?_⟩
      simp only [take, identifier, h.identifiers]
    | anonymous =>
      have grown : Like R { s with anonymous := s.anonymous + 1 }
          { t with anonymous := t.anonymous + 1 } :=
        ⟨h.buffer, h.defined, congrArg (· + 1) h.anonymous, h.binds, h.identifiers⟩
      rw [take, take, h.anonymous]
      rw [h.anonymous] at grown
      exact grown.push _
    | slot hab ha => exact h.slotted hR hab ha
    | child hab => exact child _ List.mem_cons_self h hab

theorem Like.entered (hR : Correspondence R) (h : Like R s t) (hab : R a b) :
    Like R (s.entered a) (t.entered b) := by
  have like := hR.like hab
  unfold Survey.entered
  rw [← like.hasOrdinal, ← like.kindName]
  refine Like.push (Like.visit ?_ a b) _
  by_cases ho : a.hasOrdinal
  · rw [if_pos ho, if_pos ho]
    exact h.define hab (by rw [isTracked, ho]; rfl)
  · rwa [if_neg ho, if_neg ho]

/-- Surveys of corresponding trees correspond. -/
theorem Like.survey (hR : Correspondence R) (h : Like R s t) (hab : R a b) :
    Like R (survey s a) (survey t b) := by
  induction a using Node.induct generalizing s t b with
  | step a ih =>
    have like := hR.like hab
    rw [survey_eq, survey_eq, ← like.hasOrdinal]
    have ordinal : (if a.hasOrdinal then s.ordinal? a else none) =
        if a.hasOrdinal then t.ordinal? b else none := by
      by_cases ho : a.hasOrdinal
      · rw [if_pos ho, if_pos ho]
        exact h.ordinal? hR hab (by rw [isTracked, ho]; rfl)
      · rw [if_neg ho, if_neg ho]
    rw [ordinal]
    cases (if a.hasOrdinal then t.ordinal? b else none) with
    | some i => exact h.push _
    | none =>
      exact (h.entered hR hab).takeAll hR (like.marks hab)
        fun c hc _ _ _ h hcd => ih c (mem_children_of_mark hc) h hcd

theorem Like.start (bound : Nat) : Like R (start bound) (start bound) :=
  ⟨rfl, .nil, rfl, .nil, rfl⟩

end Survey

theorem Node.Correspondence.surveyed {R : Node → Node → Prop} {m n : Node} (hR : Correspondence R)
    (h : R m n) (bound : Nat) : Survey.Like R (m.surveyed bound) (n.surveyed bound) :=
  (Survey.Like.start bound).survey hR h

end SqlAlgebra
