import SqlAlgebra.Proofs.Layout.Likeness
import SqlAlgebra.Proofs.Layout.Sources

/-!
# Names in layouts of trees that are alike

What a layout takes from the names of FROM elements, of columns and of labels.
-/

namespace SqlAlgebra

open List (Forall₂)
open Node
open Layout (Like)

namespace Layout

/-- How a bare name stands for a column, if it does. -/
def named? (d : Dialect) (name : String) (c : Node) : Option Layout :=
  match c.kind with
  | .label (some label) _ => if label = name then some (identifier d name) else none
  | .column column' source isLiteral =>
    if column' = name then some (column d column' source isLiteral) else none
  | _ => none

theorem textualLabel_eq (d : Dialect) (frames : List Frame) (name : String) :
    textualLabel d frames name =
      (((frames.head?.map Frame.columns).getD []).findSome? (named? d name)).getD
        (fail (.unresolvedLabel name)) := rfl

end Layout

namespace Simulation

variable {R S T : Node → Node → Prop} {a b : Node} {d : Dialect} {frames frames' : List Frame}

/-- Corresponding row sources export columns of the same names; their types may differ. -/
theorem exportedColumns (h : Simulation R S T) (hab : R a b) :
    Forall₂ (fun p q => p.1 = q.1) a.exportedColumns b.exportedColumns := by
  have same (columns : List ColumnShape) : Forall₂ (fun p q => p.1 = q.1) columns columns :=
    List.forall₂_same.2 fun _ _ => rfl
  induction a using Node.induct generalizing b with
  | step a ih =>
    have kind := (h.likeAll hab).kind
    rcases a with ⟨i, k, type, annotations, diagnostics⟩
    rcases b with ⟨i', k', type', annotations', diagnostics'⟩
    rw [Node.exportedColumns, Node.exportedColumns]
    cases kind with
    | table t => exact same t.columns
    | textualSelect columns => exact same columns
    | «alias» _ hc | subquery _ hc => exact ih _ (by simp [children, Kind.children]) hc
    | join _ hl hr _ =>
      exact List.rel_append (ih _ (by simp [children, Kind.children]) hl)
        (ih _ (by simp [children, Kind.children]) hr)
    | compound _ hs =>
      cases hs with
      | nil => exact .nil
      | cons hc _ => exact ih _ (by simp [children, Kind.children]) hc
    | select _ _ hs =>
      refine flatMap_forall₂ hs fun c hc c' hcc => ?_
      have inner := ih c (by simp [children, Kind.children, Select.children, hc]) hcc
      have fromClause := (h.like hcc).isFromClause
      obtain ⟨like, -⟩ := h.like hcc
      have other : Forall₂ (fun p q : ColumnShape => p.1 = q.1)
          (if c.isFromClause then c.exportedColumns else [])
          (if c'.isFromClause then c'.exportedColumns else []) := by
        rw [fromClause]
        split
        · exact inner
        · exact .nil
      generalize c.kind = k at like ⊢
      generalize c'.kind = k' at like ⊢
      cases like with
      | column name => exact .cons rfl .nil
      | label name =>
        cases name with
        | some name => exact .cons rfl .nil
        | none => exact other
      | _ => exact other
    | _ => exact .nil

theorem declaredColumns (h : Simulation R S T) (hab : R a b) :
    Forall₂ (fun p q => R p.1 q.1 ∧ p.2.1 = q.2.1) a.declaredColumns b.declaredColumns := by
  induction a using Node.induct generalizing b with
  | step a ih =>
    have columns := h.exportedColumns hab
    have like := h.likeAll hab
    have other : Forall₂ (fun p q : Node × ColumnShape => R p.1 q.1 ∧ p.2.1 = q.2.1)
        (if a.isFromClause then a.exportedColumns.map fun column => (a, column) else [])
        (if b.isFromClause then b.exportedColumns.map fun column => (b, column) else []) := by
      rw [like.isFromClause]
      split
      · rw [List.forall₂_map_left_iff, List.forall₂_map_right_iff]
        exact columns.imp fun _ _ hname => ⟨hab, hname⟩
      · exact .nil
    rw [Node.declaredColumns, Node.declaredColumns]
    rcases a with ⟨i, k, type, annotations, diagnostics⟩
    rcases b with ⟨i', k', type', annotations', diagnostics'⟩
    cases like.kind with
    | join _ hl hr _ =>
      exact List.rel_append (ih _ (by simp [children, Kind.children]) hl)
        (ih _ (by simp [children, Kind.children]) hr)
    | _ => exact other

theorem sourceName? (h : Simulation R S T) (d : Dialect) (hab : R a b) :
    Option.Rel (Like R) (Layout.sourceName? d a) (Layout.sourceName? d b) := by
  have anonymous : a.isNameless → Like R (.piece (.anonymous a)) (.piece (.anonymous b)) :=
    fun ha => .piece (.anonymous hab ha)
  obtain ⟨kind, -⟩ := h.like hab
  unfold Layout.sourceName?
  rcases a with ⟨i, k, type, annotations, diagnostics⟩
  rcases b with ⟨i', k', type', annotations', diagnostics'⟩
  cases kind with
  | table t =>
    rcases t with ⟨name, _ | schema, columns⟩
    · exact .some (.text _)
    · exact .some (.text _)
  | «alias» name | subquery name =>
    cases name with
    | some name => exact .some (.text _)
    | none => exact .some (anonymous rfl)
  | _ => exact .none

theorem sourceName (h : Simulation R S T) (d : Dialect) (hab : R a b) :
    Like R (Layout.sourceName d a) (Layout.sourceName d b) :=
  .optional (h.sourceName? d hab) fun _ _ => id

theorem column (h : Simulation R S T) (d : Dialect) (name : String) {source source' : Option Node}
    (hs : Option.Rel R source source') (isLiteral : Bool) :
    Like R (Layout.column d name source isLiteral) (Layout.column d name source' isLiteral) := by
  unfold Layout.column
  refine .ite _ (.text name) ?_
  have prefixed : Option.Rel (Like R) (source.bind (Layout.sourceName? d))
      (source'.bind (Layout.sourceName? d)) := by
    cases hs with
    | none => exact .none
    | some hs => exact h.sourceName? d hs
  exact (Like.optional prefixed fun _ _ hl => hl.append (.text ".")).append (.text _)

theorem labelName (h : Simulation R S T) (d : Dialect) (hab : R a b) {name : Option String}
    {c : Node} (ha : a.kind = .label name c) :
    Like R (Layout.labelName d a) (Layout.labelName d b) := by
  have nameless : a.isNameless = name.isNone := by rw [isNameless, ha]
  obtain ⟨kind, -⟩ := h.like hab
  unfold Layout.labelName
  rw [ha] at kind ⊢
  generalize b.kind = k at kind ⊢
  cases kind with
  | label =>
    cases name with
    | some name => exact .text _
    | none => exact .piece (.anonymous hab nameless)

theorem allColumns (h : Simulation R S T) (d : Dialect) (hab : R a b) :
    Like R (Layout.allColumns d a) (Layout.allColumns d b) := by
  have columns := h.declaredColumns hab
  have name := h.sourceName? d hab
  unfold Layout.allColumns
  generalize a.declaredColumns = as at columns ⊢
  generalize b.declaredColumns = bs at columns ⊢
  cases columns with
  | nil =>
    generalize Layout.sourceName? d a = x at name ⊢
    generalize Layout.sourceName? d b = y at name ⊢
    cases name with
    | none => exact .text "*"
    | some hl => exact hl.append (.text ".*")
  | @cons p q as bs hpq columns =>
    refine .separated ", " ?_
    rw [List.forall₂_map_left_iff, List.forall₂_map_right_iff]
    refine List.Forall₂.imp (fun p q hpq => ?_) (List.Forall₂.cons hpq columns)
    rcases p with ⟨source, name, type⟩
    rcases q with ⟨source', name', type'⟩
    obtain ⟨hs, rfl⟩ := hpq
    exact h.column d name (.some hs) false

/-- A label is one of the columns of the innermost statement on both sides, or on neither. -/
theorem isInScope (h : Simulation R S T) (hf : Forall₂ (Frames R S T) frames frames') (hab : R a b)
    (ha : a.isTracked) : Layout.isInScope frames a = Layout.isInScope frames' b := by
  cases hf with
  | nil => rfl
  | @cons f g _ _ hfg _ =>
    have columns := hfg.columns
    show (f.columns.any (·.isSame a)) = (g.columns.any (·.isSame b))
    generalize f.columns = cs at columns
    generalize g.columns = cs' at columns
    induction columns with
    | nil => rfl
    | @cons c c' _ _ hcc _ ih =>
      have same : c.isSame a = c'.isSame b := by
        rw [Bool.eq_iff_iff, isSame, isSame, beq_iff_eq, beq_iff_eq, eq_comm,
          h.tracked hab hcc ha, eq_comm]
      rw [List.any_cons, List.any_cons, same, ih]

theorem findSome?_rel {α β γ δ : Type} {P : α → β → Prop} {Q : γ → δ → Prop} {xs : List α}
    {ys : List β} {f : α → Option γ} {g : β → Option δ} (h : Forall₂ P xs ys)
    (hfg : ∀ x y, P x y → Option.Rel Q (f x) (g y)) :
    Option.Rel Q (xs.findSome? f) (ys.findSome? g) := by
  induction h with
  | nil => exact .none
  | @cons x y _ _ hxy _ ih =>
    have first := hfg x y hxy
    rw [List.findSome?_cons, List.findSome?_cons]
    generalize f x = u at first ⊢
    generalize g y = v at first ⊢
    cases first with
    | none => exact ih
    | some hq => exact .some hq

theorem named? (h : Simulation R S T) (d : Dialect) (name : String) (hab : R a b) :
    Option.Rel (Like R) (Layout.named? d name a) (Layout.named? d name b) := by
  obtain ⟨kind, -⟩ := h.likeAll hab
  unfold Layout.named?
  generalize a.kind = k at kind ⊢
  generalize b.kind = k' at kind ⊢
  cases kind with
  | label label =>
    cases label with
    | none => exact .none
    | some label =>
      dsimp only
      split
      · exact .some (.text _)
      · exact .none
  | column column isLiteral hs =>
    dsimp only
    split
    · exact .some (h.column d column hs isLiteral)
    · exact .none
  | _ => exact .none

theorem textualLabel (h : Simulation R S T) (d : Dialect)
    (hf : Forall₂ (Frames R S T) frames frames') (name : String) :
    Like R (Layout.textualLabel d frames name) (Layout.textualLabel d frames' name) := by
  have columns : Forall₂ R ((frames.head?.map Frame.columns).getD [])
      ((frames'.head?.map Frame.columns).getD []) := by
    cases hf with
    | nil => exact .nil
    | cons hfg _ => exact hfg.columns
  have found := findSome?_rel columns fun _ _ hcc => h.named? d name hcc
  rw [Layout.textualLabel_eq, Layout.textualLabel_eq]
  generalize List.findSome? _ _ = x at found ⊢
  generalize List.findSome? _ _ = y at found ⊢
  cases found with
  | none => exact .fails _
  | some hl => exact hl

end Simulation

end SqlAlgebra
