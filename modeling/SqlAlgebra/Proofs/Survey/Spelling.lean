import SqlAlgebra.Proofs.Survey.Coverage
import SqlAlgebra.Tree.RowShape

/-!
# The identifiers of a tree

The identifiers that the author of a tree wrote: the names, schemas and columns of tables, the names
of columns, of aliases and of labels, the keys of parameters, and the columns that an INSERT or an
UPDATE sets.  A survey takes down all of them and nothing else, and the columns that a FROM element
stands for in a columns clause are called by them.
-/

namespace SqlAlgebra.Node

variable {n x : Node} {ident : String}

/-- The identifiers that stand in a node itself. -/
def spelled (n : Node) : List String :=
  match n.kind with
  | .bind p => p.key.toList
  | .column name _ _ | .textualLabelReference name => [name]
  | .textualSelect _ columns => columns.map Prod.fst
  | .label name _ | .alias _ name | .subquery _ name => name.toList
  | .table t => t.name :: (t.schema.toList ++ t.columns.map Prod.fst)
  | .insert i => i.values.map Prod.fst ++ (i.source.toList.flatMap Prod.fst)
  | .update u => u.values.map Prod.fst
  | _ => []

/-- Whether an identifier stands anywhere in a tree. -/
def Spells (n : Node) (ident : String) : Prop := ∃ x, Occurs x n ∧ ident ∈ x.spelled

theorem Spells.of_occurs (h : x.Spells ident) (hx : Occurs x n) : n.Spells ident := by
  obtain ⟨y, hy, mem⟩ := h
  exact ⟨y, .trans hy hx, mem⟩

theorem mem_spelled_iff : ident ∈ n.spelled ↔ .name ident ∈ n.marks := by
  rcases n with ⟨i, kind, type, annotations, diagnostics⟩
  cases kind
  case bind p => rcases p with ⟨_ | key, _⟩ <;> simp [spelled, marks, Mark.identifier?]
  case label name _ | «alias» _ name | subquery _ name =>
    cases name <;> simp [spelled, marks, Mark.nameOrAnonymous]
  case table t =>
    rcases t with ⟨name, _ | schema, columns⟩ <;>
      simp [spelled, marks, Mark.identifier?, Mark.columnShapes]
  case insert i =>
    rcases i with ⟨target, values, _ | source, returning⟩ <;>
      simp [spelled, marks, Mark.pairs, Mark.inserted, Mark.group, Mark.enclosed]
  all_goals
    simp [spelled, marks, Mark.columnShapes, Mark.option, Mark.group, Mark.pairs, Mark.enclosed,
      Mark.nullsOrder]

/-- The identifiers of a survey are those of its tree. -/
theorem mem_identifiers_iff_spells (coherent : n.IsCoherent) (bound : Nat) :
    ident ∈ (n.surveyed bound).identifiers ↔ n.Spells ident := by
  rw [mem_identifiers_iff coherent]
  exact exists_congr fun x => and_congr_right fun _ => mem_spelled_iff.symm

/-- The columns of a row source are called by identifiers of its tree. -/
theorem spells_of_mem_exportedColumns {column : ColumnShape} (h : column ∈ n.exportedColumns) :
    n.Spells column.1 := by
  induction n using Node.induct with
  | step n ih =>
    have itself (mem : column.1 ∈ n.spelled) : n.Spells column.1 := ⟨n, .root, mem⟩
    have child {c : Node} (hc : c ∈ n.children) (hs : c.Spells column.1) : n.Spells column.1 :=
      hs.of_occurs (.deeper hc .root)
    rw [exportedColumns] at h
    split at h
    · next t kind =>
      refine itself ?_
      rw [spelled, kind]
      exact List.mem_cons_of_mem _ (List.mem_append_right _ (List.mem_map_of_mem h))
    · next element _ kind =>
      have hc : element ∈ n.children := by simp [children, Kind.children, kind]
      exact child hc (ih _ hc h)
    · next element _ kind =>
      have hc : element ∈ n.children := by simp [children, Kind.children, kind]
      exact child hc (ih _ hc h)
    · next j kind =>
      have hl : j.left ∈ n.children := by simp [children, Kind.children, kind]
      have hr : j.right ∈ n.children := by simp [children, Kind.children, kind]
      exact (List.mem_append.1 h).elim (fun h => child hl (ih _ hl h))
        fun h => child hr (ih _ hr h)
    · next columns kind =>
      refine itself ?_
      rw [spelled, kind]
      exact List.mem_map_of_mem h
    · next first _ kind =>
      have hc : first ∈ n.children := by simp [children, Kind.children, kind]
      exact child hc (ih _ hc h)
    · next s kind =>
      obtain ⟨c, mem, h⟩ := List.mem_flatMap.1 h
      have hc : c ∈ n.children := by simp [children, Kind.children, Select.children, kind, mem]
      refine child hc ?_
      split at h
      · next kind =>
        obtain rfl := List.mem_singleton.1 h
        exact ⟨c, .root, by rw [spelled, kind]; exact List.mem_singleton_self _⟩
      · next kind =>
        obtain rfl := List.mem_singleton.1 h
        exact ⟨c, .root, by rw [spelled, kind]; exact List.mem_singleton_self _⟩
      · split at h
        · exact ih c hc h
        · cases h
    · cases h

/-- The columns that a FROM element stands for are called by identifiers of its tree. -/
theorem spells_of_mem_declaredColumns {source : Node} {column : ColumnShape}
    (h : (source, column) ∈ n.declaredColumns) : n.Spells column.1 := by
  induction n using Node.induct with
  | step n ih =>
    rw [declaredColumns] at h
    split at h
    · next j kind =>
      have hl : j.left ∈ n.children := by simp [children, Kind.children, kind]
      have hr : j.right ∈ n.children := by simp [children, Kind.children, kind]
      obtain h | h := List.mem_append.1 h
      · exact (ih _ hl h).of_occurs (.deeper hl .root)
      · exact (ih _ hr h).of_occurs (.deeper hr .root)
    · split at h
      · obtain ⟨exported, mem, same⟩ := List.mem_map.1 h
        cases same
        exact spells_of_mem_exportedColumns mem
      · cases h

end SqlAlgebra.Node
