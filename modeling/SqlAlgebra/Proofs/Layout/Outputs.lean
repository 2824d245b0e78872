import SqlAlgebra.Build.Source
import SqlAlgebra.Compiler
import SqlAlgebra.Dialect.Database
import SqlAlgebra.Proofs.Tree.Heap

/-!
# All columns of a FROM element

A FROM element in a columns clause stands for all of its columns.  They are written one by one, or as
a star if the row shape of the element shows none.  What is written is all of the columns unless the
row shape shows some of them and not others: then those that it does not show are left out.
-/

namespace SqlAlgebra

/-- A column of the rows that a row source delivers. -/
inductive Output where
  | named (name : String)
  /-- A column that is SQL text.  The database names it. -/
  | literal (sql : String)
  /-- An item without a name, or with one that is made up when it is rendered. -/
  | unnamed
  /-- All columns of a FROM list, which is what `*` stands for. -/
  | star
  /-- The columns of a source that does not declare any. -/
  | undeclared
deriving DecidableEq

namespace Output

/-- The name under which the row shape has a column, if it has it at all. -/
def shown? : Output → Option String
  | .named name => some name
  | .literal sql => some sql
  | .star => some "*"
  | .unnamed | .undeclared => none

/-- The name that a column has in the rows, where `derived` tells how the database names SQL text. -/
def name? (derived : String → Option String) : Output → Option String
  | .named name => some name
  | .literal sql => derived sql
  | .unnamed | .star | .undeclared => none

end Output

namespace Node

/-- The columns that columns of a source are, if it declares any. -/
def declaredOutputs (columns : List ColumnShape) : List Output :=
  if columns.isEmpty then [.undeclared] else columns.map fun column => .named column.1

/-- The columns of the rows that a row source delivers, in order.  Each item of a SELECT is one of
them, but for a FROM element, which is all of its own. -/
def rowOutputs (n : Node) : List Output :=
  match _h : n.kind with
  | .table t => declaredOutputs t.columns
  | .alias element _ => rowOutputs element
  | .subquery element _ => rowOutputs element
  | .join j => rowOutputs j.left ++ rowOutputs j.right
  | .textualSelect _ columns => declaredOutputs columns
  | .compound _ (first :: _) => rowOutputs first
  | .select s => s.columns.flatMap fun c =>
    match c.kind with
    | .column name _ isLiteral =>
      if isLiteral then (if name = "*" then [.star] else [.literal name]) else [.named name]
    | .label (some name) _ => [.named name]
    | _ => if c.isFromClause then rowOutputs c else [.unnamed]
  | _ => [.undeclared]
termination_by sizeOf n
decreasing_by all_goals exact sizeOf_child (by simp [children, Kind.children, Select.children, *])

/-- The columns of a FROM element, each with the element by whose name it is reached: those of the
left side of a join, and then those of the right side. -/
def outputs (n : Node) : List (Node × Output) :=
  match _h : n.kind with
  | .join j => outputs j.left ++ outputs j.right
  | _ => if n.isFromClause then n.rowOutputs.map fun output => (n, output) else [(n, .undeclared)]
termination_by sizeOf n
decreasing_by all_goals exact sizeOf_child (by simp [children, Kind.children, *])

variable {n : Node}

theorem filterMap_declaredOutputs (columns : List ColumnShape) :
    (declaredOutputs columns).filterMap Output.shown? = columns.map Prod.fst := by
  cases columns with
  | nil => rfl
  | cons column rest =>
    show ((column :: rest).map fun column => Output.named column.1).filterMap Output.shown? = _
    rw [List.filterMap_map]
    exact congrFun List.filterMap_eq_map (column :: rest)

/-- The row shape has the columns that are shown. -/
theorem exportedColumns_eq (n : Node) :
    n.exportedColumns.map Prod.fst = n.rowOutputs.filterMap Output.shown? := by
  induction n using Node.induct with
  | step n ih =>
    have below {c : Node} (hc : c ∈ n.kind.children) :
        c.exportedColumns.map Prod.fst = c.rowOutputs.filterMap Output.shown? := ih c hc
    rcases n with ⟨i, kind, type, annotations, diagnostics⟩
    rw [exportedColumns, rowOutputs]
    cases kind with
    | table t => exact (filterMap_declaredOutputs t.columns).symm
    | textualSelect sql columns => exact (filterMap_declaredOutputs columns).symm
    | «alias» element name => exact below List.mem_cons_self
    | subquery element name => exact below List.mem_cons_self
    | join j =>
      dsimp only
      rw [List.map_append, List.filterMap_append, below List.mem_cons_self,
        below (List.mem_cons_of_mem _ List.mem_cons_self)]
    | compound op selects =>
      cases selects with
      | nil => rfl
      | cons first rest => exact below List.mem_cons_self
    | select s =>
      dsimp only
      rw [List.map_flatMap, List.filterMap_flatMap]
      refine List.flatMap_congr fun c hc => ?_
      have inside : c ∈ (Kind.select s).children := by
        simp [Kind.children, Select.children, hc]
      have rows : c.exportedColumns.map Prod.fst = c.rowOutputs.filterMap Output.shown? := below inside
      rcases c with ⟨i, kind, type, annotations, diagnostics⟩
      cases kind with
      | column name source isLiteral =>
        cases isLiteral with
        | false => rfl
        | true =>
          by_cases same : name = "*"
          · subst same
            rfl
          · show [name] = (if name = "*" then [Output.star] else [.literal name]).filterMap Output.shown?
            rw [if_neg same]
            rfl
      | label name element => cases name <;> rfl
      | table t => exact rows
      | «alias» element name => exact rows
      | subquery element name => exact rows
      | join j => exact rows
      | _ => rfl
    | _ => rfl

/-- The declared columns of a FROM element are those of its columns that are shown. -/
theorem declaredColumns_eq (n : Node) : n.declaredColumns.map (fun column => (column.1, column.2.1)) =
    n.outputs.filterMap fun output => output.2.shown?.map (output.1, ·) := by
  induction n using Node.induct with
  | step n ih =>
    have element : (n.exportedColumns.map fun column => (n, column)).map
          (fun column => (column.1, column.2.1)) =
        (n.rowOutputs.map fun output => (n, output)).filterMap
          fun output => output.2.shown?.map (output.1, ·) := by
      have names := congrArg (List.map fun name => (n, name)) (exportedColumns_eq n)
      rw [List.map_map, List.map_filterMap] at names
      rw [List.map_map, List.filterMap_map]
      exact names
    have below {c : Node} (hc : c ∈ n.kind.children) := ih c hc
    rcases n with ⟨i, kind, type, annotations, diagnostics⟩
    rw [declaredColumns, outputs]
    cases kind with
    | join j =>
      dsimp only
      rw [List.map_append, List.filterMap_append, below List.mem_cons_self,
        below (List.mem_cons_of_mem _ List.mem_cons_self)]
    | table t => exact element
    | «alias» source name => exact element
    | subquery source name => exact element
    | _ => rfl

end Node

/-! ## What a columns clause has for a FROM element -/

/-- A column of a FROM element by its name, or all of them. -/
inductive Selected where
  | column (source : Node) (name : String)
  | all (source : Node)

namespace Selected

def layout (d : Dialect) : Selected → Layout
  | .column source name => Layout.column d name (some source) false
  | .all source =>
    match Layout.sourceName? d source with
    | some name => name ++ Layout.text ".*"
    | none => Layout.text "*"

end Selected

/-- Whether a list of columns is, in order, the columns of some elements: each is a column by the name
that it has in the rows, or stands for all columns of an element at once. -/
inductive Covers (derived : String → Option String) : List Selected → List (Node × Output) → Prop
  | nil : Covers derived [] []
  | column {source : Node} {name : String} {output : Output} {list : List Selected}
      {outputs : List (Node × Output)} :
      output.name? derived = some name → Covers derived list outputs →
        Covers derived (.column source name :: list) ((source, output) :: outputs)
  | all {source : Node} {list : List Selected} {outputs : List (Node × Output)} :
      Covers derived list outputs → Covers derived (.all source :: list) (source.outputs ++ outputs)

namespace Node

/-- What stands in a columns clause for a FROM element: the columns that it declares, or a star if it
declares none. -/
def selected (n : Node) : List Selected :=
  match n.declaredColumns with
  | [] => [.all n]
  | columns => columns.map fun column => .column column.1 column.2.1

variable {n : Node} {d : Dialect} {frames : List Frame}

theorem columnItem_of_isFromClause (element : n.isFromClause = true) :
    Layout.columnItem d frames n = Layout.separated ", " (n.selected.map (Selected.layout d)) := by
  have item : Layout.columnItem d frames n = Layout.allColumns d n := by
    rcases n with ⟨i, kind, type, annotations, diagnostics⟩
    rw [Layout.columnItem]
    cases kind <;> first | rfl | cases element
  rw [item, Layout.allColumns, selected]
  cases n.declaredColumns with
  | nil => rfl
  | cons column rest =>
    dsimp only
    rw [List.map_map]
    rfl

end Node

namespace Covers

variable {derived : String → Option String} {outputs : List (Node × Output)}

/-- Columns by name are matched one to one. -/
theorem forall₂_of_columns {columns : List (Node × String)}
    (h : Covers derived (columns.map fun column => .column column.1 column.2) outputs) :
    List.Forall₂ (fun column output => column.1 = output.1 ∧ output.2.name? derived = some column.2)
      columns outputs := by
  induction columns generalizing outputs with
  | nil =>
    cases h
    exact .nil
  | cons column rest ih =>
    cases h with
    | column named others => exact .cons ⟨rfl, named⟩ (ih others)

/-- The columns that are shown are all columns if each one is, and under the name that it has. -/
theorem shown_iff : Covers derived
      ((outputs.filterMap fun output => output.2.shown?.map (output.1, ·)).map
        fun column => .column column.1 column.2) outputs ↔
    ∀ output ∈ outputs, ∃ name, output.2.shown? = some name ∧ output.2.name? derived = some name := by
  induction outputs with
  | nil =>
    constructor
    · intro _ output mem
      cases mem
    · intro _
      exact .nil
  | cons first rest ih =>
    rcases first with ⟨source, output⟩
    cases shown : output.shown? with
    | none =>
      constructor
      · intro h
        have paired := h.forall₂_of_columns.length_eq
        rw [List.filterMap_cons, shown, List.length_cons] at paired
        have short := List.length_filterMap_le
          (fun output : Node × Output => output.2.shown?.map (output.1, ·)) rest
        dsimp only [Option.map_none] at paired
        omega
      · intro h
        obtain ⟨name, none, -⟩ := h (source, output) List.mem_cons_self
        rw [shown] at none
        cases none
    | some name =>
      rw [List.filterMap_cons, shown]
      simp only [Option.map_some, List.map_cons, List.forall_mem_cons, shown, Option.some.injEq,
        exists_eq_left']
      rw [← ih]
      constructor
      · intro h
        cases h with
        | column named others => exact ⟨named, others⟩
      · intro h
        exact .column h.1 h.2

end Covers

namespace Node

variable {n : Node} {d : Dialect} {derived : String → Option String}

theorem covers_selected_iff : Covers derived n.selected n.outputs ↔
    (∀ output ∈ n.outputs, output.2.shown? = none) ∨
      ∀ output ∈ n.outputs, ∃ name,
        output.2.shown? = some name ∧ output.2.name? derived = some name := by
  have shape := declaredColumns_eq n
  by_cases none : n.declaredColumns = []
  · rw [none, List.map_nil] at shape
    have hidden : ∀ output ∈ n.outputs, output.2.shown? = Option.none := by
      intro output mem
      have := List.filterMap_eq_nil_iff.1 shape.symm output mem
      rwa [Option.map_eq_none_iff] at this
    have star : n.selected = [.all n] := by rw [selected, none]
    have all : Covers derived [.all n] (n.outputs ++ []) := .all .nil
    rw [List.append_nil] at all
    rw [star]
    exact iff_of_true all (.inl hidden)
  · have columns : n.selected =
        (n.declaredColumns.map fun column => (column.1, column.2.1)).map
          fun column => .column column.1 column.2 := by
      rw [List.map_map, selected]
      cases declared : n.declaredColumns with
      | nil => exact absurd declared none
      | cons column rest => rfl
    have some : ¬ ∀ output ∈ n.outputs, output.2.shown? = Option.none := by
      intro hidden
      apply none
      apply List.map_eq_nil_iff.1
      rw [shape, List.filterMap_eq_nil_iff]
      intro output mem
      rw [hidden output mem, Option.map_none]
    rw [columns, shape, Covers.shown_iff, or_iff_right some]

theorem rowOutputs_of_columns {m : Node} {s : Select Node} (kind : m.kind = .select s)
    (columns : s.columns = [n]) (element : n.isFromClause = true) : m.rowOutputs = n.rowOutputs := by
  rcases m with ⟨i, k, type, annotations, diagnostics⟩
  cases kind
  rw [rowOutputs]
  dsimp only
  rw [columns, List.flatMap_singleton]
  rcases n with ⟨i, kind, type, annotations, diagnostics⟩
  cases kind <;> first | rfl | cases element

theorem outputs_of_subquery {a m : Node} {name : Option String} (kind : a.kind = .subquery m name) :
    a.outputs = m.rowOutputs.map (a, ·) := by
  rcases a with ⟨i, k, type, annotations, diagnostics⟩
  cases kind
  rw [outputs]
  show (rowOutputs _).map _ = _
  rw [rowOutputs]

/-- A FROM element in a columns clause is written as a list of its columns or as a star.  That is all
of its columns in order, for every name that the database may give to SQL text, exactly if its row
shape shows none of them, or all of them under the names that they have in the rows.  A SELECT of
everything has the element for its columns clause, and so has the one behind an alias of a join. -/
theorem columnItem_and_covers_iff (element : n.isFromClause = true) (d : Dialect)
    (frames : List Frame) (derived : String → Option String) :
    Layout.columnItem d frames n = Layout.separated ", " (n.selected.map (Selected.layout d)) ∧
      (Covers derived n.selected n.outputs ↔
        (∀ output ∈ n.outputs, output.2.shown? = none) ∨
          ∀ output ∈ n.outputs, ∃ name,
            output.2.shown? = some name ∧ output.2.name? derived = some name) ∧
      ∀ i, ∃ m, n.selectAll i = .ok (m, i + 1) ∧ (∃ s, m.kind = .select s ∧ s.columns = [n]) ∧
        m.rowOutputs = n.rowOutputs ∧
        ∀ j name, n.kind = .join j → ∃ a, n.aliased name i = .ok (a, i + 2) ∧
          a.kind = .subquery m name ∧ a.outputs = n.rowOutputs.map (a, ·) := by
  refine ⟨columnItem_of_isFromClause element, covers_selected_iff, fun i => ?_⟩
  let m : Node :=
    ⟨i, .select { Select.empty with columns := [n], froms := [n] }, .null, [], []⟩
  have rows : m.rowOutputs = n.rowOutputs := rowOutputs_of_columns rfl rfl element
  refine ⟨m, rfl, ⟨_, rfl, rfl⟩, rows, fun j name join => ?_⟩
  refine ⟨⟨i + 1, .subquery m name, .null, [], []⟩, ?_, rfl, ?_⟩
  · rw [aliased, join]
    rfl
  · rw [outputs_of_subquery rfl, rows]

/-! ### A join of a table that declares its columns and one that does not -/

section Sample

def sampleOpen : Node := ⟨0, .table ⟨"t", none, []⟩, .null, [], []⟩

def sampleDeclared : Node := ⟨1, .table ⟨"u", none, [("a", .integer)]⟩, .null, [], []⟩

/-- Two tables joined, whatever their rows are. -/
def sampleJoining (left right : Node) : Node :=
  ⟨3, .join ⟨left, right, ⟨2, .truth true, .boolean, [], []⟩, .inner⟩, .null, [], []⟩

/-- The join of a table with itself is written with all columns of both sides. -/
theorem covers_sampleJoining :
    let n := sampleJoining sampleDeclared sampleDeclared
    n.isFromClause = true ∧
      Layout.columnItem .postgres [] n =
        Layout.separated ", " (n.selected.map (Selected.layout .postgres)) ∧
      ∀ derived, Covers derived n.selected n.outputs := by
  intro n
  have shown : ∀ output ∈ n.outputs, output.2 = .named "a" := by
    intro output mem
    simp [n, outputs, rowOutputs, sampleJoining, sampleDeclared, isFromClause, declaredOutputs] at mem
    rw [mem]
  have covers (derived : String → Option String) :=
    columnItem_and_covers_iff (n := n) rfl .postgres [] derived
  refine ⟨rfl, (covers fun _ => none).1, fun derived => (covers derived).2.1.2 (.inr ?_)⟩
  intro output mem
  rw [shown output mem]
  exact ⟨"a", rfl, rfl⟩

/-- Beside a table that declares its columns, a table that does not is left out of the SELECT of
everything that their join has. -/
theorem not_covers_sampleJoining :
    let n := sampleJoining sampleOpen sampleDeclared
    n.isFromClause = true ∧ (∀ derived, ¬ Covers derived n.selected n.outputs) ∧
      ∃ m, n.selectAll 4 = .ok (m, 5) ∧
        ((Compiler.new {}).compile (fun _ _ => pure .nothing) m .postgres {} 5).1.toOption.map
          (fun out => out.1.sql) = some "SELECT u.a FROM t JOIN u ON true" := by
  intro n
  have rows : n.outputs = [(sampleOpen, .undeclared), (sampleDeclared, .named "a")] := by
    simp [n, outputs, rowOutputs, sampleJoining, sampleOpen, sampleDeclared, isFromClause,
      declaredOutputs]
  refine ⟨rfl, fun derived covers => ?_, _, rfl, by decide +kernel⟩
  rw [covers_selected_iff, rows] at covers
  obtain hidden | shown := covers
  · have none := hidden (sampleDeclared, .named "a") (by simp)
    cases none
  · obtain ⟨name, some, -⟩ := shown (sampleOpen, .undeclared) (by simp)
    cases some

end Sample

end Node

end SqlAlgebra
