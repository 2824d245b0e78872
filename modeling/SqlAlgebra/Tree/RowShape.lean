import SqlAlgebra.Error
import SqlAlgebra.Tree.Class

/-!
# Row shapes

The columns of the rows that a row source delivers.  A table declared without columns is open: it has
every column that is asked of it, and so have its aliases.
-/

namespace SqlAlgebra.Node

/-- The columns that a node exports when it is used as a row source. -/
def exportedColumns (n : Node) : List ColumnShape :=
  match _h : n.kind with
  | .table t => t.columns
  | .alias element _ => exportedColumns element
  | .subquery element _ => exportedColumns element
  | .join j => exportedColumns j.left ++ exportedColumns j.right
  | .textualSelect _ columns => columns
  | .compound _ (first :: _) => exportedColumns first
  | .select s => s.columns.flatMap fun c =>
    match c.kind with
    | .column name _ _ => [(name, c.type)]
    | .label (some name) _ => [(name, c.type)]
    | _ => if c.isFromClause then exportedColumns c else []
  | _ => []
termination_by sizeOf n
decreasing_by all_goals exact sizeOf_child (by simp [children, Kind.children, Select.children, *])

/-- Whether a row source has every column that is asked of it. -/
def hasOpenColumns (n : Node) : Bool :=
  match _h : n.kind with
  | .table t => t.columns.isEmpty
  | .alias element _ => hasOpenColumns element
  | _ => false
termination_by sizeOf n
decreasing_by all_goals exact sizeOf_child (by simp [children, Kind.children, *])

/-- The type of a column of a row source, if the row source has a column of that name. -/
def columnType? (n : Node) (name : String) : Option SqlType :=
  match n.exportedColumns.find? fun column => column.1 == name with
  | some column => some column.2
  | none => if n.hasOpenColumns then some .null else none

/-- The type of the first column of the rows of a SELECT. -/
def firstColumnType (n : Node) : SqlType :=
  match _h : n.kind with
  | .select s =>
    match s.columns with
    | [] => .null
    | c :: _ =>
      if c.isFromClause then (c.exportedColumns.head?.map Prod.snd).getD .null else c.type
  | .compound _ (first :: _) => firstColumnType first
  | .textualSelect _ columns => (columns.head?.map Prod.snd).getD .null
  | _ => .null
termination_by sizeOf n
decreasing_by all_goals exact sizeOf_child (by simp [children, Kind.children, *])

/-- A column of a row source, as far as it can be told without an identity: the FROM element that the
column belongs to and its type.  A join offers the columns of its left side, then those of its right
side; what is said about a column that neither has is what the right side says. -/
def findColumn (n : Node) (name : String) : Except ConstructionFault (Node × SqlType) :=
  match _h : n.kind with
  | .join j =>
    match findColumn j.left name with
    | .ok found => .ok found
    | .error _ => findColumn j.right name
  | _ =>
    if n.isFromClause then
      match n.columnType? name with
      | some type => .ok (n, type)
      | none => .error (.noSuchColumn n.repr name)
    else .error (.noColumnCollection n.repr)
termination_by sizeOf n
decreasing_by all_goals exact sizeOf_child (by simp [children, Kind.children, *])

/-- The columns that a row source declares, each with the FROM element that it belongs to. -/
def declaredColumns (n : Node) : List (Node × ColumnShape) :=
  match _h : n.kind with
  | .join j => declaredColumns j.left ++ declaredColumns j.right
  | _ => if n.isFromClause then n.exportedColumns.map fun column => (n, column) else []
termination_by sizeOf n
decreasing_by all_goals exact sizeOf_child (by simp [children, Kind.children, *])

end SqlAlgebra.Node
