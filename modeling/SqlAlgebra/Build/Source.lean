import SqlAlgebra.Tree.Build
import SqlAlgebra.Tree.RowShape

/-!
# Row sources

Columns of row sources, and the row sources that are made from others: aliases, subqueries, the SELECT
of everything that a FROM element has.
-/

namespace SqlAlgebra

/-- A SELECT of nothing yet. -/
def Select.empty : Select Node := ⟨[], [], none, [], none, [], none, none, false, true⟩

namespace Node

/-- A column bound to a FROM element. -/
def boundColumn (source : Node) (name : String) (type : SqlType) : Build Node :=
  Build.typed (.column name (some source) false) type

/-- The column of a row source that has a name. -/
def column (n : Node) (name : String) : Build Node :=
  match n.findColumn name with
  | .ok (source, type) => source.boundColumn name type
  | .error fault => Build.fail fault

/-- Every column that a row source declares. -/
def columns (n : Node) : Build (List Node) :=
  n.declaredColumns.mapM fun (source, name, type) => source.boundColumn name type

/-- The SELECT of all that a FROM element has. -/
def selectAll (n : Node) : Build Node :=
  Build.untyped (.select { Select.empty with columns := [n], froms := [n] })

/-- `selectAll`, for FROM elements only. -/
def select (n : Node) : Build Node :=
  if n.isFromClause then n.selectAll else Build.fail (.fromRequired "select" n.repr)

def subquery (n : Node) (name : Option String) : Build Node :=
  if n.isSelectStatement then Build.untyped (.subquery n name)
  else Build.fail (.selectRequired "subquery" n.repr)

/-- Another name for a row source.  An alias or subquery is renamed, not wrapped, and a join is first
made a SELECT of all that it has. -/
def aliased (n : Node) (name : Option String) : Build Node :=
  match n.kind with
  | .table _ => Build.untyped (.alias n name)
  | .alias element _ => Build.untyped (.alias element name)
  | .subquery element _ => Build.untyped (.subquery element name)
  | .join _ => do
    let all ← n.selectAll
    Build.untyped (.subquery all name)
  | _ =>
    if n.isSelectStatement then Build.untyped (.subquery n name)
    else Build.fail (.notAliasable n.repr)

/-- A SELECT used as a single value. -/
def scalarSubquery (n : Node) : Build Node :=
  if n.isSelectStatement then Build.typed (.scalarSubquery n) n.firstColumnType
  else Build.fail (.selectRequired "scalar_subquery" n.repr)

/-- The whole row of a FROM element as a column expression. -/
def tableValued (n : Node) : Build Node :=
  if n.isFromClause then Build.untyped (.tableValued n)
  else Build.fail (.fromRequired "table_valued" n.repr)

/-- A label that is named when it is rendered. -/
def anonymousLabel (n : Node) : Build Node := Build.typed (.label none n) n.type

/-- The SELECT behind a FROM element: the one that an alias or subquery wraps, and otherwise a SELECT
of all that the element has. -/
def selectBehind (n : Node) : Build Node :=
  match n.kind with
  | .alias element _ | .subquery element _ =>
    if element.isSelectStatement then pure element else n.select
  | _ => n.select

end Node

end SqlAlgebra
