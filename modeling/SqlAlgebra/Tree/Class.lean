import SqlAlgebra.Text.Excerpt
import SqlAlgebra.Tree.Node
import SqlAlgebra.Value.Text

/-!
# Classes of nodes

Which nodes produce a value, which ones a row source, which ones are statements, and how a node stands
in a message.
-/

namespace SqlAlgebra.Node

/-- The name of the kind of a node in messages and keys. -/
def kindName (n : Node) : String :=
  match n.kind with
  | .null => "Null"
  | .truth value => if value then "True" else "False"
  | .bind _ => "BindParameter"
  | .column _ _ _ => "Column"
  | .text _ => "TextClause"
  | .textualSelect _ _ => "TextualSelect"
  | .unary _ _ => "UnaryExpression"
  | .binary _ _ _ => "BinaryExpression"
  | .clauseList _ _ => "ClauseList"
  | .grouping _ => "Grouping"
  | .function _ _ => "Function"
  | .cast _ _ => "Cast"
  | .label _ _ => "Label"
  | .labelReference _ => "LabelReference"
  | .textualLabelReference _ => "TextualLabelReference"
  | .ordering _ _ _ => "Ordering"
  | .table _ => "Table"
  | .alias _ _ => "Alias"
  | .subquery _ _ => "Subquery"
  | .scalarSubquery _ => "ScalarSubquery"
  | .tableValued _ => "TableValued"
  | .join _ => "Join"
  | .select _ => "Select"
  | .compound _ _ => "CompoundSelect"
  | .insert _ => "Insert"
  | .update _ => "Update"
  | .delete _ => "Delete"
  | .deferred _ _ => "Deferred"

/-- The expressions that produce a value. -/
def isColumnElement (n : Node) : Bool :=
  match n.kind with
  | .null | .truth _ | .bind _ | .column _ _ _ | .unary _ _ | .binary _ _ _ | .clauseList _ _
  | .grouping _ | .function _ _ | .cast _ _ | .label _ _ | .labelReference _
  | .textualLabelReference _ | .ordering _ _ _ | .scalarSubquery _ | .tableValued _ => true
  | _ => false

/-- The row sources that a FROM list names. -/
def isFromClause (n : Node) : Bool :=
  match n.kind with
  | .table _ | .alias _ _ | .subquery _ _ | .join _ => true
  | _ => false

/-- The statements that return rows: a SELECT, a compound of SELECTs, a textual SELECT. -/
def isSelectStatement (n : Node) : Bool :=
  match n.kind with
  | .select _ | .compound _ _ | .textualSelect _ _ => true
  | _ => false

/-- The statements that change rows. -/
def isModification (n : Node) : Bool :=
  match n.kind with
  | .insert _ | .update _ | .delete _ => true
  | _ => false

def isText (n : Node) : Bool :=
  match n.kind with
  | .text _ => true
  | _ => false

def isDeferred (n : Node) : Bool :=
  match n.kind with
  | .deferred _ _ => true
  | _ => false

/-- The aliases and subqueries, named or not. -/
def isAliased (n : Node) : Bool :=
  match n.kind with
  | .alias _ _ | .subquery _ _ => true
  | _ => false

/-- The name that a FROM element is referred to by, if it has a fixed one. -/
def fromName (n : Node) : Option String :=
  match n.kind with
  | .table t => some t.name
  | .alias _ name | .subquery _ name => name
  | _ => none

/-- How a node stands in a message. -/
def repr (n : Node) : String :=
  match n.kind with
  | .bind b =>
    match b.key with
    | some key => "BindParameter('" ++ key ++ "', " ++ b.value.describe ++ ")"
    | none => "BindParameter(" ++ b.value.describe ++ ")"
  | .column name source _ =>
    match source.bind fromName with
    | some table => "Column('" ++ name ++ "', table='" ++ table ++ "')"
    | none => "Column('" ++ name ++ "')"
  | .text sql => "TextClause('" ++ Text.excerpt 100 sql ++ "')"
  | .table t => "Table('" ++ t.name ++ "')"
  | .alias _ (some name) => "Alias('" ++ name ++ "')"
  | .subquery _ (some name) => "Subquery('" ++ name ++ "')"
  | .label (some name) _ => "Label('" ++ name ++ "')"
  | .function name _ => "Function('" ++ name ++ "')"
  | _ => "<" ++ n.kindName ++ " object>"

end SqlAlgebra.Node
