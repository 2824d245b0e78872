/-!
# Roles

A role says what a place in a statement takes: a FROM clause, a column expression, a string key.  This
module gives the name of each role in messages and the general rules that tell the roles apart; what
nodes a role takes as they are, and how it converts the others, is said elsewhere.
-/

namespace SqlAlgebra

/-- What is done where a role has to convert a value that was not spelled out. -/
inductive ImplicitPolicy where
  /-- Convert and leave a diagnostic. -/
  | warn
  /-- Refuse. -/
  | error
  /-- Convert without a diagnostic. -/
  | silent
deriving DecidableEq

inductive Role where
  | expressionElement
  | binaryElement
  | inElement
  | onClause
  | whereHaving
  | statementOption
  | columnArgument
  | columnArgumentOrKey
  | strAsPlainColumn
  | byOf
  | orderBy
  | groupBy
  | dmlColumn
  | constExpr
  | truncatedLabel
  | ddlExpression
  | ddlConstraintColumn
  | ddlReferredColumn
  | limitOffset
  | labeledColumnExpr
  | columnsClause
  | returnsRows
  | statement
  | selectStatement
  | joinTarget
  | fromClause
  | strictFromClause
  | anonymizedFromClause
  | dmlTable
  | dmlSelect
  | compoundElement
  | literalValue
deriving DecidableEq

namespace Role

def all : List Role :=
  [.expressionElement, .binaryElement, .inElement, .onClause, .whereHaving, .statementOption,
    .columnArgument, .columnArgumentOrKey, .strAsPlainColumn, .byOf, .orderBy, .groupBy, .dmlColumn,
    .constExpr, .truncatedLabel, .ddlExpression, .ddlConstraintColumn, .ddlReferredColumn,
    .limitOffset, .labeledColumnExpr, .columnsClause, .returnsRows, .statement, .selectStatement,
    .joinTarget, .fromClause, .strictFromClause, .anonymizedFromClause, .dmlTable, .dmlSelect,
    .compoundElement, .literalValue]

/-- The name of a role in messages. -/
def name : Role → String
  | .expressionElement => "SQL expression element"
  | .binaryElement => "SQL expression element or literal value"
  | .inElement => "IN expression list, SELECT construct, or bound parameter object"
  | .onClause => "ON clause, typically a SQL expression"
  | .whereHaving => "SQL expression for WHERE/HAVING role"
  | .statementOption => "statement sub-expression element"
  | .columnArgument => "Column expression"
  | .columnArgumentOrKey => "Column expression or string key"
  | .strAsPlainColumn => "Column expression or string key"
  | .byOf => "GROUP BY / OF / etc. expression"
  | .orderBy => "ORDER BY expression"
  | .groupBy => "GROUP BY expression"
  | .dmlColumn => "SET/VALUES column expression or string key"
  | .constExpr => "Constant True/False/None expression"
  | .truncatedLabel => "String SQL identifier"
  | .ddlExpression => "SQL expression for DDL constraint"
  | .ddlConstraintColumn => "String column name or column expression for DDL constraint"
  | .ddlReferredColumn => "String column name or Column object for DDL foreign key constraint"
  | .limitOffset => "LIMIT / OFFSET expression"
  | .labeledColumnExpr => "Labeled column expression"
  | .columnsClause => "Column expression or FROM clause"
  | .returnsRows =>
    "Row returning expression such as a SELECT, a FROM clause, or an INSERT/UPDATE/DELETE with RETURNING"
  | .statement => "Executable SQL or text() construct"
  | .selectStatement => "SELECT construct or equivalent text() construct"
  | .joinTarget => "Join target, typically a FROM expression"
  | .fromClause | .strictFromClause => "FROM expression, such as a Table or alias() object"
  | .anonymizedFromClause => "FROM expression that can be safely anonymized"
  | .dmlTable => "subject table for an INSERT, UPDATE or DELETE"
  | .dmlSelect => "SELECT statement or equivalent textual object"
  | .compoundElement => "SELECT construct for inclusion in a UNION or other set construct"
  | .literalValue => "Literal value"

/-- Whether the role takes a deferred expression in place of a node. -/
def allowsLambda : Role → Bool
  | .columnsClause | .onClause | .whereHaving | .orderBy | .groupBy | .statement => true
  | _ => false

/-- Whether the role looks into an inspectable handle for the element behind it. -/
def usesInspection : Role → Bool
  | .columnsClause | .groupBy | .joinTarget | .fromClause | .strictFromClause
  | .anonymizedFromClause | .dmlTable => true
  | _ => false

/-- Whether the role takes plain values only, and no node at all. -/
def isLiteralOnly : Role → Bool
  | .truncatedLabel | .literalValue => true
  | _ => false

/-- What the role does about implicit conversions unless it is told otherwise. -/
def defaultPolicy (_ : Role) : ImplicitPolicy := .warn

end Role

end SqlAlgebra
