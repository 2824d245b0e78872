import SqlAlgebra.Tree.Class

/-!
# What roles take

The nodes that a role takes as they are.  A node of another class has to be converted, or is refused.
-/

namespace SqlAlgebra.Role

/-- Whether a node already is what a role asks for. -/
def accepts (role : Role) (n : Node) : Bool :=
  if n.isDeferred then role.allowsLambda
  else
    match role with
    | .expressionElement | .binaryElement | .onClause | .whereHaving | .statementOption | .byOf
    | .orderBy | .groupBy | .ddlExpression | .ddlConstraintColumn => n.isColumnElement || n.isText
    | .columnArgument | .columnArgumentOrKey | .dmlColumn | .limitOffset => n.isColumnElement
    | .inElement =>
      n.isSelectStatement || n.isText ||
        (match n.kind with
          | .bind _ | .clauseList _ _ | .scalarSubquery _ => true
          | _ => false)
    | .strAsPlainColumn | .ddlReferredColumn =>
      match n.kind with
      | .column _ _ _ => true
      | _ => false
    | .constExpr =>
      match n.kind with
      | .null | .truth _ => true
      | _ => false
    | .truncatedLabel | .literalValue => false
    | .labeledColumnExpr =>
      match n.kind with
      | .label _ _ | .column _ _ _ => true
      | _ => false
    | .columnsClause => n.isColumnElement || n.isFromClause || n.isText
    | .returnsRows => n.isFromClause || n.isSelectStatement || n.isModification
    | .statement => n.isSelectStatement || n.isText || n.isModification
    | .selectStatement | .dmlSelect | .compoundElement => n.isSelectStatement
    | .joinTarget | .fromClause => n.isFromClause || n.isText
    | .strictFromClause | .anonymizedFromClause => n.isFromClause
    | .dmlTable =>
      match n.kind with
      | .table _ => true
      | _ => false

end SqlAlgebra.Role
