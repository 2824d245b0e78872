import SqlAlgebra.Build.Anonymous
import SqlAlgebra.Coercion.Literal

/-!
# Conversions of nodes

What a role does to a node that it takes, and how it converts what it does not take as it is.  A
conversion that the caller did not spell out is reported.
-/

namespace SqlAlgebra

def selectAsScalar : String :=
  "implicitly coercing SELECT object to scalar subquery; please use the .scalar_subquery() method to produce a scalar subquery."

def selectAsFrom : String :=
  "Implicit coercion of SELECT and textual SELECT constructs into FROM clauses is deprecated; please call .subquery() on any Core select or ORM Query object in order to produce a subquery object."

def fromAsSelect (kind : String) : String :=
  "Coercing " ++ kind ++
    " object into a select() for use in IN(); please pass a select() construct explicitly"

namespace Site

/-- What an IN expression makes of a node that it takes: a SELECT becomes a single value, a list of
clauses is put in parentheses, a parameter becomes an expanding one. -/
def membership (n : Node) : Coerce Coerced :=
  if n.isSelectStatement then .node <$> n.scalarSubquery
  else
    match n.kind with
    | .clauseList _ clauses =>
      if clauses.isEmpty then Build.fail .emptyIn
      else .node <$> Build.typed (.grouping n) n.type
    | .bind b =>
      if b.isExpanding then pure (.node n)
      else .node <$> Build.typed (.bind { b with isExpanding := true }) n.type
    | _ => pure (.node n)

/-- Whether a node of ORDER BY is a label or an ordering of one. -/
def isLabelled (n : Node) : Bool :=
  match n.kind with
  | .label _ _ => true
  | .ordering element _ _ =>
    match element.kind with
    | .label _ _ => true
    | _ => false
  | _ => false

/-- The last step for a node that the role takes. -/
def settle (site : Site) (given : Input) (n : Node) : Coerce Coerced :=
  match site.role with
  | .binaryElement =>
    let type := (site.args.left.map Node.type).getD .null
    match n.kind with
    | .bind _ =>
      if n.type.isNull && !type.isNull then .node <$> Build.retyped n type else pure (.node n)
    | _ => pure (.node n)
  | .inElement => membership n
  | .orderBy =>
    if isLabelled n then .node <$> Build.typed (.labelReference n) n.type else pure (.node n)
  | .dmlColumn =>
    if site.args.asKey then
      match n.kind with
      | .column name _ _ => pure (.key name)
      | .label (some name) _ => pure (.key name)
      | _ => throw (site.unexpected given (some (.node n)))
    else pure (.node n)
  | .ddlExpression | .ddlConstraintColumn | .ddlReferredColumn => .node <$> n.deepDeannotate
  | .fromClause | .strictFromClause =>
    if site.args.deannotate then .node <$> n.deannotate else pure (.node n)
  | .anonymizedFromClause => .node <$> n.anonymize site.args.flat site.args.aliasName
  | _ => pure (.node n)

/-- A SELECT, or a subquery of one, where a column expression is expected. -/
def scalar (site : Site) (given : Input) (resolved : Coerced) : Coerce Coerced :=
  match resolved with
  | .node n =>
    if n.isSelectStatement then do
      site.raise .deprecated selectAsScalar
      .node <$> n.scalarSubquery
    else
      match n.kind with
      | .subquery element _ => do
        site.raise .deprecated selectAsScalar
        .node <$> element.scalarSubquery
      | _ => throw (site.unexpected given (some resolved))
  | _ => throw (site.unexpected given (some resolved))

/-- A plain string where a column or its key is expected. -/
def givenKey (site : Site) (given : Input) (resolved : Coerced) : Coerce Coerced :=
  match given with
  | .string s => pure (.key s)
  | _ => throw (site.unexpected given (some resolved))

/-- A SELECT made a subquery although the caller did not say so. -/
def implicitSubquery (site : Site) (select : Node) : Coerce Node := do
  site.raise .deprecated selectAsFrom
  select.subquery none

/-- A label for an expression that has none. -/
def labelled (site : Site) (given : Input) (resolved : Coerced) : Coerce Coerced :=
  let scalarLabel : Coerce Coerced := do
    let converted ← site.scalar given resolved
    match converted with
    | .node n =>
      if n.isColumnElement then .node <$> n.anonymousLabel
      else throw (site.unexpected given (some converted))
    | _ => throw (site.unexpected given (some converted))
  match resolved with
  | .node n => if n.isColumnElement then .node <$> n.anonymousLabel else scalarLabel
  | _ => scalarLabel

/-- A join target of an old caller: a string key, a criterion, or a SELECT. -/
def legacyTarget (site : Site) (given : Input) (resolved : Coerced) : Coerce Coerced :=
  match resolved with
  | .key _ => do
    site.raise .deprecated plainStringInJoin
    pure resolved
  | .node n =>
    if Role.accepts .whereHaving n then pure resolved
    else if n.isSelectStatement then .node <$> site.implicitSubquery n
    else throw (site.unexpected given (some resolved))
  | _ => throw (site.unexpected given (some resolved))

/-- A SELECT where a FROM clause is expected. -/
def selectInFrom (site : Site) (given : Input) (resolved : Coerced) : Coerce Coerced :=
  match resolved with
  | .node n =>
    if n.isSelectStatement then
      if site.args.explicitSubquery then .node <$> n.subquery none
      else if site.args.allowSelect.getD true then .node <$> site.implicitSubquery n
      else throw (site.unexpected given (some resolved))
    else if n.isText then pure resolved
    else throw (site.unexpected given (some resolved))
  | _ => throw (site.unexpected given (some resolved))

/-- A SELECT where only FROM elements are expected, if the caller allows it. -/
def selectInStrictFrom (site : Site) (given : Input) (resolved : Coerced) : Coerce Coerced :=
  match resolved with
  | .node n =>
    if n.isSelectStatement && site.args.allowSelect.getD false then do
      let subquery ← site.implicitSubquery n
      if site.role = .anonymizedFromClause then site.settle given subquery
      else pure (.node subquery)
    else throw (site.unexpected given (some resolved))
  | _ => throw (site.unexpected given (some resolved))

/-- What the role makes of something that it does not take as it is. -/
def convert (site : Site) (given : Input) (resolved : Coerced) : Coerce Coerced :=
  let refuse : Coerce Coerced := throw (site.unexpected given (some resolved))
  match site.role with
  | .expressionElement | .binaryElement | .whereHaving | .byOf | .orderBy =>
    site.scalar given resolved
  | .inElement =>
    match resolved with
    | .node n =>
      if n.isFromClause then do
        site.raise .implicitCoercion (fromAsSelect n.kindName)
        let select ← n.selectBehind
        site.settle given select
      else refuse
    | _ => refuse
  | .onClause =>
    match resolved with
    | .key _ => if site.args.legacy then pure resolved else site.scalar given resolved
    | _ => site.scalar given resolved
  | .columnArgumentOrKey | .dmlColumn | .ddlConstraintColumn | .ddlReferredColumn =>
    site.givenKey given resolved
  | .groupBy =>
    match resolved with
    | .node n =>
      if n.isFromClause then do
        let columns ← n.columns
        .node <$> Build.untyped (.clauseList .comma columns)
      else pure resolved
    | _ => pure resolved
  | .truncatedLabel =>
    match given with
    | .string _ => pure resolved
    | _ => refuse
  | .limitOffset =>
    match resolved with
    | .empty => pure .empty
    | _ => refuse
  | .labeledColumnExpr => site.labelled given resolved
  | .selectStatement =>
    match resolved with
    | .node n => if n.isText then .node <$> Build.untyped (.textualSelect n []) else refuse
    | _ => refuse
  | .joinTarget => if site.args.legacy then site.legacyTarget given resolved else refuse
  | .fromClause => site.selectInFrom given resolved
  | .strictFromClause | .anonymizedFromClause => site.selectInStrictFrom given resolved
  | .dmlSelect =>
    match resolved with
    | .node n => if n.isFromClause then .node <$> n.selectBehind else refuse
    | _ => refuse
  | .literalValue =>
    match resolved with
    | .literal value => .node <$> Build.uniqueParam none value site.args.type false false
    | _ => refuse
  | .statementOption | .columnArgument | .strAsPlainColumn | .constExpr | .ddlExpression
  | .columnsClause | .returnsRows | .statement | .dmlTable | .compoundElement => refuse

end Site

end SqlAlgebra
