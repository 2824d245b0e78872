import SqlAlgebra.Build.Atom
import SqlAlgebra.Coercion.Advice
import SqlAlgebra.Text.Alphanumeric
import SqlAlgebra.Text.Blank
import SqlAlgebra.Text.Digits
import SqlAlgebra.Tree.Acceptance

/-!
# Plain values

What each role makes of an input that is no node.  Most expressions take a plain value as a bound
parameter; a string is a key for some roles, the name of a label for others, and an error for those that
would have to take it for SQL text.
-/

namespace SqlAlgebra

def plainStringInJoin : String :=
  "Using strings to indicate relationship names in join() is deprecated; please use the class-bound attribute directly."

def plainStringAsStatement : String :=
  "Using plain strings to indicate SQL statements without using the text() construct is deprecated. Ensure plain SQL statements are passed using the text() construct."

namespace Build

/-- A parameter that gets a name of its own.  Its type is that of its value unless it is said. -/
def uniqueParam (key : Option String) (value : Value) (type : Option SqlType)
    (isCrud isExpanding : Bool) : Build Node :=
  typed (.bind ⟨key, value, true, isExpanding, isCrud⟩) (type.getD (.ofValue value))

/-- A parameter that is compared with an expression: it is keyed by the name of the expression, and a
value of no known type takes the type of the expression. -/
def paramAgainst (left : Option Node) (value : Value) (isExpanding : Bool) : Build Node :=
  let key :=
    match left.map Node.kind with
    | some (.column name _ false) => some name
    | some (.label name _) => name
    | _ => none
  let type := SqlType.ofValue value
  let type := if type.isNull then (left.map Node.type).getD .null else type
  uniqueParam key value (some type) false isExpanding

end Build

/-- Whether a string reads like the name of a single column: a word character, then no blank. -/
def readsLikeColumnName (s : String) : Bool :=
  match s.toList with
  | first :: rest =>
    (Text.isAlphanumeric first || first == '_') && rest.all fun c => !Text.isBlank c
  | [] => false

namespace Role

/-- Whether SQL text would do for the role, so that a plain string is text that was not declared. -/
def takesText (role : Role) : Bool :=
  role == .selectStatement || role.accepts ⟨0, .text "", .null, [], []⟩

end Role

/-- The plain values that a role takes for SQL as they are. -/
structure Constants where
  /-- No value and the truth values. -/
  consts : Bool
  numerics : Bool
  star : Bool

namespace Site

/-- Refuses every plain value. -/
def rejectPlain (site : Site) (input : Input) : Coerce Coerced :=
  match input with
  | .string s =>
    if site.role.takesText then throw (site.undeclaredText s)
    else throw (site.unexpected input none)
  | _ => throw (site.unexpected input none)

/-- Takes a string for a key. -/
def stringKey (site : Site) (input : Input) : Coerce Coerced :=
  match input with
  | .string s => pure (.key s)
  | _ => throw (site.unexpected input none)

/-- Takes no value for NULL and any other plain value for a parameter. -/
def expressionLiteral (site : Site) (input : Input) : Coerce Coerced :=
  match input with
  | .nothing => .node <$> Build.null
  | _ =>
    match input.toValue? with
    | some value =>
      .node <$> Build.uniqueParam site.args.name value site.args.type site.args.isCrud false
    | none => throw (site.unexpected input none)

/-- Takes some plain values for SQL as they are, and other strings as `onText` says. -/
def constant (site : Site) (taken : Constants) (onText : String → Coerce Coerced) (input : Input) :
    Coerce Coerced :=
  match input with
  | .string s =>
    if taken.star && s == "*" then .node <$> Build.literalColumn "*" else onText s
  | .nothing => if taken.consts then .node <$> Build.null else throw (site.unexpected input none)
  | .boolean b =>
    if taken.consts then .node <$> Build.truth b else throw (site.unexpected input none)
  | .integer n =>
    if taken.numerics then .node <$> Build.literalColumn (toString n.toInt)
    else throw (site.unexpected input none)
  | .real x =>
    if taken.numerics then .node <$> Build.literalColumn x.text
    else throw (site.unexpected input none)
  | _ => throw (site.unexpected input none)

/-- The error that a plain string stands in a columns clause. -/
def undeclaredColumn (site : Site) (s : String) : Error :=
  site.refusal (Input.quoted s)
    (.undeclaredColumn (Input.quoted (Text.excerpt 25 s))
      (if readsLikeColumnName s then "column" else "literal_column"))

/-- Whether an element may stand in an IN list, and if so whether the list needs a place for each of
its elements: an expression or NULL cannot be an element of the value of one parameter. -/
def listPlace (item : Input) : Option Bool :=
  match item with
  | .nothing => some true
  | .node n => if n.isColumnElement then some true else none
  | _ => if item.isLiteral then some false else none

/-- The clause of one element of an IN list. -/
def listClause (site : Site) (whole item : Input) : Coerce Node :=
  match item with
  | .nothing => Build.null
  | .node n => pure n
  | _ =>
    match item.toValue? with
    | some value => Build.paramAgainst site.args.left value false
    | none => throw (site.unexpected whole none)

/-- Takes a list of plain values for one expanding parameter, and a list with expressions or NULL among
its elements for a clause per element. -/
def listLiteral (site : Site) (input : Input) : Coerce Coerced :=
  match input with
  | .list items =>
    let places := items.map listPlace
    if places.any Option.isNone then throw (site.unexpected input none)
    else if !places.contains (some true) then
      match input.toValue? with
      | some value => .node <$> Build.paramAgainst site.args.left value true
      | none => throw (site.unexpected input none)
    else do
      let clauses ← items.mapM (site.listClause input)
      .node <$> Build.untyped (.clauseList .comma clauses)
  | _ => throw (site.unexpected input none)

/-- Takes a whole number, also as text, for a parameter, and no value for nothing. -/
def limitLiteral (site : Site) (input : Input) : Coerce Coerced :=
  let value? :=
    match input with
    | .integer n => some n
    | .real x => x.toInt?.bind int64?
    | .string s => (Text.toInt? (Text.trim s.toList)).bind int64?
    | _ => none
  match input, value? with
  | .nothing, _ => pure .empty
  | _, some n =>
    .node <$> Build.uniqueParam site.args.name (.integer n)
      (some (site.args.type.getD .integer)) false false
  | _, none => throw (site.unexpected input none)

/-- What the role makes of an input that is no node. -/
def literal (site : Site) (input : Input) : Coerce Coerced :=
  match site.role with
  | .expressionElement | .labeledColumnExpr => site.expressionLiteral input
  | .binaryElement =>
    match input.toValue? with
    | some value => .node <$> Build.paramAgainst site.args.left value false
    | none => throw (site.unexpected input none)
  | .inElement => site.listLiteral input
  | .onClause =>
    site.constant ⟨true, false, false⟩
      (fun s =>
        if site.args.legacy then do
          site.raise .deprecated plainStringInJoin
          pure (.key s)
        else throw (site.undeclaredText s))
      input
  | .whereHaving =>
    site.constant ⟨true, false, false⟩ (fun s => throw (site.undeclaredText s)) input
  | .statementOption | .ddlExpression =>
    site.constant ⟨true, false, false⟩ (fun s => .node <$> Build.text s) input
  | .columnArgumentOrKey | .dmlColumn | .truncatedLabel | .ddlConstraintColumn
  | .ddlReferredColumn | .joinTarget => site.stringKey input
  | .strAsPlainColumn =>
    site.constant ⟨false, false, false⟩ (fun s => .node <$> Build.column s .null) input
  | .byOf | .orderBy | .groupBy =>
    site.constant ⟨true, false, false⟩
      (fun s => .node <$> Build.untyped (.textualLabelReference s)) input
  | .constExpr =>
    match input with
    | .nothing => .node <$> Build.null
    | .boolean b => .node <$> Build.truth b
    | _ => throw (site.unexpected input none)
  | .limitOffset => site.limitLiteral input
  | .columnsClause =>
    site.constant ⟨true, true, true⟩ (fun s => throw (site.undeclaredColumn s)) input
  | .returnsRows => throw (site.unexpected input none)
  | .statement =>
    site.constant ⟨false, false, false⟩
      (fun s => do
        site.raise .deprecated plainStringAsStatement
        .node <$> Build.text s)
      input
  | .columnArgument | .selectStatement | .fromClause | .strictFromClause | .anonymizedFromClause
  | .dmlTable | .dmlSelect | .compoundElement => site.rejectPlain input
  | .literalValue =>
    match input.toValue? with
    | some value => pure (.literal value)
    | none => throw (site.unexpected input none)

end Site

end SqlAlgebra
