import SqlAlgebra.Coercion.Site

/-!
# Refusals

The error that a role expected something else.  It names what the value resolved to, where that is not
the value itself, and says what the caller can do, where the mistake is a usual one.
-/

namespace SqlAlgebra

/-- A SELECT where a FROM clause is expected. -/
def selectAdvice (given : Input) (resolved : Option Coerced) : Option Advice :=
  match (resolved.bind Coerced.node?).or given.asNode? with
  | some n => if n.isSelectStatement then some (.makeSubquery n.kindName) else none
  | none => none

/-- A FROM clause where a column expression is expected. -/
def rowAdvice (given : Input) : Option Advice :=
  match given.asNode? with
  | some n => if n.isFromClause then some .makeTableValued else none
  | none => none

/-- A FROM clause where a SELECT is expected. -/
def compoundAdvice (given : Input) : Option Advice :=
  match given.asNode? with
  | some n =>
    if n.isFromClause then some (if n.isAliased then .dropAlias else .selectFromIt) else none
  | none => none

namespace Role

/-- What a caller can do about an input that the role refuses. -/
def advice (role : Role) (given : Input) (resolved : Option Coerced) : Option Advice :=
  match role with
  | .expressionElement | .binaryElement | .labeledColumnExpr => rowAdvice given
  | .fromClause | .strictFromClause | .anonymizedFromClause | .dmlTable =>
    selectAdvice given resolved
  | .columnsClause =>
    match selectAdvice given resolved, given with
    | some advice, _ => some advice
    | none, .list items => some (.selectThese (", ".intercalate (Input.itemReprs items)))
    | none, _ => none
  | .compoundElement => compoundAdvice given
  | _ => none

end Role

namespace Site

/-- The error that the role expected something else than an input, or than what it resolved to. -/
def unexpected (site : Site) (given : Input) (resolved : Option Coerced) : Error :=
  let shown :=
    match resolved, given with
    | some (.node a), .node b => if a.isSame b then none else some a.repr
    | some other, _ => some other.repr
    | none, _ => none
  site.refusal given.repr (.unexpected shown (site.role.advice given resolved))

/-- The error that an external element stands for something that is no node. -/
def unexpectedTerminal (site : Site) (given terminal : Input) : Error :=
  site.refusal given.repr (.unexpected (some terminal.repr) (site.role.advice given none))

/-- The error that a plain string stands where SQL text has to be declared. -/
def undeclaredText (site : Site) (s : String) : Error :=
  site.refusal (Input.quoted s) (.undeclaredText (Input.quoted (Text.excerpt 25 s)))

end Site

end SqlAlgebra
