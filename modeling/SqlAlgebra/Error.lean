import SqlAlgebra.Diagnostic
import SqlAlgebra.Operator

/-!
# Errors

An error is its cause.  A construction error says that a node was put together from parts that do not
fit, an argument error that a value does not suit the role it was given to, and a compile error that a
tree has no rendering in the dialect at hand.  The wording of every cause is in one function beside it.
-/

namespace SqlAlgebra

/-- How many steps are followed from an external element, or from one deferred expression to the next,
before the search is given up. -/
def maxSteps : Nat := 100

inductive ConstructionFault where
  /-- A conjunction or disjunction of nothing. -/
  | noClauses (function : String)
  | castWithoutType
  /-- Nothing but equality compares with no value at all. -/
  | comparisonWithNone
  | noColumnCollection (repr : String)
  | noSuchColumn (repr name : String)
  | selectRequired (function repr : String)
  | fromRequired (function repr : String)
  | leftFromRequired (repr : String)
  | notAliasable (repr : String)
  | notASelect (repr : String)
  | nothingToJoin
  | emptyCompound (op : SetOp)
  | valuesWithSelect
  | emptyIn
  | endlessElement (repr : String)
  | endlessDeferred
  | nodeRequired (role : Role) (repr : String)
  | keyRequired (role : Role) (repr : String)
  /-- A failure that a factory or a callback of the caller reports. -/
  | reported (message : String)
deriving DecidableEq

namespace ConstructionFault

def message : ConstructionFault → String
  | .noClauses function => function ++ "() requires at least one clause"
  | .castWithoutType => "CAST requires a concrete target type"
  | .comparisonWithNone =>
    "Only '=', '!=', IS, IS NOT, IS DISTINCT FROM and IS NOT DISTINCT FROM operators can be used with None"
  | .noColumnCollection repr => repr ++ " has no column collection; call .subquery() first"
  | .noSuchColumn repr name => repr ++ " has no column '" ++ name ++ "'"
  | .selectRequired function repr =>
    function ++ "() requires a SELECT construct, got " ++ repr
  | .fromRequired function repr => function ++ "() requires a FROM clause, got " ++ repr
  | .leftFromRequired repr => "join() requires a FROM clause on the left, got " ++ repr
  | .notAliasable repr => repr ++ " cannot be aliased"
  | .notASelect repr => "expected a Select, got " ++ repr
  | .nothingToJoin => "no FROM clause to join from"
  | .emptyCompound op => op.sql ++ " requires at least one SELECT"
  | .valuesWithSelect => "INSERT cannot combine values() with from_select()"
  | .emptyIn => "IN() requires at least one element"
  | .endlessElement repr =>
    repr ++ " did not resolve to a clause element after " ++ toString maxSteps ++ " steps"
  | .endlessDeferred =>
    "deferred expression did not resolve after " ++ toString maxSteps ++ " steps"
  | .nodeRequired role repr =>
    role.name ++ " resolved to " ++ repr ++ " where a clause element is required"
  | .keyRequired role repr =>
    role.name ++ " resolved to " ++ repr ++ " where a string key is required"
  | .reported message => message

end ConstructionFault

inductive CompileFault where
  | conflictingBinds (name : String)
  | noColumns
  /-- Every FROM element of a SELECT is provided by an enclosing statement. -/
  | allCorrelated
  | returningUnsupported (dialect : String)
  | noAssignments
  | notAFromElement (repr : String)
  | unresolvedLabel (name : String)
  | castUnsupported (dialect type : String)
  | namelessRow (repr : String)
  | notAColumnExpression (repr : String)
  | embeddedModification (kind : String)
  | unresolvedDeferred
  | foreignBind (repr : String)
  | operatorUnsupported (operator dialect : String)
  | nonFiniteLiteral (text : String)
  | listLiteral
  | emptySlot (slot : Nat) (name : String)
deriving DecidableEq

namespace CompileFault

def message : CompileFault → String
  | .conflictingBinds name =>
    "Bind parameter '" ++ name ++ "' conflicts with another bind parameter of the same name"
  | .noColumns => "SELECT construct has no columns to render"
  | .allCorrelated =>
    "SELECT returned no FROM clauses due to auto-correlation; use correlate(false) to keep its FROM list"
  | .returningUnsupported dialect => "RETURNING is not supported by the " ++ dialect ++ " dialect"
  | .noAssignments => "UPDATE construct has no SET clause; call set() before compiling"
  | .notAFromElement repr => repr ++ " cannot be rendered as a FROM element"
  | .unresolvedLabel name =>
    "Can't resolve label reference '" ++ name ++ "'; declare it with text('" ++ name ++
      "') to render it as literal SQL"
  | .castUnsupported dialect type => "the " ++ dialect ++ " dialect cannot CAST to " ++ type
  | .namelessRow repr => repr ++ " has no name to reference as a row value"
  | .notAColumnExpression repr => repr ++ " cannot be rendered as a column expression"
  | .embeddedModification kind => kind ++ " cannot be embedded in another statement"
  | .unresolvedDeferred => "deferred expression was not resolved before rendering"
  | .foreignBind repr => repr ++ " is not part of the statement being compiled"
  | .operatorUnsupported operator dialect =>
    "operator " ++ operator ++ " is not supported by the " ++ dialect ++ " dialect"
  | .nonFiniteLiteral text => "cannot render non-finite float " ++ text ++ " as a literal"
  | .listLiteral => "a list value can only be rendered by an expanding parameter"
  | .emptySlot slot name =>
    "no bind parameter in slot " ++ toString slot ++ " for '" ++ name ++ "'"

end CompileFault

/-- What a caller can do about an argument that does not suit its role. -/
inductive Advice where
  | makeSubquery (kind : String)
  | makeTableValued
  | selectThese (items : String)
  | dropAlias
  | selectFromIt
deriving DecidableEq

namespace Advice

def text : Advice → String
  | .makeSubquery kind =>
    "To create a FROM clause from a " ++ kind ++ " object, use the .subquery() method."
  | .makeTableValued =>
    "To create a column expression from a FROM clause row as a whole, use the .table_valued() method."
  | .selectThese items => "Did you mean to say select(" ++ items ++ ")?"
  | .dropAlias => "Use the plain select() object without calling .subquery() or .alias()."
  | .selectFromIt => "To SELECT from any FROM clause, use the .select() method."

/-- The stable code of a class of mistakes, where one is assigned. -/
def code : Advice → Option String
  | .makeSubquery _ => some "89ve"
  | _ => none

end Advice

/-- What is wrong with an argument. -/
inductive ArgumentProblem where
  /-- The value, or what it resolved to, is not of a kind that the role takes. -/
  | unexpected (resolved : Option String) (advice : Option Advice)
  /-- A plain string where SQL text has to be declared. -/
  | undeclaredText (quoted : String)
  /-- A plain string in a columns clause. -/
  | undeclaredColumn (quoted constructor : String)
deriving DecidableEq

/-- A value that does not suit the role of the place it was given to. -/
structure ArgumentError where
  role : Role
  /-- The value as messages show it. -/
  value : String
  /-- The argument at the place of use, where it has a name. -/
  argname : Option String
  problem : ArgumentProblem
deriving DecidableEq

namespace ArgumentError

def advice (e : ArgumentError) : Option Advice :=
  match e.problem with
  | .unexpected _ advice => advice
  | _ => none

def argumentClause (e : ArgumentError) : String :=
  match e.argname with
  | some argname => "for argument " ++ argname ++ " "
  | none => ""

def message (e : ArgumentError) : String :=
  match e.problem with
  | .unexpected resolved advice =>
    let got :=
      match resolved with
      | some resolved => resolved ++ " object resolved from " ++ e.value ++ " object"
      | none => e.value
    let expected :=
      match e.argname with
      | some argname => e.role.name ++ " expected for argument '" ++ argname ++ "'; got " ++ got ++ "."
      | none => e.role.name ++ " expected, got " ++ got ++ "."
    match advice with
    | some advice => expected ++ " " ++ advice.text
    | none => expected
  | .undeclaredText quoted =>
    "Textual SQL expression " ++ quoted ++ " " ++ e.argumentClause ++
      "should be explicitly declared as text(" ++ quoted ++ ")"
  | .undeclaredColumn quoted constructor =>
    "Textual column expression " ++ quoted ++ " " ++ e.argumentClause ++
      "should be explicitly declared with text(" ++ quoted ++ "), or use " ++ constructor ++ "(" ++
      quoted ++ ") for more specificity"

end ArgumentError

inductive Error where
  | construction (fault : ConstructionFault)
  | argument (error : ArgumentError)
  | compile (fault : CompileFault)
  /-- A conversion that the policy refuses. -/
  | rejected (diagnostic : Diagnostic)
deriving DecidableEq

namespace Error

def message : Error → String
  | .construction fault => "Construction error: " ++ fault.message
  | .argument error => error.message
  | .compile fault => "Compile error: " ++ fault.message
  | .rejected diagnostic => "Rejected implicit coercion: " ++ diagnostic.message

end Error

end SqlAlgebra
