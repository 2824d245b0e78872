import SqlAlgebra.Coercion.Expect

/-!
# Expressions

The operators on nodes.  The right operand of a binary operator is coerced against the left one, so a
plain value becomes a parameter named and typed like the left side.  What was reported while an operand
was coerced stays on the node that is built.
-/

namespace SqlAlgebra

namespace Build

/-- An anonymous parameter for a plain value. -/
def literal (value : Input) : Build Node := do
  let (n, _) ← coerceNode .literalValue value {}
  pure n

/-- Coerces inputs one after the other, with all that was reported on the way. -/
def coerceNodes (role : Role) (args : CoercionArgs) :
    List Input → Build (List Node × List Diagnostic)
  | [] => pure ([], [])
  | input :: rest => do
    let (n, first) ← coerceNode role input args
    let (ns, others) ← coerceNodes role args rest
    pure (n :: ns, first ++ others)

/-- The clauses that a node adds to a list: those of a list of the same kind, or the node itself. -/
def clausesUnder (op : ListOp) (n : Node) : List Node :=
  match n.kind with
  | .clauseList inner clauses => if inner = op then clauses else [n]
  | _ => [n]

/-- Clauses joined by an operator.  A clause that is such a list itself is taken apart. -/
def junction (op : ListOp) (function : String) (clauses : List Input) : Build Node := do
  let (nodes, diagnostics) ← coerceNodes .whereHaving { argname := some "clauses" } clauses
  let flat := nodes.flatMap (clausesUnder op)
  if flat.isEmpty then fail (.noClauses function)
  else reported (.clauseList op flat) .boolean diagnostics

def conjunction (clauses : List Input) : Build Node := junction .and "and_" clauses

def disjunction (clauses : List Input) : Build Node := junction .or "or_" clauses

/-- The opposite of a predicate: a comparison by the opposite operator, and otherwise NOT. -/
def negation (clause : Input) : Build Node := do
  let (n, diagnostics) ← coerceNode .whereHaving clause {}
  match n.kind with
  | .binary left op right =>
    match op.negate with
    | some negated => reported (.binary left negated right) .boolean diagnostics
    | none => reported (.unary .not n) .boolean diagnostics
  | _ => reported (.unary .not n) .boolean diagnostics

/-- The type of a call: that of its first argument, except for a few functions that are known. -/
def callType (name : String) (args : List Node) : SqlType :=
  let lower := String.ofList (name.toList.map Char.toLower)
  if lower = "count" then .integer
  else if lower = "now" ∨ lower = "current_timestamp" then .dateTime
  else (args.head?.map Node.type).getD .null

def call (name : String) (args : List Input) : Build Node := do
  let (nodes, diagnostics) ← coerceNodes .expressionElement {} args
  reported (.function name nodes) (callType name nodes) diagnostics

def castNode (element : Node) (type : SqlType) (diagnostics : List Diagnostic) : Build Node :=
  if type.isNull then fail .castWithoutType
  else reported (.cast element type) type diagnostics

/-- A value as a value of another type. -/
def cast (value : Input) (type : SqlType) : Build Node := do
  let (n, diagnostics) ← coerceNode .expressionElement value {}
  castNode n type diagnostics

/-- Whether a SELECT has any rows. -/
def «exists» (select : Node) : Build Node := do
  let subquery ← select.scalarSubquery
  typed (.unary .exists subquery) .boolean

end Build

namespace Node

/-- The operator by which an expression is compared with no value at all. -/
def operatorAgainstNone (op : BinaryOp) : Option BinaryOp :=
  match op with
  | .eq | .is => some .is
  | .ne | .isNot => some .isNot
  | .isDistinctFrom | .isNotDistinctFrom => some op
  | _ => none

/-- A comparison, of the truth type. -/
def compare (left : Node) (op : BinaryOp) (right : Input) : Build Node := do
  if right.isNone then
    match operatorAgainstNone op with
    | some op =>
      let null ← Build.null
      Build.typed (.binary left op null) .boolean
    | none => Build.fail .comparisonWithNone
  else
    let (right, diagnostics) ←
      coerceNode .binaryElement right { left := some left, operator := some op }
    Build.reported (.binary left op right) .boolean diagnostics

/-- The type of an arithmetic expression: that of its left operand if it is known. -/
def arithmeticType (op : BinaryOp) (left right : Node) : SqlType :=
  if op = .concat then .string
  else if left.type.isNull then right.type
  else left.type

def arithmetic (left : Node) (op : BinaryOp) (right : Input) : Build Node := do
  let (right, diagnostics) ←
    coerceNode .binaryElement right { left := some left, operator := some op }
  Build.reported (.binary left op right) (arithmeticType op left right) diagnostics

/-- Whether an expression is, or is not, among the elements of a list or the rows of a SELECT. -/
def membership (left : Node) (op : BinaryOp) (right : Input) : Build Node := do
  let (right, diagnostics) ←
    coerceNode .inElement right { left := some left, operator := some op }
  Build.reported (.binary left op right) .boolean diagnostics

/-- Whether an expression lies between two others.  The bounds are a list of two clauses. -/
def between (left : Node) (low high : Input) : Build Node := do
  let args : CoercionArgs := { left := some left, operator := some .between }
  let (low, first) ← coerceNode .binaryElement low args
  let (high, second) ← coerceNode .binaryElement high args
  let bounds ← Build.typed (.clauseList .and [low, high]) .boolean
  Build.reported (.binary left .between bounds) .boolean (first ++ second)

/-- A comparison with NULL by identity. -/
def againstNull (left : Node) (op : BinaryOp) : Build Node := do
  let null ← Build.null
  Build.typed (.binary left op null) .boolean

def unary (operand : Node) (op : UnaryOp) : Build Node :=
  Build.typed (.unary op operand) operand.type

def label (element : Node) (name : Input) : Build Node := do
  let (key, diagnostics) ← coerceKey .truncatedLabel name { argname := some "name" }
  Build.reported (.label (some key) element) element.type diagnostics

/-- An ordering by an expression.  Of an ordering, what is not said anew is kept. -/
def ordered (n : Node) (isDescending : Option Bool) (nulls : Option NullsOrder) : Build Node :=
  match n.kind with
  | .ordering element wasDescending wasNulls =>
    Build.typed (.ordering element (isDescending.getD wasDescending) (nulls.or wasNulls)) n.type
  | _ => Build.typed (.ordering n (isDescending.getD false) nulls) n.type

end Node

end SqlAlgebra
