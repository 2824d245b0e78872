import SqlAlgebra.Dialect.Basic
import SqlAlgebra.Layout.Piece
import SqlAlgebra.Layout.Sources
import SqlAlgebra.Tree.RowShape

/-!
# Rendering

The layout of a tree in a dialect.  An expression is rendered inside an operator of some strength and
puts itself in parentheses if its own operator is weaker.  A statement is rendered inside the frames of
the statements around it, the innermost first; a FROM element is rendered outside of all of them.
-/

namespace SqlAlgebra.Layout

def identifier (d : Dialect) (ident : String) : Layout := text (d.identifier ident)

def identifiers (d : Dialect) (idents : List String) : Layout :=
  separated ", " (idents.map (identifier d))

/-- The name by which a FROM element is referred to, if it has one. -/
def sourceName? (d : Dialect) (n : Node) : Option Layout :=
  match n.kind with
  | .table t =>
    match t.schema with
    | some schema => some (text (d.identifier schema ++ "." ++ d.identifier t.name))
    | none => some (identifier d t.name)
  | .alias _ name | .subquery _ name =>
    match name with
    | some name => some (identifier d name)
    | none => some (piece (.anonymous n))
  | _ => none

def sourceName (d : Dialect) (n : Node) : Layout := optional (sourceName? d n) id

/-- A column under the name of the FROM element that it belongs to. -/
def column (d : Dialect) (name : String) (source : Option Node) (isLiteral : Bool) : Layout :=
  if isLiteral then text name
  else optional (source.bind (sourceName? d)) (· ++ text ".") ++ identifier d name

/-- The name that a label declares. -/
def labelName (d : Dialect) (label : Node) : Layout :=
  match label.kind with
  | .label (some name) _ => identifier d name
  | _ => piece (.anonymous label)

/-- All columns of a FROM element that stands in a columns clause. -/
def allColumns (d : Dialect) (n : Node) : Layout :=
  match n.declaredColumns with
  | [] =>
    match sourceName? d n with
    | some name => name ++ text ".*"
    | none => text "*"
  | columns =>
    separated ", " (columns.map fun (source, name, _) => column d name (some source) false)

def orderingSuffix (isDescending : Bool) (nulls : Option NullsOrder) : Layout :=
  (if isDescending then text " DESC" else empty) ++ optional nulls fun order => text order.sql

/-- Whether a label is one of the columns of the innermost statement. -/
def isInScope (frames : List Frame) (label : Node) : Bool :=
  match frames with
  | frame :: _ => frame.columns.any (·.isSame label)
  | [] => false

/-- A bare name, resolved to the first column of the innermost statement that has it. -/
def textualLabel (d : Dialect) (frames : List Frame) (name : String) : Layout :=
  let columns := (frames.head?.map Frame.columns).getD []
  let found := columns.findSome? fun c =>
    match c.kind with
    | .label (some label) _ => if label = name then some (identifier d name) else none
    | .column column' source isLiteral =>
      if column' = name then some (column d column' source isLiteral) else none
    | _ => none
  found.getD (fail (.unresolvedLabel name))

/-- Whether a member of a compound SELECT has to stand in parentheses. -/
def isWrapped (n : Node) : Bool :=
  match n.kind with
  | .select s => s.limit.isSome || s.offset.isSome || !s.orderBy.isEmpty
  | .compound _ _ => true
  | _ => false

/-- A RETURNING clause is refused before anything of its statement is rendered. -/
def checkReturning (d : Dialect) (returning : List Node) : Layout :=
  if !returning.isEmpty && !d.supportsReturning then fail (.returningUnsupported d.name) else empty

/-- The strength inside which the right operand of an operator is rendered. -/
def rightStrength (op : BinaryOp) : Nat :=
  if op.isAssociative then op.precedence else op.precedence + 1

/-- The bounds of BETWEEN, where the right operand is a list of two. -/
def bounds? (op : BinaryOp) (right : Node) : Option (Node × Node) :=
  match op, right.kind with
  | .between, .clauseList _ [low, high] => some (low, high)
  | .notBetween, .clauseList _ [low, high] => some (low, high)
  | _, _ => none

theorem sizeOf_bounds {op : BinaryOp} {right low high : Node}
    (h : bounds? op right = some (low, high)) :
    sizeOf low < sizeOf right ∧ sizeOf high < sizeOf right := by
  have listed : ∀ listOp, right.kind = .clauseList listOp [low, high] →
      sizeOf low < sizeOf right ∧ sizeOf high < sizeOf right := by
    intro listOp hk
    constructor <;> exact Node.sizeOf_child (by simp [Node.children, Kind.children, hk])
  unfold bounds? at h
  split at h
  · next hk => simp at h; rcases h with ⟨rfl, rfl⟩; exact listed _ hk
  · next hk => simp at h; rcases h with ⟨rfl, rfl⟩; exact listed _ hk
  · cases h

theorem Select.sizeOf_columns (s : Select Node) : sizeOf s.columns < sizeOf s := by
  rcases s
  simp
  omega

/-- The text that stands in front of an operand of a unary operator. -/
def unaryMark (op : UnaryOp) : String := if op.isSign then op.sql else op.sql ++ " "

/-- The strength inside which the operand of a unary operator is rendered.  An operand of a sign that
is a sign itself stands in parentheses, so that two minus signs never meet. -/
def operandStrength (op : UnaryOp) : Nat := if op.isSign then op.precedence + 1 else op.precedence

/-- What a list of no clauses stands for. -/
def noClauses (d : Dialect) (op : ListOp) : String :=
  match op with
  | .and => d.truth true
  | .or => d.truth false
  | .comma => ""

mutual

/-- A statement of any kind; what is no statement is rendered as a FROM element or an expression. -/
def statement (d : Dialect) (frames : List Frame) (n : Node) : Layout :=
  match _h : n.kind with
  | .select s => query d frames s
  | .compound op selects => compound d frames op selects
  | .textualSelect sql _ => expression d frames 0 sql
  | .insert ⟨target, values, source, returning⟩ =>
    let inner := Frame.ofSources [target] [] :: frames
    checkReturning d returning ++ text "INSERT INTO " ++ fromElement d frames target ++
      (match _hs : source with
        | some (columns, select) =>
          text " (" ++ identifiers d columns ++ text ") " ++ statement d [] select
        | none =>
          if values.isEmpty then text " " ++ text d.defaultValues
          else
            text " (" ++ identifiers d (values.map Prod.fst) ++ text ") VALUES (" ++
              separated ", " (insertedValues d inner values) ++ text ")") ++
      returningClause d inner returning
  | .update ⟨target, values, criteria, returning⟩ =>
    let inner := Frame.ofSources [target] [] :: frames
    (if values.isEmpty then fail .noAssignments else empty) ++ checkReturning d returning ++
      text "UPDATE " ++ fromElement d frames target ++ text " SET " ++
      separated ", " (assignments d inner values) ++
      (match _hc : criteria with
        | some criteria => text " WHERE " ++ expression d inner 0 criteria
        | none => empty) ++
      returningClause d inner returning
  | .delete ⟨target, criteria, returning⟩ =>
    let inner := Frame.ofSources [target] [] :: frames
    checkReturning d returning ++ text "DELETE FROM " ++ fromElement d frames target ++
      (match _hc : criteria with
        | some criteria => text " WHERE " ++ expression d inner 0 criteria
        | none => empty) ++
      returningClause d inner returning
  | _ => if n.isFromClause then fromElement d frames n else expression d frames 0 n
termination_by 4 * sizeOf n + 3
decreasing_by all_goals (have smaller := n.sizeOf_kind; simp [*] at smaller; omega)

/-- The values of an INSERT. -/
def insertedValues (d : Dialect) (frames : List Frame) (values : List (String × Node)) :
    List Layout :=
  match values with
  | [] => []
  | (_, value) :: rest => expression d frames 0 value :: insertedValues d frames rest
termination_by 4 * sizeOf values

/-- The assignments of an UPDATE. -/
def assignments (d : Dialect) (frames : List Frame) (values : List (String × Node)) :
    List Layout :=
  match values with
  | [] => []
  | (key, value) :: rest =>
    (identifier d key ++ text " = " ++ expression d frames 0 value) :: assignments d frames rest
termination_by 4 * sizeOf values

def returningClause (d : Dialect) (frames : List Frame) (returning : List Node) : Layout :=
  if returning.isEmpty then empty
  else text " RETURNING " ++ separated ", " (columnItems d frames returning)
termination_by 4 * sizeOf returning + 1

/-- A SELECT.  Its FROM list is settled before anything of it is rendered. -/
def query (d : Dialect) (frames : List Frame) (s : Select Node) : Layout :=
  if s.columns.isEmpty then fail .noColumns
  else
    match _hf : s.shownFroms frames with
    | .error fault => fail fault
    | .ok froms =>
      let inner := Frame.ofSources froms s.columns :: frames
      text "SELECT " ++ (if s.isDistinct then text "DISTINCT " else empty) ++
        separated ", " (columnItems d inner s.columns) ++
        (if froms.isEmpty then empty
          else
            text " FROM " ++
              separated ", " (froms.attach.map fun source => fromElement d inner source.1)) ++
        (match _hc : s.criteria with
          | some criteria => text " WHERE " ++ expression d inner 0 criteria
          | none => empty) ++
        (if s.groupBy.isEmpty then empty
          else text " GROUP BY " ++ separated ", " (expressions d inner 0 s.groupBy)) ++
        (match _hc : s.having with
          | some having => text " HAVING " ++ expression d inner 0 having
          | none => empty) ++
        (if s.orderBy.isEmpty then empty
          else text " ORDER BY " ++ separated ", " (expressions d inner 0 s.orderBy)) ++
        paging d inner s.limit s.offset
termination_by 4 * sizeOf s
decreasing_by
  · have := Select.sizeOf_columns s; omega
  · have := Select.sizeOf_shown _hf source.2; omega
  all_goals (rcases s; simp_all; omega)

/-- How many rows a SELECT returns, and how many it leaves out before them. -/
def paging (d : Dialect) (frames : List Frame) (limit offset : Option Node) : Layout :=
  match d.paging with
  | .limitOffset filler =>
    (match limit with
      | some limit => text " LIMIT " ++ expression d frames 0 limit
      | none => if offset.isSome then optional filler fun n => text (" LIMIT " ++ n) else empty) ++
      (match offset with
        | some offset => text " OFFSET " ++ expression d frames 0 offset
        | none => empty)
  | .offsetFetch =>
    (match offset with
      | some offset => text " OFFSET " ++ expression d frames 0 offset ++ text " ROWS"
      | none => empty) ++
      (match limit with
        | some limit =>
          text " FETCH FIRST " ++ expression d frames 0 limit ++ text " ROWS ONLY"
        | none => empty)
termination_by 4 * (sizeOf limit + sizeOf offset)
decreasing_by all_goals (simp; omega)

/-- SELECTs with a set operation between them. -/
def compound (d : Dialect) (frames : List Frame) (op : SetOp) (selects : List Node) : Layout :=
  separated (" " ++ op.sql ++ " ") (compoundMembers d frames selects)
termination_by 4 * sizeOf selects + 1

def compoundMembers (d : Dialect) (frames : List Frame) (selects : List Node) : List Layout :=
  match selects with
  | [] => []
  | select :: rest =>
    parenthesizedIf (isWrapped select) (statement d frames select) ::
      compoundMembers d frames rest
termination_by 4 * sizeOf selects

/-- An element of a FROM list. -/
def fromElement (d : Dialect) (frames : List Frame) (n : Node) : Layout :=
  match _h : n.kind with
  | .table _ => sourceName d n
  | .alias element _ =>
    (match element.kind with
      | .table _ => sourceName d element
      | _ => parenthesized (statement d [] element)) ++
      text " AS " ++ sourceName d n
  | .subquery element _ =>
    (match element.kind with
      | .table _ => sourceName d element
      | _ => parenthesized (statement d [] element)) ++
      text " AS " ++ sourceName d n
  | .join ⟨left, right, on, kind⟩ =>
    let nested :=
      match right.kind with
      | .join _ => true
      | _ => false
    fromElement d frames left ++ text (" " ++ kind.sql ++ " ") ++
      parenthesizedIf nested (fromElement d frames right) ++ text " ON " ++
      expression d frames 0 on
  | .text sql => text sql
  | .select s => parenthesized (query d [] s)
  | .compound op selects => parenthesized (compound d [] op selects)
  | .textualSelect sql _ => parenthesized (expression d [] 0 sql)
  | _ => fail (.notAFromElement n.repr)
termination_by 4 * sizeOf n + 2
decreasing_by all_goals (have smaller := n.sizeOf_kind; simp [*] at smaller; omega)

/-- An element of a columns clause. -/
def columnItem (d : Dialect) (frames : List Frame) (n : Node) : Layout :=
  match _h : n.kind with
  | .label _ element => expression d frames 0 element ++ text " AS " ++ labelName d n
  | _ => if n.isFromClause then allColumns d n else expression d frames 0 n
termination_by 4 * sizeOf n + 3
decreasing_by all_goals (have smaller := n.sizeOf_kind; simp [*] at smaller; omega)

def columnItems (d : Dialect) (frames : List Frame) (ns : List Node) : List Layout :=
  match ns with
  | [] => []
  | n :: rest => columnItem d frames n :: columnItems d frames rest
termination_by 4 * sizeOf ns

/-- A label of the innermost statement by its name, and any other one by what it stands for. -/
def labelReference (d : Dialect) (frames : List Frame) (target : Node) : Layout :=
  match _h : target.kind with
  | .label _ element =>
    if isInScope frames target then labelName d target else expression d frames 0 element
  | .ordering element isDescending nulls =>
    labelReference d frames element ++ orderingSuffix isDescending nulls
  | _ => expression d frames 0 target
termination_by 4 * sizeOf target + 3
decreasing_by all_goals (have smaller := target.sizeOf_kind; simp [*] at smaller; omega)

/-- A column expression inside an operator of strength `outer`. -/
def expression (d : Dialect) (frames : List Frame) (outer : Nat) (n : Node) : Layout :=
  match _h : n.kind with
  | .null => text "NULL"
  | .truth value => text (d.truth value)
  | .bind param => piece (.bind n param)
  | .column name source isLiteral => column d name source isLiteral
  | .text sql => text sql
  | .textualSelect sql _ => parenthesized (expression d frames 0 sql)
  | .unary op operand =>
    parenthesizedIf (op.precedence < outer)
      (text (unaryMark op) ++ expression d frames (operandStrength op) operand)
  | .binary left op right =>
    match d.spelling op with
    | none => fail (.operatorUnsupported op.sql d.name)
    | some (.call name) =>
      text name ++
        parenthesized (expression d frames 0 left ++ text ", " ++ expression d frames 0 right)
    | some (.negated symbol) =>
      parenthesizedIf (UnaryOp.not.precedence < outer)
        (text "NOT " ++ parenthesized (operation d frames left op symbol right))
    | some (.between symbol) =>
      parenthesizedIf (op.precedence < outer) (operation d frames left op symbol right)
  | .clauseList op [] => text (noClauses d op)
  | .clauseList _ [single] => expression d frames outer single
  | .clauseList op clauses =>
    parenthesizedIf (op.precedence < outer)
      (separated op.separator (expressions d frames op.precedence clauses))
  | .grouping element => parenthesized (expression d frames 0 element)
  | .function name args =>
    text name ++ parenthesized (separated ", " (expressions d frames 0 args))
  | .cast element type =>
    match d.typeName type with
    | none => fail (.castUnsupported d.name type.name)
    | some name =>
      text "CAST" ++ parenthesized (expression d frames 0 element ++ text (" AS " ++ name))
  | .label _ element => expression d frames outer element
  | .labelReference target => labelReference d frames target
  | .textualLabelReference name => textualLabel d frames name
  | .ordering element isDescending nulls =>
    expression d frames 0 element ++ orderingSuffix isDescending nulls
  | .scalarSubquery select => parenthesized (statement d frames select)
  | .tableValued source =>
    match sourceName? d source with
    | some name => name
    | none => fail (.namelessRow source.repr)
  | .select s => parenthesized (query d frames s)
  | .compound op selects => parenthesized (compound d frames op selects)
  | .table _ | .alias _ _ | .subquery _ _ | .join _ => fail (.notAColumnExpression n.repr)
  | .insert _ | .update _ | .delete _ => fail (.embeddedModification n.kindName)
  | .deferred _ _ => fail .unresolvedDeferred
termination_by 4 * sizeOf n + 2
decreasing_by all_goals (have smaller := n.sizeOf_kind; simp [*] at smaller; omega)

/-- A binary operator between its operands. -/
def operation (d : Dialect) (frames : List Frame) (left : Node) (op : BinaryOp) (symbol : String)
    (right : Node) : Layout :=
  expression d frames op.precedence left ++ text (" " ++ symbol ++ " ") ++
    match _hb : bounds? op right with
    | some (low, high) =>
      expression d frames (op.precedence + 1) low ++ text " AND " ++
        expression d frames (op.precedence + 1) high
    | none => expression d frames (rightStrength op) right
termination_by 4 * (sizeOf left + sizeOf right)
decreasing_by
  · have : 0 < sizeOf right := Nat.zero_lt_of_lt right.sizeOf_kind
    omega
  · have := (sizeOf_bounds _hb).1
    omega
  · have := (sizeOf_bounds _hb).2
    omega
  · have : 0 < sizeOf left := Nat.zero_lt_of_lt left.sizeOf_kind
    omega

def expressions (d : Dialect) (frames : List Frame) (outer : Nat) (ns : List Node) : List Layout :=
  match ns with
  | [] => []
  | n :: rest => expression d frames outer n :: expressions d frames outer rest
termination_by 4 * sizeOf ns

end

end SqlAlgebra.Layout
