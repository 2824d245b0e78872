import SqlAlgebra.Error
import SqlAlgebra.Survey.Key
import SqlAlgebra.Tree.Class

/-!
# Surveys

One walk over a tree collects all that compiling it takes: its key, its bound parameters in the order of
their slots, the identifiers that its author wrote, and what was reported while its nodes were built.
FROM elements and labels are told apart by identity: where one is met again, the key has its ordinal, and
the walk does not go into it a second time.
-/

namespace SqlAlgebra

structure Survey where
  buffer : KeyBuffer
  /-- The nodes that were met. -/
  visited : List Identity
  /-- The FROM elements and labels that were met, the last one first; an ordinal counts those before. -/
  defined : List Identity
  /-- How many elements without a name were met. -/
  anonymous : Nat
  /-- The bound parameters, each at its slot. -/
  binds : List Node
  identifiers : List String
  diagnostics : List Diagnostic

namespace Survey

def start (bound : Nat) : Survey := ⟨.empty bound, [], [], 0, [], [], []⟩

def push (s : Survey) (element : KeyElement) : Survey := { s with buffer := s.buffer.push element }

def pushAll (s : Survey) (elements : List KeyElement) : Survey := elements.foldl push s

def spelling (s : Survey) (text : String) : Survey := s.push (.spelling text)

/-- Takes down an identifier that the author of the tree wrote. -/
def identifier (s : Survey) (name : String) : Survey :=
  { s with
    identifiers := if s.identifiers.contains name then s.identifiers else name :: s.identifiers
    buffer := s.buffer.push (.spelling name) }

def identifier? (s : Survey) (name : Option String) : Survey :=
  match name with
  | some name => s.identifier name
  | none => s.push (.flag false)

/-- Takes down a name, or that there is none. -/
def nameOrAnonymous (s : Survey) (name : Option String) : Survey :=
  match name with
  | some name => s.identifier name
  | none => { s with anonymous := s.anonymous + 1 }.push (.anonymous (s.anonymous + 1))

def columnShapes (s : Survey) (columns : List ColumnShape) : Survey :=
  columns.foldl (fun s column => (s.identifier column.1).push (.type column.2))
    (s.push (.count columns.length))

/-- The slot of a bound parameter. -/
def slot? (s : Survey) (n : Node) : Option Nat := s.binds.findIdx? (·.isSame n)

/-- Gives a bound parameter a slot, unless it has one. -/
def slotted (s : Survey) (n : Node) : Survey :=
  match s.slot? n with
  | some slot => s.push (.slot slot)
  | none => { s with binds := s.binds ++ [n] }.push (.slot s.binds.length)

/-- Takes down what was reported about a node, the first time that it is met. -/
def visit (s : Survey) (n : Node) : Survey :=
  if s.visited.contains n.id then s
  else
    { s with
      visited := n.id :: s.visited
      diagnostics := s.diagnostics ++ n.diagnostics }

/-- The ordinal of a FROM element or label that was met. -/
def ordinal? (s : Survey) (n : Node) : Option Nat :=
  (s.defined.findIdx? (· == n.id)).map fun i => s.defined.length - 1 - i

/-- Gives a FROM element or label its ordinal. -/
def define (s : Survey) (n : Node) : Survey :=
  { s with defined := n.id :: s.defined }.push (.definition s.defined.length)

end Survey

namespace Node

/-- Whether the nodes of a kind are told apart by identity. -/
def hasOrdinal (n : Node) : Bool :=
  n.isFromClause ||
    match n.kind with
    | .label _ _ => true
    | _ => false

mutual

/-- The survey with a node and all below it. -/
def survey (s : Survey) (n : Node) : Survey :=
  match if n.hasOrdinal then s.ordinal? n else none with
  | some ordinal => s.push (.reference ordinal)
  | none =>
    let s := if n.hasOrdinal then s.define n else s
    surveyKind ((s.visit n).push (.kind n.kindName)) n
termination_by 3 * sizeOf n + 1

/-- The survey with what a node holds, after its kind. -/
def surveyKind (s : Survey) (n : Node) : Survey :=
  match _h : n.kind with
  | .null | .truth _ => s
  | .bind b =>
    ((s.slotted n).identifier? b.key).pushAll
      [.flag b.isUnique, .flag b.isExpanding, .type n.type]
  | .column name source isLiteral =>
    surveyOption "table" ((s.identifier name).pushAll [.flag isLiteral, .type n.type]) source
  | .text sql => s.spelling sql
  | .textualSelect sql columns => survey (s.columnShapes columns) sql
  | .unary op operand => survey (s.spelling op.sql) operand
  | .binary left op right => survey (survey (s.spelling op.sql) left) right
  | .clauseList op clauses => surveyGroup "clauses" (s.spelling op.separator) clauses
  | .grouping element => survey s element
  | .labelReference element => survey s element
  | .scalarSubquery element => survey s element
  | .tableValued element => survey s element
  | .function name args => surveyGroup "args" (s.spelling name) args
  | .cast element type => survey (s.push (.type type)) element
  | .label name element => survey (s.nameOrAnonymous name) element
  | .textualLabelReference name => s.identifier name
  | .ordering element isDescending nulls =>
    let s := s.push (.flag isDescending)
    survey
      (match nulls with
        | some order => s.spelling order.name
        | none => s.push (.flag false))
      element
  | .table t => ((s.identifier t.name).identifier? t.schema).columnShapes t.columns
  | .alias element name => survey (s.nameOrAnonymous name) element
  | .subquery element name => survey (s.nameOrAnonymous name) element
  | .join ⟨left, right, on, kind⟩ => survey (survey (survey (s.spelling kind.sql) left) right) on
  | .select ⟨columns, froms, criteria, groupBy, having, orderBy, limit, offset, distinct, correlate⟩ =>
    let s := s.pushAll [.flag distinct, .flag correlate]
    let s := surveyGroup "columns" s columns
    let s := surveyGroup "froms" s froms
    let s := surveyOption "where" s criteria
    let s := surveyGroup "group_by" s groupBy
    let s := surveyOption "having" s having
    let s := surveyGroup "order_by" s orderBy
    let s := surveyOption "limit" s limit
    surveyOption "offset" s offset
  | .compound op selects => surveyGroup "selects" (s.spelling op.sql) selects
  | .insert ⟨target, values, source, returning⟩ =>
    let s := surveyPairs "values" (survey s target) values
    let s := s.push (.opening "select")
    let s :=
      match _hs : source with
      | some (columns, select) =>
        survey (columns.foldl Survey.identifier (s.push (.count columns.length))) select
      | none => s
    surveyGroup "returning" (s.push .closing) returning
  | .update ⟨target, values, criteria, returning⟩ =>
    let s := surveyPairs "values" (survey s target) values
    surveyGroup "returning" (surveyOption "where" s criteria) returning
  | .delete ⟨target, criteria, returning⟩ =>
    surveyGroup "returning" (surveyOption "where" (survey s target) criteria) returning
  | .deferred lambda role =>
    (s.spelling ("Lambda(" ++ toString lambda.id ++ ")")).spelling role.name
termination_by 3 * sizeOf n
decreasing_by all_goals (have smaller := n.sizeOf_kind; simp [*] at smaller; omega)

def surveyAll (s : Survey) (ns : List Node) : Survey :=
  match ns with
  | [] => s
  | n :: rest => surveyAll (survey s n) rest
termination_by 3 * sizeOf ns

/-- The survey with a list of nodes. -/
def surveyGroup (name : String) (s : Survey) (ns : List Node) : Survey :=
  (surveyAll (s.pushAll [.opening name, .count ns.length]) ns).push .closing
termination_by 3 * sizeOf ns + 1

/-- The survey with a node that may be missing. -/
def surveyOption (name : String) (s : Survey) (n : Option Node) : Survey :=
  let s := s.push (.opening name)
  let s :=
    match _h : n with
    | some n => survey s n
    | none => s
  s.push .closing
termination_by 3 * sizeOf n

def surveyEach (s : Survey) (values : List (String × Node)) : Survey :=
  match values with
  | [] => s
  | (key, n) :: rest => surveyEach (survey (s.identifier key) n) rest
termination_by 3 * sizeOf values

/-- The survey with a list of nodes under keys. -/
def surveyPairs (name : String) (s : Survey) (values : List (String × Node)) : Survey :=
  (surveyEach (s.pushAll [.opening name, .count values.length]) values).push .closing
termination_by 3 * sizeOf values + 1

end

/-- The survey of a tree, with room for a key of at most `bound` elements. -/
def surveyed (n : Node) (bound : Nat) : Survey := survey (.start bound) n

/-- The size past which a key is given up, unless something else is said. -/
def defaultKeyBound : Nat := 10000

/-- The key of a tree, if it is not too large. -/
def key? (n : Node) : Option Key := (n.surveyed defaultKeyBound).buffer.key?

end Node

namespace Survey

/-- Whether two parameters can go under one name. -/
def agree (a b : BindParam) : Bool := a.isExpanding == b.isExpanding && a.value.same b.value

/-- Checks that parameters which keep the name they were given agree with the first of that name. -/
def checkNames : List (String × BindParam) → List Node → Except CompileFault Unit
  | _, [] => .ok ()
  | first, n :: rest =>
    match n.kind with
    | .bind b =>
      match b.key with
      | some key =>
        if b.isUnique then checkNames first rest
        else
          match first.lookup key with
          | none => checkNames ((key, b) :: first) rest
          | some other => if agree other b then checkNames first rest else .error (.conflictingBinds key)
      | none => checkNames first rest
    | _ => checkNames first rest

/-- Whether the names of the bound parameters are unambiguous. -/
def checkBindNames (s : Survey) : Except CompileFault Unit := checkNames [] s.binds

end Survey

end SqlAlgebra
