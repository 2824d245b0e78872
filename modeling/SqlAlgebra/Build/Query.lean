import SqlAlgebra.Build.Expression

/-!
# Queries

Joins, compound SELECTs, and the SELECT that is put together clause by clause.  A draft collects the
clauses and what is reported about them; building it makes the node.
-/

namespace SqlAlgebra

namespace Node

/-- A join of a FROM clause with a target. -/
def joined (left : Node) (target on : Input) (kind : JoinKind) : Build Node :=
  if left.isFromClause then do
    let (right, first) ← coerceNode .joinTarget target { argname := some "target" }
    let (on, second) ← coerceNode .onClause on { argname := some "onclause" }
    Build.reported (.join ⟨left, right, on, kind⟩) .null (first ++ second)
  else Build.fail (.leftFromRequired left.repr)

/-- One criterion more: a conjunction is extended, anything else becomes the first clause of one. -/
def conjoin (existing : Option Node) (clause : Node) : Build Node :=
  match existing with
  | none => pure clause
  | some previous =>
    Build.typed (.clauseList .and (Build.clausesUnder .and previous ++ [clause])) .boolean

end Node

/-- SELECTs combined by a set operation. -/
def Build.compound (op : SetOp) (selects : List Input) : Build Node := do
  let (nodes, diagnostics) ←
    coerceNodes .compoundElement { argname := some "selects" } selects
  if nodes.isEmpty then fail (.emptyCompound op)
  else reported (.compound op nodes) .null diagnostics

/-- A SELECT that is being put together. -/
structure SelectDraft where
  select : Select Node
  diagnostics : List Diagnostic

namespace SelectDraft

def empty : SelectDraft := ⟨.empty, []⟩

/-- A draft that goes on from a SELECT. -/
def ofNode (n : Node) : Build SelectDraft :=
  match n.kind with
  | .select s => pure ⟨s, n.diagnostics⟩
  | _ => Build.fail (.notASelect n.repr)

/-- Coerces an input to a node for a clause, and keeps what was reported. -/
def coerce (draft : SelectDraft) (role : Role) (input : Input) (argname : String) :
    Build (Node × SelectDraft) := do
  let (n, diagnostics) ← coerceNode role input { argname := some argname }
  pure (n, { draft with diagnostics := draft.diagnostics ++ diagnostics })

def column (draft : SelectDraft) (input : Input) : Build SelectDraft := do
  let (n, draft) ← draft.coerce .columnsClause input "columns"
  pure { draft with select.columns := draft.select.columns ++ [n] }

def columns (draft : SelectDraft) (inputs : List Input) : Build SelectDraft :=
  inputs.foldlM column draft

def source (draft : SelectDraft) (input : Input) : Build SelectDraft := do
  let (n, draft) ← draft.coerce .fromClause input "from"
  pure { draft with select.froms := draft.select.froms ++ [n] }

/-- The FROM element that the first of some columns belongs to, or is. -/
def leftmost (columns : List Node) : Option Node :=
  columns.findSome? fun c =>
    match c.kind with
    | .column _ source _ => source
    | _ => if c.isFromClause then some c else none

/-- Joins a target to the last FROM element; without one, to the element of the first column. -/
def join (draft : SelectDraft) (target on : Input) (kind : JoinKind) : Build SelectDraft := do
  match draft.select.froms.getLast?.or (leftmost draft.select.columns) with
  | some left =>
    let n ← left.joined target on kind
    pure { draft with select.froms := draft.select.froms.dropLast ++ [n] }
  | none => Build.fail .nothingToJoin

/-- One more criterion of WHERE. -/
def filter (draft : SelectDraft) (clause : Input) : Build SelectDraft := do
  let (n, draft) ← draft.coerce .whereHaving clause "whereclause"
  let criteria ← Node.conjoin draft.select.criteria n
  pure { draft with select.criteria := some criteria }

/-- One more criterion of HAVING. -/
def having (draft : SelectDraft) (clause : Input) : Build SelectDraft := do
  let (n, draft) ← draft.coerce .whereHaving clause "having"
  let criteria ← Node.conjoin draft.select.having n
  pure { draft with select.having := some criteria }

def groupBy (draft : SelectDraft) (clauses : List Input) : Build SelectDraft :=
  clauses.foldlM
    (fun draft clause => do
      let (n, draft) ← draft.coerce .groupBy clause "group_by"
      pure { draft with select.groupBy := draft.select.groupBy ++ [n] })
    draft

def orderBy (draft : SelectDraft) (clauses : List Input) : Build SelectDraft :=
  clauses.foldlM
    (fun draft clause => do
      let (n, draft) ← draft.coerce .orderBy clause "order_by"
      pure { draft with select.orderBy := draft.select.orderBy ++ [n] })
    draft

/-- A number of rows, or none at all. -/
def paging (draft : SelectDraft) (input : Input) (argname : String) :
    Build (Option Node × SelectDraft) := do
  let coercion ← expect .limitOffset input { argname := some argname }
  pure
    (coercion.value.node?,
      { draft with diagnostics := draft.diagnostics ++ coercion.diagnostics })

def limit (draft : SelectDraft) (input : Input) : Build SelectDraft := do
  let (n, draft) ← draft.paging input "limit"
  pure { draft with select.limit := n }

def offset (draft : SelectDraft) (input : Input) : Build SelectDraft := do
  let (n, draft) ← draft.paging input "offset"
  pure { draft with select.offset := n }

def distinct (draft : SelectDraft) : SelectDraft := { draft with select.isDistinct := true }

def correlate (draft : SelectDraft) (enabled : Bool) : SelectDraft :=
  { draft with select.autoCorrelate := enabled }

def build (draft : SelectDraft) : Build Node :=
  Build.reported (.select draft.select) .null draft.diagnostics

end SelectDraft

end SqlAlgebra
