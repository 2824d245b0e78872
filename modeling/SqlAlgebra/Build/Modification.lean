import SqlAlgebra.Build.Query

/-!
# Modifications

INSERT, UPDATE and DELETE, put together clause by clause.  A value is coerced to the type of the column
that it is for, and a column set twice keeps the last value.
-/

namespace SqlAlgebra

/-- The table that a modification is about. -/
def Build.target (table : Input) : Build (Node × List Diagnostic) :=
  coerceNode .dmlTable table { argname := some "table" }

/-- A column of a table by its key, with the value for it as an expression. -/
def Build.assignment (table : Node) (column value : Input) :
    Build (String × Node × List Diagnostic) := do
  let (key, first) ← coerceKey .dmlColumn column { asKey := true, argname := some "column" }
  match table.columnType? key with
  | none => fail (.noSuchColumn table.repr key)
  | some type =>
    let (n, second) ←
      coerceNode .expressionElement value
        { name := some key, isCrud := true, type := if type.isNull then none else some type }
    pure (key, n, first ++ second)

/-- The assignments with one more; an assignment to the same column gives way. -/
def assign (values : List (String × Node)) (key : String) (n : Node) : List (String × Node) :=
  if values.any fun pair => pair.1 == key then
    values.map fun pair => if pair.1 == key then (key, n) else pair
  else values ++ [(key, n)]

def Build.returning (columns : List Input) : Build (List Node × List Diagnostic) :=
  coerceNodes .columnsClause { argname := some "returning" } columns

/-- One criterion more for the rows that are changed. -/
def Build.criterion (existing : Option Node) (clause : Input) :
    Build (Node × List Diagnostic) := do
  let (n, diagnostics) ← coerceNode .whereHaving clause { argname := some "whereclause" }
  let criteria ← Node.conjoin existing n
  pure (criteria, diagnostics)

structure InsertDraft where
  insert : Insert Node
  diagnostics : List Diagnostic

namespace InsertDraft

def start (table : Input) : Build InsertDraft := do
  let (n, diagnostics) ← Build.target table
  pure ⟨⟨n, [], none, []⟩, diagnostics⟩

def value (draft : InsertDraft) (column value : Input) : Build InsertDraft := do
  let (key, n, diagnostics) ← Build.assignment draft.insert.table column value
  pure
    { draft with
      insert.values := assign draft.insert.values key n
      diagnostics := draft.diagnostics ++ diagnostics }

def values (draft : InsertDraft) (pairs : List (Input × Input)) : Build InsertDraft :=
  pairs.foldlM (fun draft pair => draft.value pair.1 pair.2) draft

/-- The keys of columns, with what was reported about them. -/
def keys : List Input → Build (List String × List Diagnostic)
  | [] => pure ([], [])
  | input :: rest => do
    let (key, first) ← coerceKey .dmlColumn input { asKey := true, argname := some "names" }
    let (others, second) ← keys rest
    pure (key :: others, first ++ second)

/-- Takes the rows that are inserted from a SELECT. -/
def fromSelect (draft : InsertDraft) (columns : List Input) (select : Input) :
    Build InsertDraft := do
  let (names, first) ← keys columns
  let (n, second) ← coerceNode .dmlSelect select { argname := some "select" }
  pure
    { draft with
      insert.source := some (names, n)
      diagnostics := draft.diagnostics ++ first ++ second }

def returning (draft : InsertDraft) (columns : List Input) : Build InsertDraft := do
  let (ns, diagnostics) ← Build.returning columns
  pure
    { draft with
      insert.returning := draft.insert.returning ++ ns
      diagnostics := draft.diagnostics ++ diagnostics }

def build (draft : InsertDraft) : Build Node :=
  if draft.insert.source.isSome && !draft.insert.values.isEmpty then Build.fail .valuesWithSelect
  else Build.reported (.insert draft.insert) .null draft.diagnostics

end InsertDraft

structure UpdateDraft where
  update : Update Node
  diagnostics : List Diagnostic

namespace UpdateDraft

def start (table : Input) : Build UpdateDraft := do
  let (n, diagnostics) ← Build.target table
  pure ⟨⟨n, [], none, []⟩, diagnostics⟩

def set (draft : UpdateDraft) (column value : Input) : Build UpdateDraft := do
  let (key, n, diagnostics) ← Build.assignment draft.update.table column value
  pure
    { draft with
      update.values := assign draft.update.values key n
      diagnostics := draft.diagnostics ++ diagnostics }

def filter (draft : UpdateDraft) (clause : Input) : Build UpdateDraft := do
  let (n, diagnostics) ← Build.criterion draft.update.criteria clause
  pure
    { draft with
      update.criteria := some n
      diagnostics := draft.diagnostics ++ diagnostics }

def returning (draft : UpdateDraft) (columns : List Input) : Build UpdateDraft := do
  let (ns, diagnostics) ← Build.returning columns
  pure
    { draft with
      update.returning := draft.update.returning ++ ns
      diagnostics := draft.diagnostics ++ diagnostics }

def build (draft : UpdateDraft) : Build Node :=
  Build.reported (.update draft.update) .null draft.diagnostics

end UpdateDraft

structure DeleteDraft where
  delete : Delete Node
  diagnostics : List Diagnostic

namespace DeleteDraft

def start (table : Input) : Build DeleteDraft := do
  let (n, diagnostics) ← Build.target table
  pure ⟨⟨n, none, []⟩, diagnostics⟩

def filter (draft : DeleteDraft) (clause : Input) : Build DeleteDraft := do
  let (n, diagnostics) ← Build.criterion draft.delete.criteria clause
  pure
    { draft with
      delete.criteria := some n
      diagnostics := draft.diagnostics ++ diagnostics }

def returning (draft : DeleteDraft) (columns : List Input) : Build DeleteDraft := do
  let (ns, diagnostics) ← Build.returning columns
  pure
    { draft with
      delete.returning := draft.delete.returning ++ ns
      diagnostics := draft.diagnostics ++ diagnostics }

def build (draft : DeleteDraft) : Build Node :=
  Build.reported (.delete draft.delete) .null draft.diagnostics

end DeleteDraft

end SqlAlgebra
