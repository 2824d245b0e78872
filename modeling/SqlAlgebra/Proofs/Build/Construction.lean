import SqlAlgebra.Build.Modification
import SqlAlgebra.Proofs.Coercion.Retention

/-!
# Constructions

The steps in which callers put statements together, as data: the operators on nodes, the row sources
that are made from others, and each clause of a SELECT, INSERT, UPDATE or DELETE.  Of every step it
is said what it coerces, what it works on besides, and which nodes it takes apart or gives up.
-/

namespace SqlAlgebra

namespace Kind

variable {x : Node}

theorem mem_children_select {s : Select Node} :
    x ∈ (select s).children ↔
      x ∈ s.columns ∨ x ∈ s.froms ∨ x ∈ s.criteria.toList ∨ x ∈ s.groupBy ∨ x ∈ s.having.toList ∨
        x ∈ s.orderBy ∨ x ∈ s.limit.toList ∨ x ∈ s.offset.toList := by
  simp [children, Select.children]

theorem mem_children_insert {s : Insert Node} :
    x ∈ (insert s).children ↔
      x = s.table ∨ x ∈ s.values.map Prod.snd ∨ x ∈ (s.source.map Prod.snd).toList ∨
        x ∈ s.returning := by
  simp only [children, List.mem_cons, List.mem_append, or_assoc]

theorem mem_children_update {s : Update Node} :
    x ∈ (update s).children ↔
      x = s.table ∨ x ∈ s.values.map Prod.snd ∨ x ∈ s.criteria.toList ∨ x ∈ s.returning := by
  simp only [children, List.mem_cons, List.mem_append, or_assoc]

theorem mem_children_delete {s : Delete Node} :
    x ∈ (delete s).children ↔ x = s.table ∨ x ∈ s.criteria.toList ∨ x ∈ s.returning := by
  simp only [children, List.mem_cons, List.mem_append]

end Kind

/-- What a step works on and gives: a node, or a statement that is being put together. -/
inductive Workpiece where
  | node (node : Node)
  | select (draft : SelectDraft)
  | insert (draft : InsertDraft)
  | update (draft : UpdateDraft)
  | delete (draft : DeleteDraft)

namespace Workpiece

/-- What was reported about the workpiece itself. -/
def diagnostics : Workpiece → List Diagnostic
  | .node n => n.diagnostics
  | .select draft => draft.diagnostics
  | .insert draft => draft.diagnostics
  | .update draft => draft.diagnostics
  | .delete draft => draft.diagnostics

def children : Workpiece → List Node
  | .node n => n.children
  | .select draft => (Kind.select draft.select).children
  | .insert draft => (Kind.insert draft.insert).children
  | .update draft => (Kind.update draft.update).children
  | .delete draft => (Kind.delete draft.delete).children

/-- Whether something was reported about a workpiece or anywhere below it. -/
def Reports (w : Workpiece) (d : Diagnostic) : Prop :=
  d ∈ w.diagnostics ∨ ∃ c ∈ w.children, c.Reports d

theorem reports_node {n : Node} {d : Diagnostic} : (node n).Reports d ↔ n.Reports d :=
  Node.reports_iff.symm

end Workpiece

namespace Node

/-- Whether a node is a list of clauses that are joined by an operator. -/
def isListOf (op : ListOp) (n : Node) : Bool :=
  match n.kind with
  | .clauseList inner _ => inner = op
  | _ => false

/-- Whether the opposite of a node is a comparison by the opposite operator. -/
def isOpposable (n : Node) : Bool :=
  match n.kind with
  | .binary _ op _ => op.negate.isSome
  | _ => false

def isOrdering (n : Node) : Bool :=
  match n.kind with
  | .ordering _ _ _ => true
  | _ => false

/-- The key that a node gives a column of INSERT or UPDATE. -/
def columnKey? (n : Node) : Option String :=
  match n.kind with
  | .column name _ _ => some name
  | .label name _ => name
  | _ => none

end Node

/-- The column of INSERT or UPDATE that an input is about. -/
def Input.columnKey? (input : Input) : Option String :=
  match input with
  | .string s => some s
  | _ => input.operands.head?.bind Node.columnKey?

/-- A step that a caller takes: an operator, a row source, or a clause of a statement. -/
inductive Construction where
  | junction (op : ListOp) (function : String) (clauses : List Input)
  | negation (clause : Input)
  | call (name : String) (args : List Input)
  | cast (value : Input) (type : SqlType)
  | castNode (element : Node) (type : SqlType)
  | anyRow (select : Node)
  | compare (left : Node) (op : BinaryOp) (right : Input)
  | arithmetic (left : Node) (op : BinaryOp) (right : Input)
  | membership (left : Node) (op : BinaryOp) (right : Input)
  | between (left : Node) (low high : Input)
  | againstNull (left : Node) (op : BinaryOp)
  | unary (operand : Node) (op : UnaryOp)
  | label (element : Node) (name : Input)
  | anonymousLabel (element : Node)
  | ordered (element : Node) (isDescending : Option Bool) (nulls : Option NullsOrder)
  | boundColumn (source : Node) (name : String) (type : SqlType)
  | selectFrom (source : Node)
  | subquery (select : Node) (name : Option String)
  | aliased (source : Node) (name : Option String)
  | scalarSubquery (select : Node)
  | tableValued (source : Node)
  | joined (left : Node) (target on : Input) (kind : JoinKind)
  | compound (op : SetOp) (selects : List Input)
  | resume (select : Node)
  | columns (draft : SelectDraft) (inputs : List Input)
  | source (draft : SelectDraft) (input : Input)
  | join (draft : SelectDraft) (target on : Input) (kind : JoinKind)
  | filter (draft : SelectDraft) (clause : Input)
  | having (draft : SelectDraft) (clause : Input)
  | groupBy (draft : SelectDraft) (clauses : List Input)
  | orderBy (draft : SelectDraft) (clauses : List Input)
  | limit (draft : SelectDraft) (input : Input)
  | offset (draft : SelectDraft) (input : Input)
  | distinct (draft : SelectDraft)
  | correlate (draft : SelectDraft) (enabled : Bool)
  | select (draft : SelectDraft)
  | insertInto (table : Input)
  | value (draft : InsertDraft) (column value : Input)
  | fromSelect (draft : InsertDraft) (columns : List Input) (select : Input)
  | returningInserted (draft : InsertDraft) (columns : List Input)
  | insert (draft : InsertDraft)
  | updateOf (table : Input)
  | set (draft : UpdateDraft) (column value : Input)
  | filterUpdated (draft : UpdateDraft) (clause : Input)
  | returningUpdated (draft : UpdateDraft) (columns : List Input)
  | update (draft : UpdateDraft)
  | deleteFrom (table : Input)
  | filterDeleted (draft : DeleteDraft) (clause : Input)
  | returningDeleted (draft : DeleteDraft) (columns : List Input)
  | delete (draft : DeleteDraft)

namespace Construction

/-- The step itself. -/
def run : Construction → Build Workpiece
  | .junction op function clauses => .node <$> Build.junction op function clauses
  | .negation clause => .node <$> Build.negation clause
  | .call name args => .node <$> Build.call name args
  | .cast x type => .node <$> Build.cast x type
  | .castNode n type => .node <$> Build.castNode n type []
  | .anyRow n => .node <$> Build.exists n
  | .compare left op right => .node <$> left.compare op right
  | .arithmetic left op right => .node <$> left.arithmetic op right
  | .membership left op right => .node <$> left.membership op right
  | .between left low high => .node <$> left.between low high
  | .againstNull left op => .node <$> left.againstNull op
  | .unary operand op => .node <$> operand.unary op
  | .label n name => .node <$> n.label name
  | .anonymousLabel n => .node <$> n.anonymousLabel
  | .ordered n isDescending nulls => .node <$> n.ordered isDescending nulls
  | .boundColumn n name type => .node <$> n.boundColumn name type
  | .selectFrom n => .node <$> n.select
  | .subquery n name => .node <$> n.subquery name
  | .aliased n name => .node <$> n.aliased name
  | .scalarSubquery n => .node <$> n.scalarSubquery
  | .tableValued n => .node <$> n.tableValued
  | .joined left target on kind => .node <$> left.joined target on kind
  | .compound op inputs => .node <$> Build.compound op inputs
  | .resume n => .select <$> SelectDraft.ofNode n
  | .columns draft inputs => .select <$> draft.columns inputs
  | .source draft input => .select <$> draft.source input
  | .join draft target on kind => .select <$> draft.join target on kind
  | .filter draft clause => .select <$> draft.filter clause
  | .having draft clause => .select <$> draft.having clause
  | .groupBy draft clauses => .select <$> draft.groupBy clauses
  | .orderBy draft clauses => .select <$> draft.orderBy clauses
  | .limit draft input => .select <$> draft.limit input
  | .offset draft input => .select <$> draft.offset input
  | .distinct draft => pure (.select draft.distinct)
  | .correlate draft enabled => pure (.select (draft.correlate enabled))
  | .select draft => .node <$> draft.build
  | .insertInto table => .insert <$> InsertDraft.start table
  | .value draft column x => .insert <$> draft.value column x
  | .fromSelect draft inputs x => .insert <$> draft.fromSelect inputs x
  | .returningInserted draft inputs => .insert <$> draft.returning inputs
  | .insert draft => .node <$> draft.build
  | .updateOf table => .update <$> UpdateDraft.start table
  | .set draft column x => .update <$> draft.set column x
  | .filterUpdated draft clause => .update <$> draft.filter clause
  | .returningUpdated draft inputs => .update <$> draft.returning inputs
  | .update draft => .node <$> draft.build
  | .deleteFrom table => .delete <$> DeleteDraft.start table
  | .filterDeleted draft clause => .delete <$> draft.filter clause
  | .returningDeleted draft inputs => .delete <$> draft.returning inputs
  | .delete draft => .node <$> draft.build

/-- What a step works on besides what it coerces. -/
def pieces : Construction → List Workpiece
  | .castNode n _ | .anyRow n | .compare n _ _ | .arithmetic n _ _ | .membership n _ _
  | .between n _ _ | .againstNull n _ | .unary n _ | .label n _ | .anonymousLabel n | .ordered n _ _
  | .boundColumn n _ _ | .selectFrom n | .subquery n _ | .aliased n _ | .scalarSubquery n
  | .tableValued n | .joined n _ _ _ | .resume n => [.node n]
  | .columns draft _ | .source draft _ | .join draft _ _ _ | .filter draft _ | .having draft _
  | .groupBy draft _ | .orderBy draft _ | .limit draft _ | .offset draft _ | .distinct draft
  | .correlate draft _ | .select draft => [.select draft]
  | .value draft _ _ | .fromSelect draft _ _ | .returningInserted draft _ | .insert draft =>
    [.insert draft]
  | .set draft _ _ | .filterUpdated draft _ | .returningUpdated draft _ | .update draft =>
    [.update draft]
  | .filterDeleted draft _ | .returningDeleted draft _ | .delete draft => [.delete draft]
  | _ => []

/-- The places of an assignment to a column of a table: its key, and its value, which takes the type
of the column. -/
def assignment (table : Node) (column x : Input) : List (Site × Input) :=
  let type := (column.columnKey?.bind table.columnType?).filter fun type => !type.isNull
  [(⟨.dmlColumn, { asKey := true, argname := some "column" }⟩, column),
    (⟨.expressionElement, { name := column.columnKey?, isCrud := true, type := type }⟩, x)]

/-- What a step coerces, in the order in which it does. -/
def coercions : Construction → List (Site × Input)
  | .junction _ _ clauses =>
    clauses.map fun clause => (⟨.whereHaving, { argname := some "clauses" }⟩, clause)
  | .negation clause => [(⟨.whereHaving, {}⟩, clause)]
  | .call _ args => args.map fun arg => (⟨.expressionElement, {}⟩, arg)
  | .cast x _ => [(⟨.expressionElement, {}⟩, x)]
  | .compare left op right =>
    if right.isNone then []
    else [(⟨.binaryElement, { left := some left, operator := some op }⟩, right)]
  | .arithmetic left op right =>
    [(⟨.binaryElement, { left := some left, operator := some op }⟩, right)]
  | .membership left op right =>
    [(⟨.inElement, { left := some left, operator := some op }⟩, right)]
  | .between left low high =>
    [(⟨.binaryElement, { left := some left, operator := some .between }⟩, low),
      (⟨.binaryElement, { left := some left, operator := some .between }⟩, high)]
  | .label _ name => [(⟨.truncatedLabel, { argname := some "name" }⟩, name)]
  | .joined _ target on _ | .join _ target on _ =>
    [(⟨.joinTarget, { argname := some "target" }⟩, target),
      (⟨.onClause, { argname := some "onclause" }⟩, on)]
  | .compound _ inputs =>
    inputs.map fun input => (⟨.compoundElement, { argname := some "selects" }⟩, input)
  | .columns _ inputs =>
    inputs.map fun input => (⟨.columnsClause, { argname := some "columns" }⟩, input)
  | .source _ input => [(⟨.fromClause, { argname := some "from" }⟩, input)]
  | .filter _ clause | .filterUpdated _ clause | .filterDeleted _ clause =>
    [(⟨.whereHaving, { argname := some "whereclause" }⟩, clause)]
  | .having _ clause => [(⟨.whereHaving, { argname := some "having" }⟩, clause)]
  | .groupBy _ clauses =>
    clauses.map fun clause => (⟨.groupBy, { argname := some "group_by" }⟩, clause)
  | .orderBy _ clauses =>
    clauses.map fun clause => (⟨.orderBy, { argname := some "order_by" }⟩, clause)
  | .limit _ input => [(⟨.limitOffset, { argname := some "limit" }⟩, input)]
  | .offset _ input => [(⟨.limitOffset, { argname := some "offset" }⟩, input)]
  | .insertInto table | .updateOf table | .deleteFrom table =>
    [(⟨.dmlTable, { argname := some "table" }⟩, table)]
  | .value draft column x => assignment draft.insert.table column x
  | .set draft column x => assignment draft.update.table column x
  | .fromSelect _ inputs x =>
    inputs.map (fun input => (⟨.dmlColumn, { asKey := true, argname := some "names" }⟩, input)) ++
      [(⟨.dmlSelect, { argname := some "select" }⟩, x)]
  | .returningInserted _ inputs | .returningUpdated _ inputs | .returningDeleted _ inputs =>
    inputs.map fun input => (⟨.columnsClause, { argname := some "returning" }⟩, input)
  | _ => []

/-- The nodes that are handed over in what a step coerces. -/
def handed (c : Construction) : List Node :=
  c.coercions.flatMap fun place => place.2.operandsAt place.1.role

/-- The nodes of which a step takes something out that goes into its result. -/
def dissolved (c : Construction) : List Node :=
  c.coercions.flatMap fun place => place.2.operands.filter place.1.role.dissolves

/-- What a step is given: what it works on, and the nodes that it coerces. -/
def operands (c : Construction) : List Workpiece :=
  c.pieces ++ (c.handed ++ c.dissolved).map .node

/-- The nodes that a step takes apart: what they hold goes into the result, they do not. -/
def split : Construction → List Node
  | .junction op _ clauses =>
    (clauses.flatMap (·.operandsAt .whereHaving)).filter (·.isListOf op)
  | .negation clause => (clause.operandsAt .whereHaving).filter (·.isOpposable)
  | .ordered n _ _ => if n.isOrdering then [n] else []
  | .aliased n _ => if n.isAliased then [n] else []
  | .filter draft _ => draft.select.criteria.toList.filter (·.isListOf .and)
  | .having draft _ => draft.select.having.toList.filter (·.isListOf .and)
  | .filterUpdated draft _ => draft.update.criteria.toList.filter (·.isListOf .and)
  | .filterDeleted draft _ => draft.delete.criteria.toList.filter (·.isListOf .and)
  | _ => []

/-- The nodes that do not go into the result of a step themselves, only what they hold: those that
it takes apart, and the wrappers that its coercions take off. -/
def opened (c : Construction) : List Node :=
  c.split ++
    c.coercions.flatMap fun place => (place.2.operandsAt place.1.role).filter place.1.role.unwraps

/-- Whether a diagnostic is on a node that a step opens, or anywhere in one that it dissolves. -/
def Exposes (c : Construction) (d : Diagnostic) : Prop :=
  (∃ a ∈ c.opened, d ∈ a.diagnostics) ∨ ∃ a ∈ c.dissolved, a.Reports d

/-- The values of a statement that a step replaces by others. -/
def replaced : Construction → List Node
  | .limit draft _ => draft.select.limit.toList
  | .offset draft _ => draft.select.offset.toList
  | .value draft column _ =>
    (draft.insert.values.filter fun pair => some pair.1 = column.columnKey?).map Prod.snd
  | .set draft column _ =>
    (draft.update.values.filter fun pair => some pair.1 = column.columnKey?).map Prod.snd
  | .fromSelect draft _ _ => (draft.insert.source.map Prod.snd).toList
  | _ => []

end Construction

end SqlAlgebra
