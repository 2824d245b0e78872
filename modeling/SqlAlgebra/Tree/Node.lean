import SqlAlgebra.Diagnostic
import SqlAlgebra.Operator
import SqlAlgebra.SqlType

/-!
# Nodes

A statement is a tree of nodes in which one node may stand at several places.  Whether two places hold
the same node matters: two references to one table are one FROM element, two references to equal tables
are two.  So a node carries its identity, and two nodes are the same node when their identities are
equal.  `Build` hands out identities; a tree in which each identity belongs to one node is what it
builds, and `IsCoherent` says so.

`Kind` is the shape of a node over the type of its children.  `children` lists them in the order of
their places, and recursion over a tree goes down along `children`.
-/

namespace SqlAlgebra

/-- The identity of a node, or of the handle on a deferred expression. -/
abbrev Identity := Nat

/-- A column of a row shape: its name and its type. -/
abbrev ColumnShape := String × SqlType

/-- A handle on a deferred expression.  The caller keeps the factories that make the expressions; the
handle names one of them, and two handles on one factory are still two handles. -/
structure Lambda where
  id : Identity
  factory : Nat
deriving DecidableEq

/-- A bound parameter. -/
structure BindParam where
  /-- The name given by the caller; a parameter without one is named when it is rendered. -/
  key : Option String
  value : Value
  /-- A unique parameter gets a name of its own, made from its key. -/
  isUnique : Bool
  /-- Stands for one placeholder per element of its value. -/
  isExpanding : Bool
  /-- Made for a value of an INSERT or UPDATE. -/
  isCrud : Bool

/-- A table; one declared without columns has any column. -/
structure Table where
  name : String
  schema : Option String
  columns : List ColumnShape

structure Join (α : Type) where
  left : α
  right : α
  on : α
  kind : JoinKind

structure Select (α : Type) where
  columns : List α
  froms : List α
  criteria : Option α
  groupBy : List α
  having : Option α
  orderBy : List α
  limit : Option α
  offset : Option α
  isDistinct : Bool
  /-- Leave out FROM elements that an enclosing statement provides. -/
  autoCorrelate : Bool

namespace Select

variable {α : Type}

/-- The children of a SELECT in the order of their places. -/
def children (s : Select α) : List α :=
  s.columns ++ s.froms ++ s.criteria.toList ++ s.groupBy ++ s.having.toList ++ s.orderBy ++
    s.limit.toList ++ s.offset.toList

end Select

structure Insert (α : Type) where
  table : α
  values : List (String × α)
  /-- The columns and the SELECT whose rows are inserted. -/
  source : Option (List String × α)
  returning : List α

structure Update (α : Type) where
  table : α
  values : List (String × α)
  criteria : Option α
  returning : List α

structure Delete (α : Type) where
  table : α
  criteria : Option α
  returning : List α

/-- The shape of a node over the type of its children. -/
inductive Kind (α : Type) where
  | null
  | truth (value : Bool)
  | bind (bind : BindParam)
  /-- A column, of a FROM element or of none.  A literal one is written as it is. -/
  | column (name : String) (table : Option α) (isLiteral : Bool)
  /-- SQL text, written as it is. -/
  | text (sql : String)
  /-- SQL text taken for a SELECT with these columns. -/
  | textualSelect (text : α) (columns : List ColumnShape)
  | unary (op : UnaryOp) (operand : α)
  | binary (left : α) (op : BinaryOp) (right : α)
  | clauseList (op : ListOp) (clauses : List α)
  | grouping (element : α)
  | function (name : String) (args : List α)
  | cast (element : α) (type : SqlType)
  /-- An element under a name; without one it is named when it is rendered. -/
  | label (name : Option String) (element : α)
  /-- A label, or an ordering of one, referred to from ORDER BY. -/
  | labelReference (element : α)
  /-- A bare name of a column of the enclosing SELECT. -/
  | textualLabelReference (name : String)
  | ordering (element : α) (isDescending : Bool) (nulls : Option NullsOrder)
  | table (table : Table)
  | alias (element : α) (name : Option String)
  | subquery (element : α) (name : Option String)
  | scalarSubquery (element : α)
  /-- The whole row of a FROM element as a column expression. -/
  | tableValued (element : α)
  | join (join : Join α)
  | select (select : Select α)
  | compound (op : SetOp) (selects : List α)
  | insert (insert : Insert α)
  | update (update : Update α)
  | delete (delete : Delete α)
  /-- An expression that is made when the statement is compiled. -/
  | deferred (lambda : Lambda) (role : Role)

namespace Kind

variable {α : Type}

/-- The children of a shape in the order of their places. -/
def children : Kind α → List α
  | .null | .truth _ | .bind _ | .text _ | .textualLabelReference _ | .table _ | .deferred _ _ => []
  | .column _ source _ => source.toList
  | .textualSelect sql _ => [sql]
  | .unary _ operand => [operand]
  | .binary left _ right => [left, right]
  | .clauseList _ clauses => clauses
  | .function _ args => args
  | .compound _ selects => selects
  | .grouping e | .labelReference e | .scalarSubquery e | .tableValued e | .cast e _ | .label _ e
  | .ordering e _ _ | .alias e _ | .subquery e _ => [e]
  | .join j => [j.left, j.right, j.on]
  | .select s => s.children
  | .insert i =>
    i.table :: (i.values.map Prod.snd ++ (i.source.map Prod.snd).toList ++ i.returning)
  | .update u => u.table :: (u.values.map Prod.snd ++ u.criteria.toList ++ u.returning)
  | .delete d => d.table :: (d.criteria.toList ++ d.returning)

end Kind

structure Node where
  id : Identity
  kind : Kind Node
  /-- The type that the node evaluates to. -/
  type : SqlType
  /-- What callers note on a node, in the order of the keys; it never shows in rendered SQL. -/
  annotations : List (String × String)
  /-- What was reported while this node, not its children, was built. -/
  diagnostics : List Diagnostic

theorem sizeOf_of_mem_list {c : Node} {xs : List Node} (h : c ∈ xs) : sizeOf c < sizeOf xs :=
  List.sizeOf_lt_of_mem h

theorem sizeOf_of_mem_pairs {c : Node} {key : String} {xs : List (String × Node)}
    (h : (key, c) ∈ xs) : sizeOf c < sizeOf xs := by
  have := List.sizeOf_lt_of_mem h
  simp at this
  omega

/-- A child is smaller than its SELECT. -/
theorem Select.sizeOf_child {c : Node} {s : Select Node} (h : c ∈ s.children) :
    sizeOf c < sizeOf s := by
  have option {o : Option Node} (h : o = some c) : sizeOf c < sizeOf o := by subst h; simp
  rcases s with ⟨columns, froms, criteria, groupBy, having, orderBy, limit, offset, d, a⟩
  simp [Select.children] at h
  have : sizeOf c < sizeOf columns + sizeOf froms + sizeOf criteria + sizeOf groupBy +
      sizeOf having + sizeOf orderBy + sizeOf limit + sizeOf offset := by
    rcases h with h | h | h | h | h | h | h | h
    · have := sizeOf_of_mem_list h; omega
    · have := sizeOf_of_mem_list h; omega
    · have := option h; omega
    · have := sizeOf_of_mem_list h; omega
    · have := option h; omega
    · have := sizeOf_of_mem_list h; omega
    · have := option h; omega
    · have := option h; omega
  simp
  omega

namespace Node

def children (n : Node) : List Node := n.kind.children

theorem sizeOf_kind (n : Node) : sizeOf n.kind < sizeOf n := by
  rcases n with ⟨id, kind, type, annotations, diagnostics⟩
  simp
  omega

/-- A child is smaller than its node, so going down along `children` ends. -/
theorem sizeOf_child {c n : Node} (h : c ∈ n.children) : sizeOf c < sizeOf n := by
  have option {o : Option Node} (h : o = some c) : sizeOf c < sizeOf o := by subst h; simp
  suffices sizeOf c < sizeOf n.kind from Nat.lt_trans this n.sizeOf_kind
  rcases n with ⟨id, kind, type, annotations, diagnostics⟩
  cases kind <;> simp [children, Kind.children] at h
  case column name table isLiteral =>
    have := option h
    simp
    omega
  case binary left op right =>
    rcases h with h | h <;> (subst h; simp only [Kind.binary.sizeOf_spec]; omega)
  case clauseList op clauses =>
    have := sizeOf_of_mem_list h
    simp
    omega
  case function name args =>
    have := sizeOf_of_mem_list h
    simp
    omega
  case compound op selects =>
    have := sizeOf_of_mem_list h
    simp
    omega
  case join j =>
    rcases j with ⟨left, right, on, kind⟩
    rcases h with h | h | h <;> (subst h; simp; omega)
  case select s =>
    have := Select.sizeOf_child h
    simp
    omega
  case insert i =>
    rcases i with ⟨table, values, source, returning⟩
    dsimp only at h
    rcases h with h | ⟨k, h⟩ | ⟨k, h⟩ | h
    · subst h; simp; omega
    · have := sizeOf_of_mem_pairs h
      simp
      omega
    · subst h
      simp
      omega
    · have := sizeOf_of_mem_list h
      simp
      omega
  case update u =>
    rcases u with ⟨table, values, criteria, returning⟩
    dsimp only at h
    rcases h with h | ⟨k, h⟩ | h | h
    · subst h; simp; omega
    · have := sizeOf_of_mem_pairs h
      simp
      omega
    · have := option h
      simp
      omega
    · have := sizeOf_of_mem_list h
      simp
      omega
  case delete d =>
    rcases d with ⟨table, criteria, returning⟩
    dsimp only at h
    rcases h with h | h | h
    · subst h; simp; omega
    · have := option h
      simp
      omega
    · have := sizeOf_of_mem_list h
      simp
      omega
  all_goals
    subst h
    simp +arith

/-- Induction along `children`. -/
theorem induct {P : Node → Prop} (step : ∀ n : Node, (∀ c ∈ n.children, P c) → P n) (n : Node) :
    P n :=
  step n fun c _ => induct step c
termination_by sizeOf n
decreasing_by exact sizeOf_child ‹_›

/-- The nodes of a tree. -/
inductive Occurs (c : Node) : Node → Prop where
  | root : Occurs c c
  | deeper {d n : Node} : d ∈ n.children → Occurs c d → Occurs c n

/-- In a coherent tree an identity belongs to one node. -/
def IsCoherent (n : Node) : Prop :=
  ∀ a b, Occurs a n → Occurs b n → a.id = b.id → a = b

/-- Whether two nodes are the same node. -/
def isSame (a b : Node) : Bool := a.id == b.id

theorem Occurs.trans {a b c : Node} (hab : Occurs a b) (hbc : Occurs b c) : Occurs a c := by
  induction hbc with
  | root => exact hab
  | deeper h _ ih => exact .deeper h ih

end Node

end SqlAlgebra
