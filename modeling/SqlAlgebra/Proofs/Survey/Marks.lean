import Mathlib.Data.List.Forall2
import SqlAlgebra.Survey.Walk

/-!
# What a survey takes down of a node

A survey goes over what a node holds in one fixed order.  The marks of a node are that order, laid
out as a list in which the children still stand, and a survey takes them down one by one.  Every
fact about a whole walk is a fact about one mark, carried along the list and down the tree.
-/

namespace SqlAlgebra

open Node

inductive Mark where
  | put (element : KeyElement)
  /-- An identifier that the author of the tree wrote. -/
  | name (ident : String)
  /-- An element without a name. -/
  | anonymous
  /-- The slot of a bound parameter. -/
  | slot (n : Node)
  | child (n : Node)

namespace Mark

def identifier? (name : Option String) : Mark := name.elim (.put (.flag false)) .name

def nameOrAnonymous (name : Option String) : Mark := name.elim .anonymous .name

def columnShapes (columns : List ColumnShape) : List Mark :=
  .put (.count columns.length) ::
    columns.flatMap fun column => [.name column.1, .put (.type column.2)]

/-- Elements one after the other between the marks of a group. -/
def enclosed (group : String) (marks : List Mark) : List Mark :=
  .put (.opening group) :: (marks ++ [.put .closing])

def option (group : String) (n : Option Node) : List Mark := enclosed group (n.toList.map .child)

def group (group : String) (ns : List Node) : List Mark :=
  enclosed group (.put (.count ns.length) :: ns.map .child)

def pairs (group : String) (values : List (String × Node)) : List Mark :=
  enclosed group
    (.put (.count values.length) :: values.flatMap fun value => [.name value.1, .child value.2])

/-- The columns and the SELECT that an INSERT takes its rows from. -/
def inserted (source : Option (List String × Node)) : List Mark :=
  enclosed "select"
    (source.elim [] fun source =>
      .put (.count source.1.length) :: (source.1.map .name ++ [.child source.2]))

def nullsOrder (nulls : Option NullsOrder) : Mark :=
  .put (nulls.elim (.flag false) fun order => .spelling order.name)

/-- The node of a mark that is a child. -/
def child? : Mark → Option Node
  | .child n => some n
  | _ => none

end Mark

namespace Node

/-- What a survey takes down of a node, after its kind. -/
def marks (n : Node) : List Mark :=
  match n.kind with
  | .null | .truth _ => []
  | .bind b =>
    [.slot n, .identifier? b.key, .put (.flag b.isUnique), .put (.flag b.isExpanding),
      .put (.type n.type)]
  | .column name source isLiteral =>
    [.name name, .put (.flag isLiteral), .put (.type n.type)] ++ Mark.option "table" source
  | .text sql => [.put (.spelling sql)]
  | .textualSelect sql columns => Mark.columnShapes columns ++ [.child sql]
  | .unary op operand => [.put (.spelling op.sql), .child operand]
  | .binary left op right => [.put (.spelling op.sql), .child left, .child right]
  | .clauseList op clauses => .put (.spelling op.separator) :: Mark.group "clauses" clauses
  | .grouping e | .labelReference e | .scalarSubquery e | .tableValued e => [.child e]
  | .function name args => .put (.spelling name) :: Mark.group "args" args
  | .cast e type => [.put (.type type), .child e]
  | .label name e => [.nameOrAnonymous name, .child e]
  | .textualLabelReference name => [.name name]
  | .ordering e isDescending nulls => [.put (.flag isDescending), .nullsOrder nulls, .child e]
  | .table t => [.name t.name, .identifier? t.schema] ++ Mark.columnShapes t.columns
  | .alias e name => [.nameOrAnonymous name, .child e]
  | .subquery e name => [.nameOrAnonymous name, .child e]
  | .join j => [.put (.spelling j.kind.sql), .child j.left, .child j.right, .child j.on]
  | .select s =>
    [.put (.flag s.isDistinct), .put (.flag s.autoCorrelate)] ++ (Mark.group "columns" s.columns ++
      (Mark.group "froms" s.froms ++ (Mark.option "where" s.criteria ++
        (Mark.group "group_by" s.groupBy ++ (Mark.option "having" s.having ++
          (Mark.group "order_by" s.orderBy ++ (Mark.option "limit" s.limit ++
            Mark.option "offset" s.offset)))))))
  | .compound op selects => .put (.spelling op.sql) :: Mark.group "selects" selects
  | .insert i =>
    .child i.table :: (Mark.pairs "values" i.values ++ (Mark.inserted i.source ++
      Mark.group "returning" i.returning))
  | .update u =>
    .child u.table :: (Mark.pairs "values" u.values ++ (Mark.option "where" u.criteria ++
      Mark.group "returning" u.returning))
  | .delete d =>
    .child d.table :: (Mark.option "where" d.criteria ++ Mark.group "returning" d.returning)
  | .deferred lambda role =>
    [.put (.spelling ("Lambda(" ++ toString lambda.id ++ ")")), .put (.spelling role.name)]

end Node

namespace Survey

/-- The survey with one mark more. -/
def take (s : Survey) : Mark → Survey
  | .put element => s.push element
  | .name ident => s.identifier ident
  | .anonymous => { s with anonymous := s.anonymous + 1 }.push (.anonymous (s.anonymous + 1))
  | .slot n => s.slotted n
  | .child n => Node.survey s n

def takeAll (s : Survey) (marks : List Mark) : Survey := marks.foldl take s

@[simp] theorem takeAll_cons (s : Survey) (mark : Mark) (marks : List Mark) :
    s.takeAll (mark :: marks) = (s.take mark).takeAll marks := rfl

@[simp] theorem takeAll_append (s : Survey) (xs ys : List Mark) :
    s.takeAll (xs ++ ys) = (s.takeAll xs).takeAll ys := List.foldl_append

theorem take_identifier? (s : Survey) (name : Option String) :
    s.take (.identifier? name) = s.identifier? name := by
  cases name <;> rfl

theorem take_nameOrAnonymous (s : Survey) (name : Option String) :
    s.take (.nameOrAnonymous name) = s.nameOrAnonymous name := by
  cases name <;> rfl

theorem take_nullsOrder (s : Survey) (nulls : Option NullsOrder) :
    s.take (.nullsOrder nulls) =
      match nulls with
      | some order => s.spelling order.name
      | none => s.push (.flag false) := by
  cases nulls <;> rfl

theorem takeAll_name (s : Survey) (idents : List String) :
    s.takeAll (idents.map .name) = idents.foldl identifier s := by
  rw [takeAll, List.foldl_map]
  rfl

theorem takeAll_enclosed (s : Survey) (group : String) (marks : List Mark) :
    s.takeAll (Mark.enclosed group marks) =
      ((s.push (.opening group)).takeAll marks).push .closing := by
  rw [Mark.enclosed, takeAll_cons, takeAll_append]
  rfl

theorem takeAll_columnShapes (s : Survey) (columns : List ColumnShape) :
    s.takeAll (Mark.columnShapes columns) = s.columnShapes columns := by
  rw [Mark.columnShapes, takeAll_cons, columnShapes, takeAll, List.foldl_flatMap]
  rfl

theorem takeAll_child (s : Survey) (ns : List Node) :
    s.takeAll (ns.map .child) = surveyAll s ns := by
  induction ns generalizing s with
  | nil => rw [surveyAll]; rfl
  | cons n rest ih =>
    rw [List.map_cons, takeAll_cons, ih, surveyAll]
    rfl

theorem takeAll_group (s : Survey) (group : String) (ns : List Node) :
    s.takeAll (Mark.group group ns) = surveyGroup group s ns := by
  rw [Mark.group, takeAll_enclosed, takeAll_cons, takeAll_child, surveyGroup]
  rfl

theorem takeAll_option (s : Survey) (group : String) (n : Option Node) :
    s.takeAll (Mark.option group n) = surveyOption group s n := by
  rw [Mark.option, takeAll_enclosed]
  cases n <;> rw [surveyOption] <;> rfl

theorem takeAll_pairs (s : Survey) (group : String) (values : List (String × Node)) :
    s.takeAll (Mark.pairs group values) = surveyPairs group s values := by
  have each (s : Survey) :
      s.takeAll (values.flatMap fun value => [.name value.1, .child value.2]) =
        surveyEach s values := by
    induction values generalizing s with
    | nil => rw [surveyEach]; rfl
    | cons value rest ih =>
      rw [List.flatMap_cons, takeAll_append, ih, surveyEach]
      rfl
  rw [Mark.pairs, takeAll_enclosed, takeAll_cons, each, surveyPairs]
  rfl

/-- A survey takes down the marks of a node in their order. -/
theorem surveyKind_eq (s : Survey) (n : Node) : surveyKind s n = s.takeAll n.marks := by
  rcases n with ⟨id, kind, type, annotations, diagnostics⟩
  cases kind <;> rw [surveyKind]
  all_goals simp only [marks]
  case null | truth | text | unary | binary | grouping | labelReference | scalarSubquery
    | tableValued | cast | textualLabelReference | join | deferred => rfl
  case bind b => rw [← take_identifier?]; rfl
  case column => rw [takeAll_append, takeAll_option]; rfl
  case textualSelect => rw [takeAll_append, takeAll_columnShapes]; rfl
  case clauseList => rw [takeAll_cons, takeAll_group]; rfl
  case function => rw [takeAll_cons, takeAll_group]; rfl
  case label => rw [takeAll_cons, take_nameOrAnonymous]; rfl
  case ordering nulls =>
    rw [takeAll_cons, takeAll_cons, take_nullsOrder]
    cases nulls <;> rfl
  case table => rw [takeAll_append, takeAll_columnShapes, ← take_identifier?]; rfl
  case «alias» => rw [takeAll_cons, take_nameOrAnonymous]; rfl
  case subquery => rw [takeAll_cons, take_nameOrAnonymous]; rfl
  case select s =>
    simp only [takeAll_append, takeAll_option, takeAll_group]
    rfl
  case compound => rw [takeAll_cons, takeAll_group]; rfl
  case insert i =>
    rw [takeAll_cons, takeAll_append, takeAll_pairs, takeAll_append, takeAll_group, Mark.inserted,
      takeAll_enclosed]
    rcases i with ⟨target, values, source, returning⟩
    cases source with
    | none => rfl
    | some source =>
      rw [Option.elim_some, takeAll_cons, takeAll_append, takeAll_name]
      rfl
  case update =>
    rw [takeAll_cons, takeAll_append, takeAll_pairs, takeAll_append, takeAll_option, takeAll_group]
    rfl
  case delete => rw [takeAll_cons, takeAll_append, takeAll_option, takeAll_group]; rfl

/-- A survey that has just come to a node, before what the node holds is taken down. -/
def entered (s : Survey) (n : Node) : Survey :=
  ((if n.hasOrdinal then s.define n else s).visit n).push (.kind n.kindName)

/-- A node is entered once if it has an ordinal: later on only the ordinal is taken down. -/
theorem survey_eq (s : Survey) (n : Node) :
    survey s n =
      match if n.hasOrdinal then s.ordinal? n else none with
      | some ordinal => s.push (.reference ordinal)
      | none => (s.entered n).takeAll n.marks := by
  rw [survey]
  cases if n.hasOrdinal then s.ordinal? n else none with
  | some ordinal => rfl
  | none => exact surveyKind_eq _ _

end Survey

namespace Node

theorem filterMap_child?_enclosed (group : String) (marks : List Mark) :
    (Mark.enclosed group marks).filterMap Mark.child? = marks.filterMap Mark.child? := by
  rw [Mark.enclosed, List.filterMap_cons_none (by rfl), List.filterMap_append]
  exact List.append_nil _

theorem filterMap_child?_child (ns : List Node) :
    (ns.map Mark.child).filterMap Mark.child? = ns := by
  rw [List.filterMap_map]
  exact List.filterMap_some

theorem filterMap_child?_columnShapes (columns : List ColumnShape) :
    (Mark.columnShapes columns).filterMap Mark.child? = [] := by
  rw [Mark.columnShapes, List.filterMap_cons_none (by rfl), List.filterMap_flatMap]
  exact List.flatMap_eq_nil_iff.2 fun _ _ => rfl

theorem filterMap_child?_pairs (group : String) (values : List (String × Node)) :
    (Mark.pairs group values).filterMap Mark.child? = values.map Prod.snd := by
  rw [Mark.pairs, filterMap_child?_enclosed, List.filterMap_cons_none (by rfl),
    List.filterMap_flatMap]
  exact List.flatMap_pure_eq_map _ _

theorem filterMap_child?_group (group : String) (ns : List Node) :
    (Mark.group group ns).filterMap Mark.child? = ns := by
  rw [Mark.group, filterMap_child?_enclosed, List.filterMap_cons_none (by rfl),
    filterMap_child?_child]

theorem filterMap_child?_option (group : String) (n : Option Node) :
    (Mark.option group n).filterMap Mark.child? = n.toList := by
  rw [Mark.option, filterMap_child?_enclosed, filterMap_child?_child]

theorem filterMap_child?_inserted (source : Option (List String × Node)) :
    (Mark.inserted source).filterMap Mark.child? = (source.map Prod.snd).toList := by
  rw [Mark.inserted, filterMap_child?_enclosed]
  cases source with
  | none => rfl
  | some source =>
    have names : (source.1.map Mark.name).filterMap Mark.child? = [] := by
      rw [List.filterMap_map]
      exact List.filterMap_eq_nil_iff.2 fun _ _ => rfl
    rw [Option.elim_some, List.filterMap_cons_none (by rfl), List.filterMap_append, names]
    rfl

/-- The children of a node are the nodes among its marks, in the same order. -/
theorem children_eq_marks (n : Node) : n.children = n.marks.filterMap Mark.child? := by
  rcases n with ⟨id, kind, type, annotations, diagnostics⟩
  cases kind
  case bind b => rcases b with ⟨_ | _, _⟩ <;> rfl
  case table t =>
    rcases t with ⟨name, _ | _, columns⟩
    all_goals exact (filterMap_child?_columnShapes columns).symm
  case column => exact (filterMap_child?_option "table" _).symm
  case textualSelect =>
    rw [marks, List.filterMap_append, filterMap_child?_columnShapes]
    rfl
  case clauseList => exact (filterMap_child?_group "clauses" _).symm
  case function => exact (filterMap_child?_group "args" _).symm
  case compound => exact (filterMap_child?_group "selects" _).symm
  case label name _ | «alias» _ name | subquery _ name => cases name <;> rfl
  case select s =>
    simp only [marks, List.filterMap_append, filterMap_child?_group, filterMap_child?_option]
    simp only [children, Kind.children, Select.children, List.append_assoc]
    rfl
  case insert i =>
    rw [marks, List.filterMap_cons_some (by rfl), List.filterMap_append, filterMap_child?_pairs,
      List.filterMap_append, filterMap_child?_inserted, filterMap_child?_group, ← List.append_assoc]
    rfl
  case update u =>
    rw [marks, List.filterMap_cons_some (by rfl), List.filterMap_append, filterMap_child?_pairs,
      List.filterMap_append, filterMap_child?_option, filterMap_child?_group, ← List.append_assoc]
    rfl
  case delete d =>
    rw [marks, List.filterMap_cons_some (by rfl), List.filterMap_append, filterMap_child?_option,
      filterMap_child?_group]
    rfl
  all_goals rfl

theorem mem_children_of_mark {c n : Node} (h : .child c ∈ n.marks) : c ∈ n.children := by
  rw [children_eq_marks]
  exact List.mem_filterMap.2 ⟨.child c, h, rfl⟩

end Node

namespace Survey

variable {P : Survey → Prop}

theorem keeps_takeAll {marks : List Mark} (step : ∀ mark ∈ marks, ∀ s, P s → P (s.take mark))
    {s : Survey} (h : P s) : P (s.takeAll marks) := by
  induction marks generalizing s with
  | nil => exact h
  | cons mark marks ih =>
    rw [takeAll_cons]
    exact ih (fun m hm => step m (List.mem_cons_of_mem _ hm)) (step mark List.mem_cons_self s h)

/-- What is kept where a node of a tree is entered and where its marks are taken down, if it is kept
below the node, a survey of the tree keeps. -/
theorem keeps_over {root n : Node} (push : ∀ s e, P s → P (s.push e))
    (enter : ∀ s n, Occurs n root → (n.hasOrdinal = true → s.ordinal? n = none) → P s →
      P (s.entered n))
    (marks : ∀ s n, Occurs n root → P s → (∀ c, .child c ∈ n.marks → ∀ s, P s → P (survey s c)) →
      P (s.takeAll n.marks))
    (hn : Occurs n root) {s : Survey} (h : P s) : P (survey s n) := by
  induction n using Node.induct generalizing s with
  | step n ih =>
    rw [survey_eq]
    split
    · exact push s _ h
    · next unknown =>
      refine marks _ n hn (enter s n hn (fun ho => by rwa [if_pos ho] at unknown) h) ?_
      intro c hc s hs
      have hc := mem_children_of_mark hc
      exact ih c hc (.trans (.deeper hc .root) hn) hs

/-- What every single step of a survey keeps, a survey keeps. -/
theorem keeps (mark : ∀ s (m : Mark), (∀ n, m ≠ .child n) → P s → P (s.take m))
    (define : ∀ s (n : Node), s.ordinal? n = none → P s → P (s.define n))
    (visit : ∀ s (n : Node), P s → P (s.visit n)) {s : Survey} (h : P s) (n : Node) :
    P (survey s n) := by
  have push (s : Survey) (e : KeyElement) (h : P s) : P (s.push e) := mark s (.put e) nofun h
  refine keeps_over push (fun s n _ unknown h => push _ _ (visit _ n ?_)) (fun s n _ h below => ?_)
    .root h
  · split
    · next ho => exact define s n (unknown ho) h
    · exact h
  · refine keeps_takeAll (fun m hm s hs => ?_) h
    cases m with
    | child c => exact below c hm s hs
    | _ => exact mark s _ nofun hs

end Survey

end SqlAlgebra
