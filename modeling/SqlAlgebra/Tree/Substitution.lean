import SqlAlgebra.Tree.Build

/-!
# Substitution

Nodes of a tree are replaced from the root down, once per node: a node that stands at several places is
offered once, and what became of it stands at all of them.  A node is built anew only if one of its children
became another node, so a part of a tree in which nothing is replaced keeps its identity.
-/

namespace SqlAlgebra

namespace Kind

variable {α : Type}

/-- The first of some replacements in place of a child, and the rest. -/
def refillOne (old : α) : List α → α × List α
  | [] => (old, [])
  | new :: rest => (new, rest)

def refillOption : Option α → List α → Option α × List α
  | none, news => (none, news)
  | some old, news => let (new, rest) := refillOne old news; (some new, rest)

def refillMany (old news : List α) : List α × List α :=
  (news.take old.length, news.drop old.length)

def refillPairs {κ : Type} (old : List (κ × α)) (news : List α) : List (κ × α) × List α :=
  (List.zipWith (fun pair new => (pair.1, new)) old news, news.drop old.length)

/-- A shape with other children, given in the order of `children`. -/
def refill (kind : Kind α) (news : List α) : Kind α :=
  match kind with
  | .null | .truth _ | .bind _ | .text _ | .textualLabelReference _ | .table _ | .deferred _ _ => kind
  | .column name source isLiteral => .column name (refillOption source news).1 isLiteral
  | .textualSelect sql columns => .textualSelect (refillOne sql news).1 columns
  | .unary op operand => .unary op (refillOne operand news).1
  | .binary left op right =>
    let (left, news) := refillOne left news
    .binary left op (refillOne right news).1
  | .clauseList op clauses => .clauseList op (refillMany clauses news).1
  | .grouping e => .grouping (refillOne e news).1
  | .function name args => .function name (refillMany args news).1
  | .cast e type => .cast (refillOne e news).1 type
  | .label name e => .label name (refillOne e news).1
  | .labelReference e => .labelReference (refillOne e news).1
  | .ordering e isDescending nulls => .ordering (refillOne e news).1 isDescending nulls
  | .alias e name => .alias (refillOne e news).1 name
  | .subquery e name => .subquery (refillOne e news).1 name
  | .scalarSubquery e => .scalarSubquery (refillOne e news).1
  | .tableValued e => .tableValued (refillOne e news).1
  | .join j =>
    let (left, news) := refillOne j.left news
    let (right, news) := refillOne j.right news
    .join { j with left := left, right := right, on := (refillOne j.on news).1 }
  | .select s =>
    let (columns, news) := refillMany s.columns news
    let (froms, news) := refillMany s.froms news
    let (criteria, news) := refillOption s.criteria news
    let (groupBy, news) := refillMany s.groupBy news
    let (having, news) := refillOption s.having news
    let (orderBy, news) := refillMany s.orderBy news
    let (limit, news) := refillOption s.limit news
    let (offset, _) := refillOption s.offset news
    .select
      { s with
        columns := columns
        froms := froms
        criteria := criteria
        groupBy := groupBy
        having := having
        orderBy := orderBy
        limit := limit
        offset := offset }
  | .compound op selects => .compound op (refillMany selects news).1
  | .insert i =>
    let (target, news) := refillOne i.table news
    let (values, news) := refillPairs i.values news
    let (source, news) :=
      match i.source with
      | none => (none, news)
      | some (columns, query) =>
        let (query, news) := refillOne query news
        (some (columns, query), news)
    .insert
      { table := target, values := values, source := source,
        returning := (refillMany i.returning news).1 }
  | .update u =>
    let (target, news) := refillOne u.table news
    let (values, news) := refillPairs u.values news
    let (criteria, news) := refillOption u.criteria news
    .update
      { table := target, values := values, criteria := criteria,
        returning := (refillMany u.returning news).1 }
  | .delete d =>
    let (target, news) := refillOne d.table news
    let (criteria, news) := refillOption d.criteria news
    .delete
      { table := target, criteria := criteria, returning := (refillMany d.returning news).1 }

end Kind

namespace Node

/-- What became of the nodes that were met, by identity. -/
abbrev Memo := List (Identity × Node)

/-- Whether two lists hold the same nodes in the same order. -/
def sameAll (as bs : List Node) : Bool := as.map Node.id == bs.map Node.id

/-- A node with other children, or none if the children are the same ones. -/
def withChildren? (n : Node) (children : List Node) : Option Node :=
  if sameAll children n.children then none else some { n with kind := n.kind.refill children }

/-- The node itself if its children are the same ones, and otherwise a new node with these children in
which everything else is kept. -/
def rebuild (n : Node) (children : List Node) : Build Node :=
  match n.withChildren? children with
  | none => pure n
  | some changed => Build.copy changed

/-- Goes over a tree once per node.  `offer` may settle a node before its children are looked at, and
`finish` settles it from what became of them. -/
def transform {σ : Type} (offer : Node → StateT σ Build (Option Node))
    (finish : Node → List Node → StateT σ Build Node) (n : Node) (memo : Memo) :
    StateT σ Build (Node × Memo) := do
  match memo.lookup n.id with
  | some done => pure (done, memo)
  | none =>
    match ← offer n with
    | some replacement => pure (replacement, (n.id, replacement) :: memo)
    | none =>
      let (children, memo) ← n.children.attach.foldlM
        (fun (done : List Node × Memo) child => do
          let (new, memo) ← transform offer finish child.1 done.2
          pure (done.1 ++ [new], memo))
        ([], memo)
      let out ← finish n children
      pure (out, (n.id, out) :: memo)
termination_by sizeOf n
decreasing_by exact sizeOf_child child.2

/-- A tree with nodes replaced.  `replace` is offered every node before its children, and where it
gives a replacement nothing below the node is looked at. -/
def substitute {σ : Type} (replace : Node → StateT σ Build (Option Node)) (n : Node) :
    StateT σ Build Node := do
  let (out, _) ← transform replace (fun n children => n.rebuild children) n []
  pure out

/-- A copy of a node with a note under a key; a note that is there already gives way. -/
def annotate (n : Node) (key value : String) : Build Node :=
  Build.copy { n with annotations := Json.insertMember key value n.annotations }

/-- A node without its own notes; one that has none is handed back itself. -/
def deannotate (n : Node) : Build Node :=
  if n.annotations.isEmpty then pure n else Build.copy { n with annotations := [] }

/-- A tree without notes on any node. -/
def deepDeannotate (n : Node) : Build Node := do
  let strip (n : Node) (children : List Node) : StateT Unit Build Node :=
    match n.withChildren? children with
    | none => n.deannotate
    | some changed => Build.copy { changed with annotations := [] }
  let ((out, _), _) ← (transform (fun _ => pure none) strip n []).run ()
  pure out

end Node

end SqlAlgebra
