import SqlAlgebra.Proofs.Layout.Nesting

/-!
# What a rendering consists of

A rendering writes text of its own and, before it, between it and after it, what is rendered for the
parts of its node.  `Rendering.items` lists all of this in the order of the text.  The layout of a
rendering is the layouts of its items one after another, so it contains the layouts of all parts, at
any depth, and a fact about every layout can be proved by looking at the items of one rendering at a
time, with `Rendering.induct` for the parts.
-/

namespace SqlAlgebra.Layout

/-- Layouts one after another. -/
def concat (xs : List Layout) : Layout := xs.foldr (· ++ ·) empty

@[simp] theorem concat_cons (x : Layout) (xs : List Layout) : concat (x :: xs) = x ++ concat xs :=
  rfl

theorem concat_append (xs ys : List Layout) : concat (xs ++ ys) = concat xs ++ concat ys := by
  induction xs with
  | nil => rfl
  | cons x xs ih => rw [List.cons_append, concat_cons, concat_cons, ih, append_assoc]

/-- What a rendering writes at one place. -/
inductive Item where
  /-- Text of its own that is no operator. -/
  | own (layout : Layout)
  /-- The text of a unary or binary operator. -/
  | operator (sql : String)
  | part (rendering : Rendering)

namespace Item

def layout (d : Dialect) : Item → Layout
  | own x => x
  | operator sql => text sql
  | part r => r.layout d

def layouts (d : Dialect) (items : List Item) : Layout := concat (items.map (layout d))

/-- Items between parentheses. -/
def enclosed (items : List Item) : List Item := own (text "(") :: (items ++ [own (text ")")])

def enclosedIf (needed : Bool) (items : List Item) : List Item :=
  if needed then enclosed items else items

/-- Groups of items with a separator between them. -/
def joined (separator : String) : List (List Item) → List Item
  | [] => []
  | [single] => single
  | first :: rest => first ++ own (text separator) :: joined separator rest

/-- A clause with commas in it, which is left out if there is nothing to write in it. -/
def clause (keyword : String) (parts : List Rendering) : List Item :=
  if parts.isEmpty then [] else own (text keyword) :: joined ", " (parts.map ([part ·]))

variable {d : Dialect} {items items' : List Item}

theorem layout_own (x : Layout) : (own x).layout d = x := rfl

@[simp] theorem layouts_nil : layouts d [] = empty := rfl

@[simp] theorem layouts_cons (item : Item) :
    layouts d (item :: items) = item.layout d ++ layouts d items := rfl

@[simp] theorem layouts_append :
    layouts d (items ++ items') = layouts d items ++ layouts d items' := by
  rw [layouts, List.map_append, concat_append]
  rfl

@[simp] theorem layouts_enclosed :
    layouts d (enclosed items) = parenthesized (layouts d items) := by
  rw [enclosed, layouts_cons, layouts_append, layouts_cons, layouts_nil, append_empty,
    parenthesized, append_assoc]
  rfl

@[simp] theorem layouts_enclosedIf (needed : Bool) :
    layouts d (enclosedIf needed items) = parenthesizedIf needed (layouts d items) := by
  cases needed with
  | false => rfl
  | true => exact layouts_enclosed

@[simp] theorem layouts_joined (separator : String) (groups : List (List Item)) :
    layouts d (joined separator groups) =
      Layout.separated separator (groups.map (layouts d)) := by
  induction groups with
  | nil => rfl
  | cons group groups ih =>
    cases groups with
    | nil => rfl
    | cons next groups =>
      rw [joined, layouts_append, layouts_cons, ih, ← append_assoc]
      · rfl
      · nofun

theorem layouts_joined_parts {α : Type} (separator : String) (xs : List α) (f : α → Rendering) :
    layouts d (joined separator (xs.map fun x => [part (f x)])) =
      Layout.separated separator (xs.map fun x => (f x).layout d) := by
  rw [layouts_joined, List.map_map]
  refine congrArg _ (List.map_congr_left fun x _ => ?_)
  exact append_empty _

theorem layouts_clause {α : Type} (keyword : String) (xs : List α) (f : α → Rendering) :
    layouts d (clause keyword (xs.map f)) =
      if xs.isEmpty then empty
      else text keyword ++ Layout.separated ", " (xs.map fun x => (f x).layout d) := by
  cases xs with
  | nil => rfl
  | cons x xs =>
    rw [clause, if_neg (by simp), if_neg (by simp), List.map_map, layouts_cons]
    exact congrArg _ (layouts_joined_parts ", " (x :: xs) f)

theorem layouts_clause_toList {α : Type} (keyword : String) (x : Option α) (f : α → Rendering) :
    layouts d (clause keyword (x.toList.map f)) =
      optional x fun x => text keyword ++ (f x).layout d := by
  rw [layouts_clause]
  cases x with
  | none => rfl
  | some x => rfl

/-- Items one after another contain each of them. -/
theorem contains_of_mem {item : Item} (h : item ∈ items) :
    (layouts d items).Contains (item.layout d) := by
  induction items with
  | nil => cases h
  | cons first items ih =>
    obtain ⟨front, back⟩ := Contains.of_append (first.layout d) (layouts d items)
    obtain rfl | h := List.mem_cons.1 h
    · exact front
    · exact back.trans (ih h)

/-! ### The parts among some items -/

@[simp] theorem mem_enclosed {r : Rendering} : part r ∈ enclosed items ↔ part r ∈ items := by
  simp [enclosed]

@[simp] theorem mem_enclosedIf {r : Rendering} {needed : Bool} :
    part r ∈ enclosedIf needed items ↔ part r ∈ items := by
  cases needed with
  | false => rfl
  | true => exact mem_enclosed

theorem mem_joined {r : Rendering} {separator : String} {groups : List (List Item)} :
    part r ∈ joined separator groups ↔ ∃ group ∈ groups, part r ∈ group := by
  induction groups with
  | nil => simp [joined]
  | cons group groups ih =>
    cases groups with
    | nil => simp [joined]
    | cons next groups =>
      rw [joined, List.mem_append, List.mem_cons, ih]
      · simp
      · nofun

@[simp] theorem mem_singleton {r r' : Rendering} : part r ∈ [part r'] ↔ r = r' := by simp

/-- The parts among groups that have one part each. -/
theorem mem_joined_map {α : Type} {r : Rendering} {separator : String} {xs : List α}
    {group : α → List Item} {f : α → Rendering} (h : ∀ x, part r ∈ group x ↔ r = f x) :
    part r ∈ joined separator (xs.map group) ↔ r ∈ xs.map f := by
  simp only [mem_joined, List.mem_map, exists_exists_and_eq_and, h]
  exact exists_congr fun x => and_congr_right fun _ => eq_comm

theorem mem_joined_parts {α : Type} {r : Rendering} {separator : String} {xs : List α}
    {f : α → Rendering} :
    part r ∈ joined separator (xs.map fun x => [part (f x)]) ↔ r ∈ xs.map f :=
  mem_joined_map fun _ => mem_singleton

@[simp] theorem mem_clause {r : Rendering} {keyword : String} {parts : List Rendering} :
    part r ∈ clause keyword parts ↔ r ∈ parts := by
  unfold clause
  cases parts with
  | nil => simp
  | cons first parts =>
    rw [if_neg (by simp), List.mem_cons, mem_joined_parts, List.map_id']
    simp

end Item

namespace Rendering

open Item

/-- How many rows a SELECT returns, and how many it leaves out before them. -/
def pagingItems (d : Dialect) (frames : List Frame) (limit offset : Option Node) : List Item :=
  match d.paging with
  | .limitOffset filler =>
    (match limit with
      | some limit => [.own (text " LIMIT "), .part ⟨.expression 0, frames, limit⟩]
      | none =>
        if offset.isSome then [.own (optional filler fun n => text (" LIMIT " ++ n))] else []) ++
      clause " OFFSET " (offset.toList.map (⟨.expression 0, frames, ·⟩))
  | .offsetFetch =>
    (match offset with
      | some offset =>
        [.own (text " OFFSET "), .part ⟨.expression 0, frames, offset⟩, .own (text " ROWS")]
      | none => []) ++
      (match limit with
        | some limit =>
          [.own (text " FETCH FIRST "), .part ⟨.expression 0, frames, limit⟩,
            .own (text " ROWS ONLY")]
        | none => [])

def queryItems (d : Dialect) (frames : List Frame) (s : Select Node) : List Item :=
  if s.columns.isEmpty then [.own (fail .noColumns)]
  else
    match s.shownFroms frames with
    | .error fault => [.own (fail fault)]
    | .ok froms =>
      let inner := Frame.ofSources froms s.columns :: frames
      .own (text "SELECT " ++ if s.isDistinct then text "DISTINCT " else empty) ::
        (joined ", " (s.columns.map fun c => [.part ⟨.columnItem, inner, c⟩]) ++
          (clause " FROM " (froms.map (⟨.fromElement, inner, ·⟩)) ++
            (clause " WHERE " (s.criteria.toList.map (⟨.expression 0, inner, ·⟩)) ++
              (clause " GROUP BY " (s.groupBy.map (⟨.expression 0, inner, ·⟩)) ++
                (clause " HAVING " (s.having.toList.map (⟨.expression 0, inner, ·⟩)) ++
                  (clause " ORDER BY " (s.orderBy.map (⟨.expression 0, inner, ·⟩)) ++
                    pagingItems d inner s.limit s.offset))))))

def statementItems (d : Dialect) (frames : List Frame) (n : Node) : List Item :=
  match n.kind with
  | .select s => queryItems d frames s
  | .compound op selects =>
    joined (" " ++ op.sql ++ " ")
      (selects.map fun c => enclosedIf (isWrapped c) [.part ⟨.statement, frames, c⟩])
  | .textualSelect sql _ => [.part ⟨.expression 0, frames, sql⟩]
  | .insert ⟨target, values, source, returning⟩ =>
    let inner := Frame.ofSources [target] [] :: frames
    .own (checkReturning d returning ++ text "INSERT INTO ") ::
      .part ⟨.fromElement, frames, target⟩ ::
        ((match source with
          | some (columns, select) =>
            [.own (text " (" ++ identifiers d columns ++ text ") "),
              .part ⟨.statement, [], select⟩]
          | none =>
            if values.isEmpty then [.own (text " " ++ text d.defaultValues)]
            else
              .own (text " (" ++ identifiers d (values.map Prod.fst) ++ text ") VALUES (") ::
                (joined ", " (values.map fun v => [.part ⟨.expression 0, inner, v.2⟩]) ++
                  [.own (text ")")])) ++
          clause " RETURNING " (returning.map (⟨.columnItem, inner, ·⟩)))
  | .update ⟨target, values, criteria, returning⟩ =>
    let inner := Frame.ofSources [target] [] :: frames
    .own ((if values.isEmpty then fail .noAssignments else empty) ++ checkReturning d returning ++
        text "UPDATE ") ::
      .part ⟨.fromElement, frames, target⟩ ::
        .own (text " SET ") ::
          (joined ", " (values.map fun v =>
            [.own (identifier d v.1 ++ text " = "), .part ⟨.expression 0, inner, v.2⟩]) ++
            (clause " WHERE " (criteria.toList.map (⟨.expression 0, inner, ·⟩)) ++
              clause " RETURNING " (returning.map (⟨.columnItem, inner, ·⟩))))
  | .delete ⟨target, criteria, returning⟩ =>
    let inner := Frame.ofSources [target] [] :: frames
    .own (checkReturning d returning ++ text "DELETE FROM ") ::
      .part ⟨.fromElement, frames, target⟩ ::
        (clause " WHERE " (criteria.toList.map (⟨.expression 0, inner, ·⟩)) ++
          clause " RETURNING " (returning.map (⟨.columnItem, inner, ·⟩)))
  | _ =>
    if n.isFromClause then [.part ⟨.fromElement, frames, n⟩]
    else [.part ⟨.expression 0, frames, n⟩]

/-- What an alias stands for. -/
def aliasedItems (d : Dialect) (element : Node) : List Item :=
  match element.kind with
  | .table _ => [.own (sourceName d element)]
  | _ => enclosed [.part ⟨.statement, [], element⟩]

def fromElementItems (d : Dialect) (frames : List Frame) (n : Node) : List Item :=
  match n.kind with
  | .table _ => [.own (sourceName d n)]
  | .alias element _ | .subquery element _ =>
    aliasedItems d element ++ [.own (text " AS " ++ sourceName d n)]
  | .join ⟨left, right, on, kind⟩ =>
    let nested :=
      match right.kind with
      | .join _ => true
      | _ => false
    .part ⟨.fromElement, frames, left⟩ :: .own (text (" " ++ kind.sql ++ " ")) ::
      (enclosedIf nested [.part ⟨.fromElement, frames, right⟩] ++
        [.own (text " ON "), .part ⟨.expression 0, frames, on⟩])
  | .text sql => [.own (text sql)]
  | .select _ | .compound _ _ | .textualSelect _ _ => enclosed [.part ⟨.statement, [], n⟩]
  | _ => [.own (fail (.notAFromElement n.repr))]

def columnItemItems (d : Dialect) (frames : List Frame) (n : Node) : List Item :=
  match n.kind with
  | .label _ element =>
    [.part ⟨.expression 0, frames, element⟩, .own (text " AS " ++ labelName d n)]
  | _ =>
    if n.isFromClause then [.own (allColumns d n)] else [.part ⟨.expression 0, frames, n⟩]

def labelReferenceItems (d : Dialect) (frames : List Frame) (target : Node) : List Item :=
  match target.kind with
  | .label _ element =>
    if isInScope frames target then [.own (labelName d target)]
    else [.part ⟨.expression 0, frames, element⟩]
  | .ordering element isDescending nulls =>
    [.part ⟨.labelReference, frames, element⟩, .own (orderingSuffix isDescending nulls)]
  | _ => [.part ⟨.expression 0, frames, target⟩]

def operationItems (frames : List Frame) (left : Node) (op : BinaryOp) (symbol : String)
    (right : Node) : List Item :=
  .part ⟨.expression op.precedence, frames, left⟩ :: .operator (" " ++ symbol ++ " ") ::
    match bounds? op right with
    | some (low, high) =>
      [.part ⟨.expression (op.precedence + 1), frames, low⟩, .operator " AND ",
        .part ⟨.expression (op.precedence + 1), frames, high⟩]
    | none => [.part ⟨.expression (rightStrength op), frames, right⟩]

def expressionItems (d : Dialect) (frames : List Frame) (outer : Nat) (n : Node) : List Item :=
  match n.kind with
  | .null => [.own (text "NULL")]
  | .truth value => [.own (text (d.truth value))]
  | .bind param => [.own (piece (.bind n param))]
  | .column name source isLiteral => [.own (column d name source isLiteral)]
  | .text sql => [.own (text sql)]
  | .unary op operand =>
    enclosedIf (op.precedence < outer)
      [.operator (unaryMark op), .part ⟨.expression (operandStrength op), frames, operand⟩]
  | .binary left op right =>
    match d.spelling op with
    | none => [.own (fail (.operatorUnsupported op.sql d.name))]
    | some (.call name) =>
      .operator name :: enclosed
        [.part ⟨.expression 0, frames, left⟩, .own (text ", "),
          .part ⟨.expression 0, frames, right⟩]
    | some (.negated symbol) =>
      enclosedIf (UnaryOp.not.precedence < outer)
        (.operator "NOT " :: enclosed (operationItems frames left op symbol right))
    | some (.between symbol) =>
      enclosedIf (op.precedence < outer) (operationItems frames left op symbol right)
  | .clauseList op [] => [.own (text (noClauses d op))]
  | .clauseList _ [single] => [.part ⟨.expression outer, frames, single⟩]
  | .clauseList op clauses =>
    enclosedIf (op.precedence < outer)
      (joined op.separator (clauses.map fun c => [.part ⟨.expression op.precedence, frames, c⟩]))
  | .grouping element => enclosed [.part ⟨.expression 0, frames, element⟩]
  | .function name args =>
    .own (text name) :: enclosed
      (joined ", " (args.map fun c => [.part ⟨.expression 0, frames, c⟩]))
  | .cast element type =>
    match d.typeName type with
    | none => [.own (fail (.castUnsupported d.name type.name))]
    | some name =>
      .own (text "CAST") :: enclosed
        [.part ⟨.expression 0, frames, element⟩, .own (text (" AS " ++ name))]
  | .label _ element => [.part ⟨.expression outer, frames, element⟩]
  | .labelReference target => [.part ⟨.labelReference, frames, target⟩]
  | .textualLabelReference name => [.own (textualLabel d frames name)]
  | .ordering element isDescending nulls =>
    [.part ⟨.expression 0, frames, element⟩, .own (orderingSuffix isDescending nulls)]
  | .scalarSubquery select => enclosed [.part ⟨.statement, frames, select⟩]
  | .tableValued source =>
    match sourceName? d source with
    | some name => [.own name]
    | none => [.own (fail (.namelessRow source.repr))]
  | .select _ | .compound _ _ | .textualSelect _ _ => enclosed [.part ⟨.statement, frames, n⟩]
  | .table _ | .alias _ _ | .subquery _ _ | .join _ => [.own (fail (.notAColumnExpression n.repr))]
  | .insert _ | .update _ | .delete _ => [.own (fail (.embeddedModification n.kindName))]
  | .deferred _ _ => [.own (fail .unresolvedDeferred)]

/-- What a rendering writes, in the order of the text. -/
def items (d : Dialect) : Rendering → List Item
  | ⟨.statement, frames, n⟩ => statementItems d frames n
  | ⟨.fromElement, frames, n⟩ => fromElementItems d frames n
  | ⟨.columnItem, frames, n⟩ => columnItemItems d frames n
  | ⟨.labelReference, frames, n⟩ => labelReferenceItems d frames n
  | ⟨.expression outer, frames, n⟩ => expressionItems d frames outer n

variable {d : Dialect} {frames : List Frame} {n : Node} {r part : Rendering}

/-! ### A layout is the layouts of its items -/

theorem layouts_pagingItems (limit offset : Option Node) :
    layouts d (pagingItems d frames limit offset) = paging d frames limit offset := by
  unfold pagingItems
  cases hp : d.paging with
  | limitOffset filler =>
    rw [paging_limitOffset hp, layouts_append, layouts_clause_toList]
    refine congrArg (· ++ _) ?_
    cases limit with
    | some limit => exact congrArg _ (append_empty _)
    | none =>
      dsimp only
      split
      · exact append_empty _
      · rfl
  | offsetFetch =>
    rw [paging_offsetFetch hp, layouts_append]
    have three (x y z : Layout) : x ++ (y ++ (z ++ empty)) = x ++ y ++ z := by
      rw [append_empty, append_assoc]
    refine congrArg₂ (· ++ ·) ?_ ?_
    · cases offset with
      | none => rfl
      | some offset => exact three _ _ _
    · cases limit with
      | none => rfl
      | some limit => exact three _ _ _

theorem layouts_queryItems (s : Select Node) :
    layouts d (queryItems d frames s) = query d frames s := by
  unfold queryItems
  split
  · next hc =>
    rw [query_of_isEmpty hc]
    rfl
  · next hc =>
    have hc : s.columns.isEmpty = false := Bool.eq_false_iff.2 hc
    split
    · next hf =>
      rw [query_of_error hc hf]
      rfl
    · next hf =>
      rw [query_of_ok hc hf rfl, columnItems_eq, expressions_eq, expressions_eq]
      dsimp only
      rw [layouts_cons, layouts_append, layouts_append, layouts_append, layouts_append,
        layouts_append, layouts_append, layouts_joined_parts, layouts_clause,
        layouts_clause_toList, layouts_clause, layouts_clause_toList, layouts_clause,
        layouts_pagingItems, layout_own]
      simp only [append_assoc]
      rfl

theorem layouts_operationItems (left : Node) (op : BinaryOp) (symbol : String) (right : Node) :
    layouts d (operationItems frames left op symbol right) =
      operation d frames left op symbol right := by
  unfold operationItems
  cases hb : bounds? op right with
  | none =>
    rw [operation_of_none hb]
    simp only [layouts_cons, layouts_nil, append_empty, append_assoc]
    rfl
  | some bounds =>
    rw [operation_of_bounds hb]
    simp only [layouts_cons, layouts_nil, append_empty, append_assoc]
    rfl

theorem layouts_expressionItems (outer : Nat) :
    layouts d (expressionItems d frames outer n) = expression d frames outer n := by
  rcases n with ⟨i, kind, type, annotations, diagnostics⟩
  unfold expressionItems
  rw [expression]
  cases kind with
  | select | compound | textualSelect =>
    dsimp only
    rw [layouts_enclosed, layouts_cons, layouts_nil, append_empty, Item.layout, layout, statement]
  | scalarSubquery | grouping =>
    dsimp only
    rw [layouts_enclosed, layouts_cons, layouts_nil, append_empty]
    rfl
  | unary op operand =>
    dsimp only
    rw [layouts_enclosedIf, layouts_cons, layouts_cons, layouts_nil, append_empty]
    rfl
  | binary left op right =>
    dsimp only
    cases hs : d.spelling op with
    | none => rfl
    | some spelling =>
      cases spelling with
      | call name =>
        simp only [layouts_cons, layouts_enclosed, layouts_nil, append_empty, append_assoc]
        rfl
      | negated symbol =>
        simp only [layouts_cons, layouts_enclosed, layouts_enclosedIf, layouts_operationItems]
        rfl
      | between symbol =>
        dsimp only
        rw [layouts_enclosedIf, layouts_operationItems]
  | clauseList op clauses =>
    obtain _ | ⟨first, _ | ⟨second, rest⟩⟩ := clauses
    · exact append_empty _
    · exact append_empty _
    · dsimp only
      rw [layouts_enclosedIf, layouts_joined_parts, expressions_eq]
      rfl
  | function name args =>
    dsimp only
    rw [layouts_cons, layouts_enclosed, layouts_joined_parts, expressions_eq]
    rfl
  | cast element type =>
    dsimp only
    cases hs : d.typeName type with
    | none => rfl
    | some name =>
      simp only [layouts_cons, layouts_enclosed, layouts_nil, append_empty]
      rfl
  | tableValued source =>
    dsimp only
    cases sourceName? d source with
    | some name => exact append_empty _
    | none => rfl
  | ordering element isDescending nulls => exact congrArg _ (append_empty _)
  | _ => exact append_empty _

theorem layouts_aliasedItems : layouts d (aliasedItems d n) = aliased d n := by
  unfold aliasedItems aliased
  cases n.kind with
  | table => exact append_empty _
  | _ => exact layouts_enclosed.trans (congrArg parenthesized (append_empty _))

theorem layouts_fromElementItems :
    layouts d (fromElementItems d frames n) = fromElement d frames n := by
  rcases n with ⟨i, kind, type, annotations, diagnostics⟩
  unfold fromElementItems
  rw [fromElement]
  cases kind with
  | «alias» element name | subquery element name =>
    dsimp only
    rw [layouts_append, layouts_aliasedItems, layouts_cons, layouts_nil, append_empty, layout_own,
      ← append_assoc]
    rfl
  | join j =>
    simp only [layouts_cons, layouts_append, layouts_enclosedIf, layouts_nil, layout_own,
      append_empty, append_assoc]
    rfl
  | select | compound | textualSelect =>
    dsimp only
    rw [layouts_enclosed, layouts_cons, layouts_nil, append_empty, Item.layout, layout, statement]
  | _ => exact append_empty _

theorem layouts_columnItemItems :
    layouts d (columnItemItems d frames n) = columnItem d frames n := by
  rcases n with ⟨i, kind, type, annotations, diagnostics⟩
  unfold columnItemItems
  rw [columnItem]
  cases kind with
  | label name element =>
    simp only [layouts_cons, layouts_nil, layout_own, append_empty, append_assoc]
    rfl
  | _ =>
    dsimp only
    split
    · exact append_empty _
    · exact append_empty _

theorem layouts_labelReferenceItems :
    layouts d (labelReferenceItems d frames n) = labelReference d frames n := by
  rcases n with ⟨i, kind, type, annotations, diagnostics⟩
  unfold labelReferenceItems
  rw [labelReference]
  cases kind with
  | label name element =>
    dsimp only
    split
    · exact append_empty _
    · exact append_empty _
  | ordering element isDescending nulls => exact congrArg _ (append_empty _)
  | _ => exact append_empty _

theorem layouts_statementItems :
    layouts d (statementItems d frames n) = statement d frames n := by
  rcases n with ⟨i, kind, type, annotations, diagnostics⟩
  unfold statementItems
  rw [statement]
  cases kind with
  | select s => exact layouts_queryItems s
  | compound op selects =>
    dsimp only
    rw [layouts_joined, List.map_map, compound, compoundMembers_eq]
    refine congrArg _ (List.map_congr_left fun c _ => ?_)
    show layouts d (enclosedIf _ _) = _
    rw [layouts_enclosedIf]
    exact congrArg _ (append_empty _)
  | textualSelect => exact append_empty _
  | insert s =>
    rcases s with ⟨target, values, source, returning⟩
    simp only [layouts_cons, layouts_append, layouts_clause, layout_own, append_assoc]
    rw [returningClause, columnItems_eq]
    cases source with
    | some source =>
      simp only [layouts_cons, layouts_nil, layout_own, append_empty, append_assoc]
      rfl
    | none =>
      dsimp only
      rw [insertedValues_eq]
      split
      · simp only [layouts_cons, layouts_nil, layout_own, append_empty, append_assoc]
        rfl
      · simp only [layouts_cons, layouts_append, layouts_nil, layouts_joined_parts, layout_own,
          append_empty, append_assoc]
        rfl
  | update s =>
    rcases s with ⟨target, values, criteria, returning⟩
    dsimp only
    rw [layouts_cons, layouts_cons, layouts_cons, layouts_append, layouts_append,
      layouts_clause_toList, layouts_clause, returningClause, columnItems_eq, assignments_eq,
      layouts_joined, List.map_map, layout_own, layout_own]
    have assigned : (layouts d ∘ fun v : String × Node =>
        [Item.own (identifier d v.1 ++ text " = "),
          Item.part ⟨.expression 0, Frame.ofSources [target] [] :: frames, v.2⟩]) =
        fun v => identifier d v.1 ++ text " = " ++
          expression d (Frame.ofSources [target] [] :: frames) 0 v.2 :=
      funext fun v => congrArg _ (append_empty _)
    rw [assigned]
    simp only [append_assoc]
    cases criteria <;> rfl
  | delete s =>
    rcases s with ⟨target, criteria, returning⟩
    dsimp only
    rw [layouts_cons, layouts_cons, layouts_append, layouts_clause_toList, layouts_clause,
      returningClause, columnItems_eq, layout_own]
    simp only [append_assoc]
    cases criteria <;> rfl
  | _ =>
    dsimp only
    split
    · exact append_empty _
    · exact append_empty _

/-- A layout is the layouts of what is written, one after another. -/
theorem layouts_items (r : Rendering) : layouts d (r.items d) = r.layout d := by
  rcases r with ⟨position, frames, n⟩
  cases position with
  | statement => exact layouts_statementItems
  | fromElement => exact layouts_fromElementItems
  | columnItem => exact layouts_columnItemItems
  | labelReference => exact layouts_labelReferenceItems
  | expression outer => exact layouts_expressionItems outer

/-! ### The parts are those among the items -/

theorem mem_pagingItems {limit offset : Option Node} :
    .part part ∈ pagingItems d frames limit offset ↔
      part ∈ (limit.toList ++ offset.toList).map (⟨.expression 0, frames, ·⟩) := by
  unfold pagingItems
  cases d.paging with
  | limitOffset filler =>
    cases limit with
    | some limit => simp
    | none => cases offset <;> simp
  | offsetFetch => cases limit <;> cases offset <;> simp [or_comm]

theorem mem_queryItems {s : Select Node} (hc : s.columns.isEmpty = false) :
    .part part ∈ queryItems d frames s ↔ part ∈ selectParts frames s := by
  unfold queryItems selectParts
  rw [hc, if_neg Bool.false_ne_true]
  cases s.shownFroms frames with
  | error fault => simp
  | ok froms =>
    simp only [List.mem_cons, List.mem_append, List.map_append, mem_clause, mem_joined_parts,
      mem_pagingItems, reduceCtorEq, false_or, or_assoc]

theorem mem_statementItems (shown : ∀ s, n.kind = .select s → s.columns.isEmpty = false) :
    .part part ∈ statementItems d frames n ↔ part ∈ statementParts frames n := by
  rcases n with ⟨i, kind, type, annotations, diagnostics⟩
  unfold statementItems statementParts
  cases kind with
  | select s => exact mem_queryItems (shown s rfl)
  | compound op selects => exact mem_joined_map fun c => by simp
  | textualSelect => simp
  | insert s =>
    rcases s with ⟨target, values, source, returning⟩
    cases source with
    | some source => simp
    | none =>
      cases values with
      | nil => simp
      | cons value values =>
        generalize hv : value :: values = inserted
        have some : inserted.isEmpty = false := by rw [← hv]; rfl
        dsimp only
        rw [some, if_neg Bool.false_ne_true]
        simp only [List.mem_cons, List.mem_append, List.not_mem_nil, mem_clause, mem_joined_parts,
          reduceCtorEq, false_or, or_false, Item.part.injEq]
  | update s =>
    rcases s with ⟨target, values, criteria, returning⟩
    have assigned (inner : List Frame) : .part part ∈ joined ", " (values.map fun v =>
        [.own (identifier d v.1 ++ text " = "), .part ⟨.expression 0, inner, v.2⟩]) ↔
          part ∈ (values.map Prod.snd).map (⟨.expression 0, inner, ·⟩) := by
      rw [List.map_map]
      exact mem_joined_map fun v => by simp
    simp only [List.mem_cons, List.mem_append, List.map_append, mem_clause, assigned, reduceCtorEq,
      false_or, or_assoc, Item.part.injEq]
  | delete s => simp
  | _ =>
    dsimp only
    split <;> simp

theorem mem_fromElementItems :
    .part part ∈ fromElementItems d frames n ↔ part ∈ fromElementParts frames n := by
  rcases n with ⟨i, kind, type, annotations, diagnostics⟩
  unfold fromElementItems fromElementParts
  cases kind with
  | «alias» element name | subquery element name =>
    dsimp only
    unfold aliasedItems
    cases element.kind <;> simp
  | _ => simp

theorem mem_columnItemItems :
    .part part ∈ columnItemItems d frames n ↔ part ∈ columnItemParts frames n := by
  rcases n with ⟨i, kind, type, annotations, diagnostics⟩
  unfold columnItemItems columnItemParts
  cases kind with
  | label => simp
  | _ =>
    dsimp only
    split <;> simp

theorem mem_labelReferenceItems :
    .part part ∈ labelReferenceItems d frames n ↔ part ∈ labelReferenceParts frames n := by
  rcases n with ⟨i, kind, type, annotations, diagnostics⟩
  unfold labelReferenceItems labelReferenceParts
  cases kind with
  | label =>
    dsimp only
    split <;> simp
  | _ => simp

theorem mem_operationItems {left right : Node} {op : BinaryOp} {symbol : String} :
    .part part ∈ operationItems frames left op symbol right ↔
      part ∈ operationParts frames left op right := by
  unfold operationItems operationParts
  cases bounds? op right <;> simp

theorem mem_expressionItems {outer : Nat} :
    .part part ∈ expressionItems d frames outer n ↔ part ∈ expressionParts d frames outer n := by
  rcases n with ⟨i, kind, type, annotations, diagnostics⟩
  unfold expressionItems expressionParts
  cases kind with
  | binary left op right =>
    dsimp only
    cases d.spelling op with
    | none => simp
    | some spelling => cases spelling <;> simp [mem_operationItems]
  | clauseList op clauses =>
    obtain _ | ⟨first, _ | ⟨second, rest⟩⟩ := clauses
    · simp
    · simp
    · exact mem_enclosedIf.trans mem_joined_parts
  | cast element type =>
    dsimp only
    cases d.typeName type <;> simp
  | tableValued source =>
    dsimp only
    cases sourceName? d source <;> simp
  | function name args => simp [mem_joined_parts]
  | _ => simp

/-- The parts of a rendering that does not fail are those among its items. -/
theorem mem_items_iff (sound : (r.layout d).fault = none) :
    .part part ∈ r.items d ↔ part ∈ r.parts d := by
  rcases r with ⟨position, frames, n⟩
  cases position with
  | statement =>
    refine mem_statementItems fun s hs => Bool.eq_false_iff.2 fun hc => ?_
    rw [layout, statement_of_select hs, query_of_isEmpty hc] at sound
    cases sound
  | fromElement => exact mem_fromElementItems
  | columnItem => exact mem_columnItemItems
  | labelReference => exact mem_labelReferenceItems
  | expression outer => exact mem_expressionItems

/-- A SELECT without columns, which fails, has parts that are not written. -/
theorem mem_parts_of_mem_items (h : .part part ∈ r.items d) : part ∈ r.parts d := by
  rcases r with ⟨position, frames, n⟩
  cases position with
  | statement =>
    refine (mem_statementItems fun s hs => Bool.eq_false_iff.2 fun hc => ?_).1 h
    rw [items, statementItems, hs] at h
    dsimp only at h
    rw [queryItems, if_pos hc] at h
    simp at h
  | fromElement => exact mem_fromElementItems.1 h
  | columnItem => exact mem_columnItemItems.1 h
  | labelReference => exact mem_labelReferenceItems.1 h
  | expression outer => exact mem_expressionItems.1 h

/-- A layout contains those of its parts. -/
theorem contains_of_mem_parts (h : part ∈ r.parts d) : (r.layout d).Contains (part.layout d) := by
  intro sound
  have inside := (mem_items_iff sound).2 h
  rw [← layouts_items r] at sound ⊢
  exact contains_of_mem inside sound

theorem Reaches.contains (h : r.Reaches d part) : (r.layout d).Contains (part.layout d) := by
  induction h with
  | refl => exact .refl _
  | tail _ step ih => exact ih.trans (contains_of_mem_parts step)

/-- Induction over what is written: what holds of a rendering if it holds of the parts among its
items holds of every rendering. -/
theorem induct (d : Dialect) {P : Rendering → Prop}
    (step : ∀ r, (∀ part, .part part ∈ r.items d → P part) → P r) (r : Rendering) : P r :=
  step r fun part _ => induct d step part
termination_by r.weight
decreasing_by exact (below_of_mem_parts (mem_parts_of_mem_items ‹_›)).weight_lt

end Rendering

end SqlAlgebra.Layout
