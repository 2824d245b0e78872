import SqlAlgebra.Proofs.Layout.Correlation
import SqlAlgebra.Proofs.Layout.Render

/-!
# How rendering fails

Three faults say that the compiler contradicts itself: a deferred expression is left over, a bound
parameter is not part of the statement, a slot is empty.  Rendering never ends in the last two, and
in the first only where it meets a deferred expression.  So a tree without deferred expressions is
rendered, or refused for a reason that its author can understand.
-/

namespace SqlAlgebra

/-- The faults that the input of a compiler cannot be blamed for. -/
def CompileFault.IsInternal : CompileFault → Prop
  | .unresolvedDeferred | .foreignBind _ | .emptySlot _ _ => True
  | _ => False

/-- Whether no node of a tree is deferred. -/
def Node.Plain (n : Node) : Prop := ∀ x, Node.Occurs x n → x.isDeferred = false

theorem Node.Plain.of_occurs {n x : Node} (h : n.Plain) (hx : Node.Occurs x n) : x.Plain :=
  fun y hy => h y (.trans hy hx)

theorem Node.Plain.child {n c : Node} (h : n.Plain) (hc : c ∈ n.children) : c.Plain :=
  h.of_occurs (.deeper hc .root)

/-- The FROM elements that a SELECT shows are found below its children. -/
theorem Select.finds_of_mem_shownFroms {s : Select Node} {frames : List Frame} {froms : List Node}
    {x : Node} (h : s.shownFroms frames = .ok froms) (hx : x ∈ froms) : s.Finds x := by
  rw [shownFroms_eq] at h
  split at h
  · cases h
  · cases h
    have found := Node.mem_of_mem_distinctOutside (List.mem_filter.1 hx).1
    simpa only [Finds, RefersTo, or_assoc, List.mem_append, List.mem_flatMap, Node.mem_sources_iff,
      Option.mem_toList, Option.mem_def] using found

namespace Layout

variable {x y : Layout} {xs : List Layout} {d : Dialect} {frames : List Frame} {n : Node}
  {ns : List Node}

/-- Whether a layout fails for a reason that its author can understand, if it fails. -/
def Explains (x : Layout) : Prop := ∀ fault ∈ x.fault, ¬fault.IsInternal

namespace Explains

theorem empty : Explains Layout.empty := nofun

theorem piece (p : Piece) : Explains (Layout.piece p) := nofun

theorem text (sql : String) : Explains (Layout.text sql) := nofun

theorem fail {fault : CompileFault} (h : ¬fault.IsInternal) : Explains (Layout.fail fault) := by
  rintro _ ⟨⟩
  exact h

theorem append (h : Explains x) (h' : Explains y) : Explains (x ++ y) := by
  rcases x with ⟨pieces, _ | fault⟩
  · exact h'
  · exact h

theorem separated (separator : String) (h : ∀ x ∈ xs, Explains x) :
    Explains (Layout.separated separator xs) := by
  induction xs with
  | nil => exact empty
  | cons x xs ih =>
    have first : Explains x := h x List.mem_cons_self
    have rest : Explains (Layout.separated separator xs) :=
      ih fun y hy => h y (List.mem_cons_of_mem _ hy)
    cases xs with
    | nil => exact first
    | cons y ys => exact (first.append (text separator)).append rest

theorem separated_map {α : Type} {l : List α} {f : α → Layout} (separator : String)
    (h : ∀ a ∈ l, Explains (f a)) : Explains (Layout.separated separator (l.map f)) := by
  refine separated separator fun x hx => ?_
  obtain ⟨a, ha, rfl⟩ := List.mem_map.1 hx
  exact h a ha

theorem parenthesized (h : Explains x) : Explains (Layout.parenthesized x) :=
  ((text "(").append h).append (text ")")

theorem parenthesizedIf (needed : Bool) (h : Explains x) :
    Explains (Layout.parenthesizedIf needed x) := by
  unfold Layout.parenthesizedIf
  split
  · exact h.parenthesized
  · exact h

theorem optional {α : Type} {a : Option α} {f : α → Layout} (h : ∀ b, a = some b → Explains (f b)) :
    Explains (Layout.optional a f) := by
  cases a with
  | none => exact empty
  | some b => exact h b rfl

theorem ite {c : Prop} [Decidable c] (h : Explains x) (h' : Explains y) :
    Explains (if c then x else y) := by
  split
  · exact h
  · exact h'

end Explains

/-! ## Names -/

theorem explains_sourceName? {x : Layout} (h : sourceName? d n = some x) : Explains x := by
  unfold sourceName? at h
  split at h
  · split at h <;> cases h <;> exact .text _
  · split at h <;> cases h <;> exact .piece _
  · split at h <;> cases h <;> exact .piece _
  · cases h

theorem explains_sourceName : Explains (sourceName d n) :=
  .optional fun _ h => explains_sourceName? h

theorem explains_column {name : String} {source : Option Node} {isLiteral : Bool} :
    Explains (column d name source isLiteral) := by
  refine .ite (.text _) (.append (.optional fun x hx => ?_) (.text _))
  obtain ⟨n, -, hx⟩ := Option.bind_eq_some_iff.1 hx
  exact (explains_sourceName? hx).append (.text _)

theorem explains_labelName : Explains (labelName d n) := by
  unfold labelName
  split <;> exact .piece _

theorem explains_allColumns : Explains (allColumns d n) := by
  unfold allColumns
  split
  · split
    · next h => exact (explains_sourceName? h).append (.text _)
    · exact .text _
  · exact .separated_map ", " fun _ _ => explains_column

theorem explains_orderingSuffix {isDescending : Bool} {nulls : Option NullsOrder} :
    Explains (orderingSuffix isDescending nulls) :=
  .append (.ite (.text _) .empty) (.optional fun _ _ => .text _)

theorem explains_textualLabel {name : String} : Explains (textualLabel d frames name) := by
  rw [textualLabel_eq]
  cases found : ((frames.head?.map Frame.columns).getD []).findSome? (named? d name) with
  | none => exact .fail id
  | some x =>
    obtain ⟨c, -, hc⟩ := List.exists_of_findSome?_eq_some found
    unfold named? at hc
    split at hc
    · split at hc <;> cases hc
      exact .text _
    · split at hc <;> cases hc
      exact explains_column
    · cases hc

theorem explains_identifiers {idents : List String} : Explains (identifiers d idents) :=
  .separated_map ", " fun _ _ => .text _

theorem explains_checkReturning : Explains (checkReturning d ns) := .ite (.fail id) .empty

/-! ## Trees -/

/-- Whether a node fails for a reason that its author can understand, wherever it stands. -/
structure Understood (d : Dialect) (n : Node) : Prop where
  expression : ∀ frames outer, Explains (expression d frames outer n)
  statement : ∀ frames, Explains (statement d frames n)
  fromElement : ∀ frames, Explains (fromElement d frames n)
  columnItem : ∀ frames, Explains (columnItem d frames n)
  labelReference : ∀ frames, Explains (labelReference d frames n)

theorem explains_expressions {outer : Nat} {separator : String} (h : ∀ c ∈ ns, Understood d c) :
    Explains (separated separator (expressions d frames outer ns)) := by
  rw [expressions_eq]
  exact .separated_map separator fun c hc => (h c hc).expression frames outer

theorem explains_paging {limit offset : Option Node} (hl : ∀ c ∈ limit, Understood d c)
    (ho : ∀ c ∈ offset, Understood d c) : Explains (paging d frames limit offset) := by
  cases hp : d.paging with
  | limitOffset filler =>
    rw [paging_limitOffset hp]
    refine .append ?_ (.optional fun c hc => .append (.text _) ((ho c hc).expression frames 0))
    cases limit with
    | some c => exact .append (.text _) ((hl c rfl).expression frames 0)
    | none => exact .ite (.optional fun _ _ => .text _) .empty
  | offsetFetch =>
    rw [paging_offsetFetch hp]
    refine .append (.optional fun c hc => ?_) (.optional fun c hc => ?_)
    · exact .append (.append (.text _) ((ho c hc).expression frames 0)) (.text _)
    · exact .append (.append (.text _) ((hl c hc).expression frames 0)) (.text _)

theorem explains_query {s : Select Node} (children : ∀ c ∈ s.children, Understood d c)
    (shown : ∀ c froms, s.shownFroms frames = .ok froms → c ∈ froms → Understood d c) :
    Explains (query d frames s) := by
  cases hc : s.columns.isEmpty with
  | true =>
    rw [query_of_isEmpty hc]
    exact .fail id
  | false =>
    cases hf : s.shownFroms frames with
    | error fault =>
      rw [query_of_error hc hf]
      refine .fail ?_
      rw [Select.shownFroms_eq] at hf
      split at hf <;> cases hf
      exact id
    | ok froms =>
      rw [query_of_ok hc hf rfl]
      have list {ns : List Node} (sub : ∀ c ∈ ns, c ∈ s.children) : ∀ c ∈ ns, Understood d c :=
        fun c hc => children c (sub c hc)
      refine .append (.append (.append (.append (.append (.append (.append (.append
        ?_ ?_) ?_) ?_) ?_) ?_) ?_) ?_) ?_
      · exact .text _
      · exact .ite (.text _) .empty
      · rw [columnItems_eq]
        exact .separated_map ", " fun c hc =>
          (children c (by simp [Select.children, hc])).columnItem _
      · exact .ite .empty (.append (.text _) (.separated_map ", " fun c hc =>
          (shown c froms hf hc).fromElement _))
      · exact .optional fun c hc => .append (.text _)
          ((children c (by simp [Select.children, hc])).expression _ 0)
      · exact .ite .empty (.append (.text _) (explains_expressions
          (list fun c hc => by simp [Select.children, hc])))
      · exact .optional fun c hc => .append (.text _)
          ((children c (by simp [Select.children, hc])).expression _ 0)
      · exact .ite .empty (.append (.text _) (explains_expressions
          (list fun c hc => by simp [Select.children, hc])))
      · exact explains_paging
          (fun c hc => children c (by simp [Select.children, Option.mem_def.1 hc]))
          fun c hc => children c (by simp [Select.children, Option.mem_def.1 hc])

theorem explains_compound {op : SetOp} (h : ∀ c ∈ ns, Understood d c) :
    Explains (compound d frames op ns) := by
  rw [compound, compoundMembers_eq]
  exact .separated_map _ fun c hc => ((h c hc).statement frames).parenthesizedIf _

theorem explains_returningClause (h : ∀ c ∈ ns, Understood d c) :
    Explains (returningClause d frames ns) := by
  rw [returningClause, columnItems_eq]
  exact .ite .empty (.append (.text _) (.separated_map ", " fun c hc => (h c hc).columnItem frames))

theorem explains_operation {left right : Node} {op : BinaryOp} {symbol : String}
    (hl : Understood d left) (hr : Understood d right)
    (bounds : ∀ c ∈ right.children, Understood d c) :
    Explains (operation d frames left op symbol right) := by
  have first := (hl.expression frames op.precedence).append (.text (" " ++ symbol ++ " "))
  cases hb : bounds? op right with
  | none =>
    rw [operation_of_none hb]
    exact first.append (hr.expression frames _)
  | some both =>
    rcases both with ⟨low, high⟩
    have mem : low ∈ right.children ∧ high ∈ right.children := by
      rw [children_of_bounds hb]
      exact ⟨List.mem_cons_self, List.mem_cons_of_mem _ List.mem_cons_self⟩
    rw [operation_of_bounds hb]
    exact first.append (.append (.append ((bounds low mem.1).expression frames _) (.text _))
      ((bounds high mem.2).expression frames _))

/-- Whether the nodes below a size are understood, which is what an induction has to offer. -/
def UnderstoodBelow (d : Dialect) (size : Nat) : Prop :=
  ∀ ⦃c : Node⦄, sizeOf c < size → c.Plain → Understood d c

/-- The children of a node, if the smaller ones are understood. -/
theorem UnderstoodBelow.children (ih : UnderstoodBelow d (sizeOf n)) (h : n.Plain) :
    ∀ c ∈ n.children, Understood d c :=
  fun _ hc => ih (Node.sizeOf_child hc) (h.child hc)

/-- A SELECT shows nothing but what stands in it. -/
theorem UnderstoodBelow.query {s : Select Node} (ih : UnderstoodBelow d (sizeOf n)) (h : n.Plain)
    (hn : n.kind = .select s) : Explains (query d frames s) := by
  have mem {c : Node} (hc : c ∈ s.children) : c ∈ n.children := by
    rw [Node.children, hn]
    exact hc
  refine explains_query (fun c hc => ih.children h c (mem hc)) fun x froms hf hx => ?_
  have found := Select.finds_of_mem_shownFroms hf hx
  obtain ⟨c, hc, inside⟩ := found.occurs_child
  exact ih (Nat.lt_trans found.sizeOf_lt (Simulation.sizeOf_select hn))
    (h.of_occurs (.deeper (mem hc) inside))

section Node

variable (h : n.Plain) (ih : UnderstoodBelow d (sizeOf n))
include h ih

theorem explains_expression (outer : Nat) : Explains (expression d frames outer n) := by
  have shown {s : Select Node} (hn : n.kind = .select s) : Explains (query d frames s) :=
    ih.query h hn
  have child := ih.children h
  have deferred : n.isDeferred = false := h n .root
  rcases n with ⟨i, kind, type, annotations, diagnostics⟩
  rw [expression]
  cases kind with
  | null | truth | text => exact .text _
  | bind => exact .piece _
  | column => exact explains_column
  | textualSelect sql | grouping sql =>
    exact ((child sql List.mem_cons_self).expression frames 0).parenthesized
  | scalarSubquery select =>
    exact ((child select List.mem_cons_self).statement frames).parenthesized
  | unary op operand =>
    have operand := (child operand List.mem_cons_self).expression frames (operandStrength op)
    exact ((Explains.text _).append operand).parenthesizedIf _
  | binary left op right =>
    have hl := child left List.mem_cons_self
    have hr := child right (List.mem_cons_of_mem _ List.mem_cons_self)
    have bounds : ∀ c ∈ right.children, Understood d c := fun c hc =>
      ih (Nat.lt_trans (Node.sizeOf_child hc)
        (Node.sizeOf_child (List.mem_cons_of_mem _ List.mem_cons_self)))
        (h.of_occurs (.deeper (List.mem_cons_of_mem _ List.mem_cons_self) (.deeper hc .root)))
    have between (symbol : String) : Explains (operation d frames left op symbol right) :=
      explains_operation hl hr bounds
    dsimp only
    cases d.spelling op with
    | none => exact .fail id
    | some spelling =>
      cases spelling with
      | call name =>
        exact (Explains.text name).append
          (((hl.expression frames 0).append (.text ", ")).append
            (hr.expression frames 0)).parenthesized
      | negated symbol =>
        exact ((Explains.text _).append (between symbol).parenthesized).parenthesizedIf _
      | between symbol => exact (between symbol).parenthesizedIf _
  | clauseList op clauses =>
    cases clauses with
    | nil => exact .text _
    | cons first rest =>
      cases rest with
      | nil => exact (child first List.mem_cons_self).expression frames outer
      | cons => exact (explains_expressions child).parenthesizedIf _
  | function name args =>
    exact (Explains.text name).append (explains_expressions child).parenthesized
  | cast element type =>
    have element := (child element List.mem_cons_self).expression frames 0
    dsimp only
    cases d.typeName type with
    | none => exact .fail id
    | some name => exact (Explains.text _).append (element.append (.text _)).parenthesized
  | label name element => exact (child element List.mem_cons_self).expression frames outer
  | labelReference target => exact (child target List.mem_cons_self).labelReference frames
  | textualLabelReference => exact explains_textualLabel
  | ordering element =>
    exact ((child element List.mem_cons_self).expression frames 0).append explains_orderingSuffix
  | tableValued source =>
    dsimp only
    cases hs : sourceName? d source with
    | some name => exact explains_sourceName? hs
    | none => exact .fail id
  | select => exact (shown rfl).parenthesized
  | compound => exact (explains_compound child).parenthesized
  | table | «alias» | subquery | join | insert | update | delete => exact .fail id
  | deferred => cases deferred

theorem explains_fromElement : Explains (fromElement d frames n) := by
  have shown {s : Select Node} (hn : n.kind = .select s) : Explains (query d [] s) :=
    ih.query h hn
  have child := ih.children h
  have aliased {element : Node} (he : element ∈ n.children) :
      Explains (aliased d element ++ text " AS " ++ sourceName d n) := by
    refine .append (.append ?_ (.text _)) explains_sourceName
    unfold Layout.aliased
    split
    · exact explains_sourceName
    · exact ((child element he).statement []).parenthesized
  rcases n with ⟨i, kind, type, annotations, diagnostics⟩
  rw [fromElement]
  cases kind with
  | table => exact explains_sourceName
  | «alias» element | subquery element => exact aliased List.mem_cons_self
  | join j =>
    have hl := child j.left List.mem_cons_self
    have hr := child j.right (List.mem_cons_of_mem _ List.mem_cons_self)
    have ho := child j.on (List.mem_cons_of_mem _ (List.mem_cons_of_mem _ List.mem_cons_self))
    refine .append (.append (.append (.append ?_ (.text _)) ?_) (.text _)) ?_
    · exact hl.fromElement frames
    · exact (hr.fromElement frames).parenthesizedIf _
    · exact ho.expression frames 0
  | text => exact .text _
  | select => exact (shown rfl).parenthesized
  | compound => exact (explains_compound child).parenthesized
  | textualSelect sql => exact ((child sql List.mem_cons_self).expression [] 0).parenthesized
  | _ => exact .fail id

theorem explains_columnItem (expression : Explains (expression d frames 0 n)) :
    Explains (columnItem d frames n) := by
  have other :
      Explains (if n.isFromClause then allColumns d n else Layout.expression d frames 0 n) :=
    .ite explains_allColumns expression
  have child := ih.children h
  rcases n with ⟨i, kind, type, annotations, diagnostics⟩
  rw [columnItem]
  cases kind with
  | label name element =>
    have element := (child element List.mem_cons_self).expression frames 0
    exact (element.append (.text _)).append explains_labelName
  | _ => exact other

theorem explains_labelReference (expression : Explains (expression d frames 0 n)) :
    Explains (labelReference d frames n) := by
  have child := ih.children h
  rcases n with ⟨i, kind, type, annotations, diagnostics⟩
  rw [labelReference]
  cases kind with
  | label name element =>
    exact .ite explains_labelName ((child element List.mem_cons_self).expression frames 0)
  | ordering element =>
    exact ((child element List.mem_cons_self).labelReference frames).append explains_orderingSuffix
  | _ => exact expression

theorem explains_statement (expression : Explains (expression d frames 0 n))
    (fromElement : Explains (fromElement d frames n)) : Explains (statement d frames n) := by
  have shown {s : Select Node} (hn : n.kind = .select s) : Explains (query d frames s) :=
    ih.query h hn
  have child := ih.children h
  have other : Explains
      (if n.isFromClause then Layout.fromElement d frames n else Layout.expression d frames 0 n) :=
    .ite fromElement expression
  rcases n with ⟨i, kind, type, annotations, diagnostics⟩
  rw [statement]
  cases kind with
  | select => exact shown rfl
  | compound => exact explains_compound child
  | textualSelect sql => exact (child sql List.mem_cons_self).expression frames 0
  | insert s =>
    rcases s with ⟨target, values, source, returning⟩
    have value {p : String × Node} (hp : p ∈ values) : Understood d p.2 :=
      child p.2 (by simp [Node.children, Kind.children, List.mem_map_of_mem hp])
    have returned {c : Node} (hc : c ∈ returning) : Understood d c :=
      child c (by simp [Node.children, Kind.children, hc])
    refine .append (.append (.append (.append explains_checkReturning (.text _)) ?_) ?_)
      (explains_returningClause fun _ => returned)
    · exact (child target List.mem_cons_self).fromElement frames
    · cases source with
      | some source =>
        have select := child source.2 (by simp [Node.children, Kind.children])
        exact (((Explains.text _).append explains_identifiers).append (.text _)).append
          (select.statement [])
      | none =>
        dsimp only
        rw [insertedValues_eq]
        refine .ite ((Explains.text _).append (.text _)) ?_
        refine .append (.append (.append (.append (.text _) explains_identifiers) (.text _)) ?_)
          (.text _)
        exact .separated_map ", " fun p hp => (value hp).expression _ 0
  | update s =>
    rcases s with ⟨target, values, criteria, returning⟩
    have value {p : String × Node} (hp : p ∈ values) : Understood d p.2 :=
      child p.2 (by simp [Node.children, Kind.children, List.mem_map_of_mem hp])
    have returned {c : Node} (hc : c ∈ returning) : Understood d c :=
      child c (by simp [Node.children, Kind.children, hc])
    dsimp only
    rw [assignments_eq]
    refine .append (.append (.append (.append (.append (.append (.append
      (.ite (.fail id) .empty) explains_checkReturning) (.text _)) ?_) (.text _)) ?_) ?_)
      (explains_returningClause fun _ => returned)
    · exact (child target List.mem_cons_self).fromElement frames
    · exact .separated_map ", " fun p hp =>
        ((Explains.text _).append (.text _)).append ((value hp).expression _ 0)
    · cases criteria with
      | none => exact .empty
      | some criteria =>
        have criteria := child criteria (by simp [Node.children, Kind.children])
        exact (Explains.text _).append (criteria.expression _ 0)
  | delete s =>
    rcases s with ⟨target, criteria, returning⟩
    have returned {c : Node} (hc : c ∈ returning) : Understood d c :=
      child c (by simp [Node.children, Kind.children, hc])
    refine .append (.append (.append (.append explains_checkReturning (.text _)) ?_) ?_)
      (explains_returningClause fun _ => returned)
    · exact (child target List.mem_cons_self).fromElement frames
    · cases criteria with
      | none => exact .empty
      | some criteria =>
        have criteria := child criteria (by simp [Node.children, Kind.children])
        exact (Explains.text _).append (criteria.expression _ 0)
  | _ => exact other

end Node

/-- A node without deferred expressions fails for a reason that its author can understand, if it
fails. -/
theorem understood_of_plain (d : Dialect) (h : n.Plain) : Understood d n := by
  induction hn : sizeOf n using Nat.strongRecOn generalizing n with
  | _ size ih =>
    subst hn
    have ih : UnderstoodBelow d (sizeOf n) := fun c smaller hc => ih (sizeOf c) smaller hc rfl
    have expression frames outer : Explains (Layout.expression d frames outer n) :=
      explains_expression h ih outer
    have fromElement frames : Explains (Layout.fromElement d frames n) := explains_fromElement h ih
    exact
      { expression := expression
        statement := fun frames =>
          explains_statement h ih (expression frames 0) (fromElement frames)
        fromElement := fromElement
        columnItem := fun frames => explains_columnItem h ih (expression frames 0)
        labelReference := fun frames => explains_labelReference h ih (expression frames 0) }

end Layout

end SqlAlgebra
