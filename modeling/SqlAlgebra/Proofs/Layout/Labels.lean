import SqlAlgebra.Build.Query
import SqlAlgebra.Compiler
import SqlAlgebra.Dialect.Database
import SqlAlgebra.Proofs.Coercion.Acceptance
import SqlAlgebra.Proofs.Layout.Nesting

/-!
# Names in ORDER BY and GROUP BY

A bare name is looked for among the items of the columns clause, and the first label or column that it
names stands for it.  A FROM element among the items is not looked into, although the SELECT exports
its columns.  So a name that only such an element has is not resolved.
-/

namespace SqlAlgebra

namespace Node

/-- The name that an item of a columns clause has itself: that of a label or of a column. -/
def itemName? (c : Node) : Option String :=
  match c.kind with
  | .column name _ _ => some name
  | .label name _ => name
  | _ => none

/-- The columns that a SELECT exports for an item of its columns clause. -/
def itemColumns (c : Node) : List ColumnShape :=
  match c.itemName? with
  | some name => [(name, c.type)]
  | none => if c.isFromClause then c.exportedColumns else []

variable {c n : Node} {s : Select Node} {name : String}

theorem exportedColumns_of_select (kind : n.kind = .select s) :
    n.exportedColumns = s.columns.flatMap itemColumns := by
  rcases n with ⟨i, k, type, annotations, diagnostics⟩
  cases kind
  rw [exportedColumns]
  refine List.flatMap_congr fun c _ => ?_
  rcases c with ⟨i, kind, type, annotations, diagnostics⟩
  cases kind with
  | label name element => cases name <;> rfl
  | _ => rfl

theorem isFromClause_of_itemName (h : c.itemName? = some name) : c.isFromClause = false := by
  rcases c with ⟨i, kind, type, annotations, diagnostics⟩
  cases kind <;> first | rfl | cases h

theorem mem_itemColumns_iff : name ∈ c.itemColumns.map Prod.fst ↔
    c.itemName? = some name ∨ c.isFromClause = true ∧ name ∈ c.exportedColumns.map Prod.fst := by
  rw [itemColumns]
  cases own : c.itemName? with
  | some other =>
    rw [isFromClause_of_itemName own]
    simp [eq_comm]
  | none =>
    by_cases element : c.isFromClause = true
    · simp [element]
    · simp [element]

/-- A SELECT exports the names of the items of its columns clause, and those of the columns of the FROM
elements among them. -/
theorem mem_exportedColumns_iff (kind : n.kind = .select s) :
    name ∈ n.exportedColumns.map Prod.fst ↔ (∃ c ∈ s.columns, c.itemName? = some name) ∨
      ∃ c ∈ s.columns, c.isFromClause = true ∧ name ∈ c.exportedColumns.map Prod.fst := by
  rw [exportedColumns_of_select kind, List.map_flatMap, List.mem_flatMap, ← exists_or]
  apply exists_congr
  intro c
  rw [mem_itemColumns_iff, and_or_left]

/-- Without FROM elements that have the name, the first column that is exported under it is that of
the first item that has it. -/
theorem find?_exportedColumns (kind : n.kind = .select s)
    (apart : ∀ c ∈ s.columns, c.isFromClause = true → name ∉ c.exportedColumns.map Prod.fst)
    (found : s.columns.find? (fun c => c.itemName? == some name) = some c) :
    n.exportedColumns.find? (fun column => column.1 == name) = some (name, c.type) := by
  rw [exportedColumns_of_select kind, List.find?_flatMap]
  clear kind
  generalize s.columns = columns at apart found
  induction columns with
  | nil => cases found
  | cons first rest ih =>
    rw [List.find?_cons] at found
    rw [List.findSome?_cons]
    by_cases own : first.itemName? = some name
    · rw [own, beq_self_eq_true] at found
      have here : first.itemColumns = [(name, first.type)] := by rw [itemColumns, own]
      rw [here, ← Option.some.inj found, List.find?_cons, beq_self_eq_true]
    · have none : first.itemColumns.find? (fun column => column.1 == name) = none := by
        rw [List.find?_eq_none]
        intro column mem same
        have named : name ∈ first.itemColumns.map Prod.fst := by
          rw [← beq_iff_eq.1 same]
          exact List.mem_map_of_mem mem
        obtain itself | ⟨element, exported⟩ := mem_itemColumns_iff.1 named
        · exact own itself
        · exact apart first List.mem_cons_self element exported
      rw [beq_false_of_ne own] at found
      rw [none]
      exact ih (fun c hc => apart c (List.mem_cons_of_mem _ hc)) found

/-- How an item of the columns clause is referred to: a label by its name, anything else by what it
stands for. -/
def reference (d : Dialect) (frames : List Frame) (c : Node) : Layout :=
  match c.kind with
  | .label (some name) _ => Layout.identifier d name
  | _ => Layout.expression d frames 0 c

end Node

namespace Layout

variable {d : Dialect} {frames : List Frame} {c n x : Node} {s : Select Node} {name : String}
  {froms : List Node}

/-- An item stands for a name exactly if the name is its own. -/
theorem named?_eq (d : Dialect) (frames : List Frame) (name : String) (c : Node) :
    named? d name c = if c.itemName? == some name then some (c.reference d frames) else none := by
  rcases c with ⟨i, kind, type, annotations, diagnostics⟩
  cases kind with
  | column own source isLiteral =>
    unfold named? Node.itemName? Node.reference
    rw [expression]
    simp
  | label own element =>
    cases own with
    | none => rfl
    | some own =>
      unfold named? Node.itemName? Node.reference
      by_cases same : own = name
      · simp [same]
      · simp [same]
  | _ => rfl

theorem findSome?_named (d : Dialect) (frames : List Frame) (name : String) (columns : List Node) :
    columns.findSome? (named? d name) =
      (columns.find? fun c => c.itemName? == some name).map (Node.reference d frames) := by
  induction columns with
  | nil => rfl
  | cons c rest ih =>
    rw [List.findSome?_cons, List.find?_cons, named?_eq d frames]
    by_cases own : (c.itemName? == some name) = true
    · rw [if_pos own, own]
      rfl
    · rw [if_neg own, Bool.eq_false_iff.2 own]
      exact ih

theorem fault_sourceName {source : Node} {layout : Layout} (h : sourceName? d source = some layout) :
    layout.fault = none := by
  unfold sourceName? at h
  split at h
  · split at h <;> (cases h; rfl)
  · split at h <;> (cases h; rfl)
  · split at h <;> (cases h; rfl)
  · cases h

theorem fault_column (d : Dialect) (name : String) (source : Option Node) (isLiteral : Bool) :
    (Layout.column d name source isLiteral).fault = none := by
  unfold Layout.column
  cases isLiteral with
  | true => rfl
  | false =>
    cases named : source.bind (sourceName? d) with
    | none => rfl
    | some layout =>
      obtain ⟨element, -, named⟩ := Option.bind_eq_some_iff.1 named
      have sound := fault_sourceName named
      rcases layout with ⟨pieces, fault⟩
      cases sound
      rfl

/-- A reference to an item does not fail. -/
theorem fault_reference (own : c.itemName? = some name) : (c.reference d frames).fault = none := by
  rcases c with ⟨i, kind, type, annotations, diagnostics⟩
  cases kind with
  | column other source isLiteral =>
    unfold Node.reference
    dsimp only
    rw [expression]
    exact fault_column d other source isLiteral
  | label other element =>
    cases own
    rfl
  | _ => cases own

/-- A name in the frame of a SELECT stands for the first item of its columns clause that has it. -/
theorem expression_of_label (named : x.kind = .textualLabelReference name)
    (outer : Nat) : expression d (Frame.ofSources froms s.columns :: frames) outer x =
      ((s.columns.find? fun c => c.itemName? == some name).map
        (Node.reference d (Frame.ofSources froms s.columns :: frames))).getD
          (fail (.unresolvedLabel name)) := by
  rcases x with ⟨i, kind, type, annotations, diagnostics⟩
  cases named
  rw [expression, ← findSome?_named]
  exact textualLabel_eq d _ name

/-- A string in ORDER BY or GROUP BY is taken for a bare name, whatever it is. -/
theorem coerceNode_string {role : Role} (hr : role = .orderBy ∨ role = .groupBy)
    (args : CoercionArgs) (name : String) (i : Identity) :
    coerceNode role (.string name) args i =
      .ok ((⟨i, .textualLabelReference name, .null, [], []⟩, []), i + 1) := by
  obtain rfl | rfl := hr <;> rfl

/-- What a string in ORDER BY or GROUP BY of a SELECT stands for.  It is taken for a bare name.  It is
resolved exactly if it is the own name of an item of the columns clause, and stands for the first
one: a label is referred to by its name, a column by its expression.  The SELECT exports the names of
the items, and besides those of the columns of its FROM elements among them.  So if no FROM element
in the columns clause has the name, it is resolved exactly if it is exported, and stands for the
first column that is exported under it. -/
theorem resolves_iff_item (kind : n.kind = .select s) (shown : s.shownFroms frames = .ok froms)
    (named : x.kind = .textualLabelReference name) (d : Dialect) :
    let inner := Frame.ofSources froms s.columns :: frames
    (∀ role args i, role = .orderBy ∨ role = .groupBy → ∃ m,
        coerceNode role (.string name) args i = .ok ((m, []), i + 1) ∧
          m.kind = .textualLabelReference name) ∧
      (x ∈ s.groupBy ++ s.orderBy →
        (⟨.expression 0, inner, x⟩ : Rendering) ∈ Rendering.parts d ⟨.statement, frames, n⟩) ∧
      (∀ outer, ((expression d inner outer x).fault = none ↔ ∃ c ∈ s.columns, c.itemName? = some name) ∧
        ((¬∃ c ∈ s.columns, c.itemName? = some name) →
          expression d inner outer x = fail (.unresolvedLabel name)) ∧
        ∀ c, s.columns.find? (fun c => c.itemName? == some name) = some c →
          expression d inner outer x = c.reference d inner) ∧
      (name ∈ n.exportedColumns.map Prod.fst ↔ (∃ c ∈ s.columns, c.itemName? = some name) ∨
        ∃ c ∈ s.columns, c.isFromClause = true ∧ name ∈ c.exportedColumns.map Prod.fst) ∧
      ((∀ c ∈ s.columns, c.isFromClause = true → name ∉ c.exportedColumns.map Prod.fst) →
        ((∃ c ∈ s.columns, c.itemName? = some name) ↔ name ∈ n.exportedColumns.map Prod.fst) ∧
        ∀ c, s.columns.find? (fun c => c.itemName? == some name) = some c →
          n.exportedColumns.find? (fun column => column.1 == name) = some (name, c.type)) := by
  intro inner
  have item_iff : (∃ c ∈ s.columns, c.itemName? = some name) ↔
      ∃ c, s.columns.find? (fun c => c.itemName? == some name) = some c := by
    rw [← Option.isSome_iff_exists, List.find?_isSome]
    simp only [beq_iff_eq]
  have exported : name ∈ n.exportedColumns.map Prod.fst ↔ _ := Node.mem_exportedColumns_iff kind
  refine ⟨fun role args i hr => ?_, fun mem => ?_, fun outer => ?_, exported,
    fun apart => ⟨?_, fun c found => ?_⟩⟩
  · exact ⟨_, coerceNode_string hr args name i, rfl⟩
  · rcases n with ⟨i, k, type, annotations, diagnostics⟩
    cases kind
    show _ ∈ Rendering.selectParts frames s
    rw [Rendering.selectParts, shown]
    refine List.mem_append_right _ (List.mem_map_of_mem ?_)
    simp only [List.mem_append] at mem ⊢
    tauto
  · rw [expression_of_label named]
    cases found : s.columns.find? fun c => c.itemName? == some name with
    | none =>
      have missing : ¬∃ c ∈ s.columns, c.itemName? = some name := by
        rw [item_iff, found]
        simp
      refine ⟨iff_of_false (Option.some_ne_none _) missing, fun _ => rfl, ?_⟩
      rintro c ⟨⟩
    | some c =>
      have own : c.itemName? = some name := by
        have := List.find?_some found
        exact beq_iff_eq.1 this
      have present := item_iff.2 ⟨c, found⟩
      refine ⟨iff_of_true (fault_reference own) present, fun missing => absurd present missing, ?_⟩
      intro c' same
      rw [← Option.some.inj same]
      rfl
  · rw [exported]
    refine ⟨.inl, fun h => h.resolve_right ?_⟩
    rintro ⟨c, hc, element, mem⟩
    exact apart c hc element mem
  · exact Node.find?_exportedColumns kind apart found

/-! ### A name of a table in the columns clause -/

section Sample

def sampleSource : Node := ⟨0, .table ⟨"u", none, [("a", .integer), ("b", .integer)]⟩, .null, [], []⟩

def sampleField (i : Identity) (name : String) : Node :=
  ⟨i, .column name (some sampleSource) false, .integer, [], []⟩

def sampleName (name : String) : Node := ⟨4, .textualLabelReference name, .null, [], []⟩

/-- A SELECT from the table, ordered by a name. -/
def sampleOrdered (columns : List Node) (name : String) : Node :=
  ⟨5, .select ⟨columns, [sampleSource], none, [], none, [sampleName name], none, none, false, true⟩,
    .null, [], []⟩

/-- A label is referred to by its name, and the SELECT exports it. -/
theorem resolves_sampleOrdered :
    let label : Node := ⟨3, .label (some "x") (sampleField 2 "b"), .integer, [], []⟩
    let columns := [sampleField 1 "a", label]
    let frame := Frame.ofSources [sampleSource] columns
    (sampleOrdered columns "x").kind = .select ⟨columns, [sampleSource], none, [], none,
        [sampleName "x"], none, none, false, true⟩ ∧
      expression .postgres [frame] 0 (sampleName "x") = identifier .postgres "x" ∧
      (sampleOrdered columns "x").exportedColumns.find? (fun column => column.1 == "x") =
        some ("x", .integer) := by
  intro label columns frame
  have shown : Select.shownFroms ⟨columns, [sampleSource], none, [], none, [sampleName "x"], none,
      none, false, true⟩ [] = .ok [sampleSource] := by
    have bound (i : Identity) (name : String) : (sampleField i name).sources = [sampleSource] := by
      rw [Node.sources]
      rfl
    have labelled : label.sources = [sampleSource] := by
      rw [Node.sources]
      show (sampleField 2 "b").sources ++ [] = _
      rw [bound, List.append_nil]
    simp [columns, bound, labelled, Select.shownFroms, Select.candidates, sampleSource,
      Node.innerMembers, Node.distinctOutside]
  have kind : (sampleOrdered columns "x").kind = .select ⟨columns, [sampleSource], none, [], none,
      [sampleName "x"], none, none, false, true⟩ := rfl
  have named : (sampleName "x").kind = .textualLabelReference "x" := rfl
  obtain ⟨-, -, stands, -, agree⟩ := resolves_iff_item kind shown named .postgres
  refine ⟨kind, (stands 0).2.2 label rfl, (agree ?_).2 label rfl⟩
  intro c hc element
  obtain rfl | rfl := List.mem_pair.1 hc <;> cases element

/-- The SELECT of all columns of a table exports its columns, and still cannot be ordered by the name
of one. -/
theorem not_resolves_sampleOrdered :
    "a" ∈ (sampleOrdered [sampleSource] "a").exportedColumns.map Prod.fst ∧
      ((Compiler.new {}).compile (fun _ _ => pure .nothing) (sampleOrdered [sampleSource] "a")
        .postgres {} 6).1.toOption.map (fun out => out.1.sql) = none ∧
      ((Compiler.new {}).compile (fun _ _ => pure .nothing)
        (sampleOrdered [sampleField 1 "a", sampleField 2 "b"] "a") .postgres {} 6).1.toOption.map
          (fun out => out.1.sql) = some "SELECT u.a, u.b FROM u ORDER BY u.a" := by
  refine ⟨?_, by decide +kernel, by decide +kernel⟩
  rw [Node.exportedColumns_of_select rfl]
  simp [Node.itemColumns, Node.itemName?, Node.isFromClause, sampleSource, Node.exportedColumns]

end Sample

end Layout

end SqlAlgebra
