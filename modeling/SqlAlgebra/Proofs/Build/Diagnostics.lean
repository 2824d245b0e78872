import Mathlib.Logic.Relation
import SqlAlgebra.Proofs.Build.Growth
import SqlAlgebra.Proofs.Survey.Coverage
import SqlAlgebra.Proofs.Survey.KeyEquality

/-!
# Diagnostics on the way to a survey

What is reported about a node stays with it while it goes from one construction into the next, and a
survey of the tree in the end takes it down.  It is lost where the node does not go on: a
construction that takes a node apart keeps what the node holds, and not what was reported about the
node, and one that asks a node for its columns or its key keeps no more than that.  So nothing is
lost exactly where the result reports in another way what was reported about such nodes, or nothing
was.
-/

namespace SqlAlgebra.Construction

open Kind (mem_children_select mem_children_update mem_children_delete)

/-- A step that is taken with nodes that exist. -/
structure Run where
  construction : Construction
  heap : Heap
  start : Identity
  out : Workpiece
  finish : Identity
  valid : heap.Valid start
  within : construction.Within heap
  ran : construction.run start = .ok (out, finish)

variable {c : Construction} {r : Run} {w w' : Workpiece} {a n : Node} {d : Diagnostic}
  {C : Run → Prop}

/-- The nodes that a step opens are among its operands. -/
theorem exists_operand_of_opened (ha : a ∈ c.opened) (hd : d ∈ a.diagnostics) :
    ∃ w ∈ c.operands, w.Reports d := by
  have own : a.Reports d := ⟨a, .root, hd⟩
  have handed (h : a ∈ c.handed) : ∃ w ∈ c.operands, w.Reports d := by
    refine ⟨.node a, List.mem_append_right _ ?_, Workpiece.reports_node.2 own⟩
    exact List.mem_map_of_mem (List.mem_append_left _ h)
  have piece {w : Workpiece} (h : c.pieces = [w]) (hw : w.Reports d) :
      ∃ w ∈ c.operands, w.Reports d :=
    ⟨w, List.mem_append_left _ (h ▸ List.mem_singleton_self w), hw⟩
  rcases List.mem_append.1 ha with ha | ha
  · cases c <;> simp only [split, List.not_mem_nil, List.mem_filter, List.mem_ite_nil_right] at ha
    case junction =>
      refine handed ?_
      rw [Construction.handed, coercions, List.flatMap_map]
      exact ha.1
    case negation => exact handed (by simpa [Construction.handed, coercions] using ha.1)
    case ordered | aliased =>
      obtain ⟨-, h⟩ := ha
      rw [List.mem_singleton.1 h] at own
      exact piece rfl (Workpiece.reports_node.2 own)
    case filter | having => exact piece rfl (.inr ⟨a, mem_children_select.2 (by tauto), own⟩)
    case filterUpdated => exact piece rfl (.inr ⟨a, mem_children_update.2 (by tauto), own⟩)
    case filterDeleted => exact piece rfl (.inr ⟨a, mem_children_delete.2 (by tauto), own⟩)
  · obtain ⟨place, hplace, ha⟩ := List.mem_flatMap.1 ha
    exact handed (List.mem_flatMap.2 ⟨place, hplace, (List.mem_filter.1 ha).1⟩)

/-- What a step exposes is reported by one of its operands. -/
theorem exists_operand_of_exposes (h : c.Exposes d) : ∃ w ∈ c.operands, w.Reports d := by
  rcases h with ⟨a, ha, hd⟩ | ⟨a, ha, hd⟩
  · exact exists_operand_of_opened ha hd
  · refine ⟨.node a, List.mem_append_right _ ?_, Workpiece.reports_node.2 hd⟩
    exact List.mem_map_of_mem (List.mem_append_right _ ha)

namespace Run

/-- A node that a step gives is coherent. -/
theorem isCoherent (r : Run) (h : r.out = .node n) : n.IsCoherent := by
  obtain ⟨-, K, -, valid, within⟩ := grows_run r.within r.valid r.ran
  rw [h] at within
  exact valid.isCoherent within

/-- Whether a diagnostic goes with a workpiece into a step: the workpiece is an operand, and no
value that the step replaces reports it. -/
def Takes (r : Run) (d : Diagnostic) (w : Workpiece) : Prop :=
  w ∈ r.construction.operands ∧ ∀ v ∈ r.construction.replaced, ¬v.Reports d

/-- Whether the result of a step reports what the step exposes. -/
def Carries (r : Run) : Prop :=
  ∀ d, r.construction.Exposes d → (∀ v ∈ r.construction.replaced, ¬v.Reports d) → r.out.Reports d

/-- A step that carries over what it exposes keeps what goes into it. -/
theorem reports_of_takes (carries : r.Carries) (h : r.Takes d w) (hd : w.Reports d) :
    r.out.Reports d := by
  rcases (retained_of_run r.ran).operands w h.1 d hd with hd | exposed | ⟨v, hv, hd⟩
  · exact hd
  · exact carries d exposed h.2
  · exact absurd hd (h.2 v hv)

end Run

/-- Whether one step of a class leads from a workpiece that a diagnostic goes with to another one.
-/
def Leads (C : Run → Prop) (d : Diagnostic) (w w' : Workpiece) : Prop :=
  ∃ r, C r ∧ r.Takes d w ∧ r.out = w'

theorem reports_of_transGen (carries : ∀ r, C r → r.Carries)
    (h : Relation.TransGen (Leads C d) w w') (hd : w.Reports d) : w'.Reports d := by
  induction h with
  | single h =>
    obtain ⟨r, hr, takes, rfl⟩ := h
    exact Run.reports_of_takes (carries r hr) takes hd
  | tail _ h ih =>
    obtain ⟨r, hr, takes, rfl⟩ := h
    exact Run.reports_of_takes (carries r hr) takes ih

/-- Every step reports what its coercions leave, and a survey of a node that it gives has what the
node reports.  Along the sequences of steps of a class nothing that goes into a step is lost,
exactly if every step of the class reports what was said about the nodes that it opens, and what
those report that it dissolves. -/
theorem kept_along_iff (C : Run → Prop) :
    (∀ r, C r →
      (∃ ds next, Build.raised r.construction.coercions r.start = .ok (ds, next) ∧
        ∀ d ∈ ds, r.out.Reports d) ∧
      ∀ n, r.out = .node n → ∀ bound d, d ∈ (n.surveyed bound).diagnostics ↔ r.out.Reports d) ∧
    ((∀ d w w', Relation.TransGen (Leads C d) w w' → w.Reports d → w'.Reports d) ↔
      ∀ r, C r → r.Carries) := by
  refine ⟨fun r _ => ⟨(retained_of_run r.ran).raised, fun n hn bound d => ?_⟩, fun kept r hr => ?_,
    fun carries d w w' h hd => reports_of_transGen carries h hd⟩
  · rw [hn, Workpiece.reports_node]
    exact Node.mem_diagnostics_iff (r.isCoherent hn)
  · intro d exposed free
    obtain ⟨w, hw, reports⟩ := exists_operand_of_exposes exposed
    exact kept d w r.out (.single ⟨r, hr, ⟨hw, free⟩, rfl⟩) reports

section Sample

/-- A SELECT that is taken for a single value where an expression is expected, which is deprecated.
-/
def sampleQuery : Node :=
  ⟨2, .select { Select.empty with columns := [Node.sampleColumn 0] }, .null, [], []⟩

/-- The single value. -/
def sampleValue : Node :=
  ⟨3, .scalarSubquery sampleQuery, sampleQuery.firstColumnType, [], []⟩

/-- The conjunction of the SELECT alone, with the deprecation on it. -/
def sampleConjunction : Node :=
  ⟨4, .clauseList .and [sampleValue], .boolean, [], [⟨.deprecated, selectAsScalar, .whereHaving⟩]⟩

/-- The comparison of a column with the SELECT, with the deprecation on it. -/
def sampleComparison : Node :=
  ⟨4, .binary (Node.sampleColumn 0) .eq sampleValue, .boolean, [],
    [⟨.deprecated, selectAsScalar, .binaryElement⟩]⟩

/-- The conjunction with a second clause.  The first conjunction is taken apart. -/
def sampleFlattened : Node :=
  ⟨6, .clauseList .and [sampleValue, ⟨5, .truth true, .boolean, [], []⟩], .boolean, [], []⟩

def sampleNodes : List Node :=
  [Node.sampleTable 0, Node.sampleColumn 0, sampleQuery, sampleValue, sampleConjunction]

theorem valid_sampleNodes : Heap.Valid (· ∈ sampleNodes) 5 := by
  refine Heap.valid_of_list ?_ ?_ ?_
  · simp [sampleNodes, sampleConjunction, sampleValue, sampleQuery, Node.sampleColumn,
      Node.sampleTable, Node.children, Kind.children, Select.children, Select.empty]
  · simp [sampleNodes, sampleConjunction, sampleValue, sampleQuery, Node.sampleColumn,
      Node.sampleTable]
  · simp [sampleNodes, sampleConjunction, sampleValue, sampleQuery, Node.sampleColumn,
      Node.sampleTable]

/-- The step that adds the second clause. -/
def sampleRun : Run where
  construction := .junction .and "and_" [.node sampleConjunction, .boolean true]
  heap := (· ∈ sampleNodes)
  start := 5
  out := .node sampleFlattened
  finish := 7
  valid := valid_sampleNodes
  within := by
    refine ⟨nofun, fun place hplace n mentioned => ?_⟩
    obtain ⟨input, hinput, rfl⟩ := List.mem_map.1 hplace
    obtain rfl | rfl := List.mem_pair.1 hinput
    · cases mentioned
      simp [sampleNodes]
    · cases mentioned
  ran := rfl

end Sample

/-- The step that adds a clause to the conjunction does not carry over what was said about it, so along
its runs something is lost: it does not come as far as a survey of the result. -/
theorem kept_along_iff_sampleRun :
    ¬ sampleRun.Carries ∧
      ¬ ∀ d w w', Relation.TransGen (Leads (· = sampleRun) d) w w' → w.Reports d → w'.Reports d := by
  obtain ⟨surveyed, kept⟩ := kept_along_iff (· = sampleRun)
  have lost : ¬ sampleRun.Carries := by
    intro carries
    have exposed : sampleRun.construction.Exposes ⟨.deprecated, selectAsScalar, .whereHaving⟩ :=
      .inl ⟨sampleConjunction, List.mem_cons_self, List.mem_cons_self⟩
    have reported := carries _ exposed nofun
    rw [← (surveyed sampleRun rfl).2 sampleFlattened rfl 100] at reported
    have none : (sampleFlattened.surveyed 100).diagnostics = [] := by decide +kernel
    rw [none] at reported
    cases reported
  exact ⟨lost, fun all => lost (kept.1 all sampleRun rfl)⟩

/-- A deprecation gets lost where its conjunction becomes part of another one, where its comparison
is negated, and where a second criterion is added to a statement that has its conjunction as the
first. -/
theorem lost_deprecations :
    Build.conjunction [.node sampleQuery] 3 = .ok (sampleConjunction, 5) ∧
    (sampleConjunction.surveyed 100).diagnostics = [⟨.deprecated, selectAsScalar, .whereHaving⟩] ∧
    (∃ n, Build.conjunction [.node sampleConjunction, .boolean true] 5 = .ok (n, 7) ∧
      (n.surveyed 100).diagnostics = []) ∧
    (Node.sampleColumn 0).compare .eq (.node sampleQuery) 3 = .ok (sampleComparison, 5) ∧
    (sampleComparison.surveyed 100).diagnostics =
      [⟨.deprecated, selectAsScalar, .binaryElement⟩] ∧
    (∃ n, Build.negation (.node sampleComparison) 5 = .ok (n, 6) ∧
      (n.surveyed 100).diagnostics = []) ∧
    ∃ first second n, SelectDraft.empty.filter (.node sampleConjunction) 5 = .ok (first, 5) ∧
      first.filter (.boolean true) 5 = .ok (second, 7) ∧ second.build 7 = .ok (n, 8) ∧
        (n.surveyed 100).diagnostics = [] := by
  refine ⟨rfl, by decide +kernel, ⟨_, rfl, by decide +kernel⟩, rfl, by decide +kernel,
    ⟨_, rfl, by decide +kernel⟩, _, _, _, rfl, rfl, rfl, by decide +kernel⟩

end SqlAlgebra.Construction
