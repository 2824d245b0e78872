import SqlAlgebra.Dialect.Database
import SqlAlgebra.Proofs.Layout.Composition

/-!
# SELECTs in the values of an INSERT

The values of an INSERT are rendered inside the frame of its target, as if they stood in a clause of
a statement that reads from it.  So a SELECT in a value leaves the target out of its FROM list,
although nothing around it provides a row of the target.
-/

namespace SqlAlgebra

open Layout (Rendering statement query)

namespace Select

variable {K : Heap} {next : Identity} {n : Node} {s : Select Node} {fs gs : List Frame}

/-- What a SELECT leaves out decides what it shows. -/
theorem shownFroms_eq_iff (heap : K.Valid next) (root : K n) (hn : n.kind = .select s) :
    s.shownFroms fs = s.shownFroms gs ↔
      ∀ x, s.Candidate x → (s.LeavesOut fs x ↔ s.LeavesOut gs x) := by
  have shown : s.shownFroms fs = s.shownFroms gs ↔ s.remaining fs = s.remaining gs := by
    -- an error tells as much as a list: nothing remains
    constructor
    · intro h
      rw [shownFroms_eq, shownFroms_eq] at h
      split at h
      · next none =>
        split at h
        · next none' =>
          rw [Bool.and_eq_true, List.isEmpty_iff] at none none'
          rw [none.2, none'.2]
        · cases h
      · split at h
        · cases h
        · exact Except.ok.inj h
    · intro h
      rw [shownFroms_eq, shownFroms_eq, h]
  rw [shown]
  constructor
  · intro same x hx
    have mem : x ∈ s.remaining fs ↔ _ := mem_remaining_iff heap root hn
    rw [same, mem_remaining_iff heap root hn] at mem
    exact not_iff_not.1 (by simpa only [hx, true_and] using mem.symm)
  · intro same
    refine List.filter_congr fun x hx => ?_
    have left (frames : List Frame) :
        (s.autoCorrelate && frames.any fun f => f.provides.contains x.id) = true ↔
          s.LeavesOut frames x := by
      simp [LeavesOut, Frame.Provides]
    have eq := same x ((mem_candidates_iff heap root hn).1 hx)
    rw [← left fs, ← left gs, ← Bool.eq_iff_iff] at eq
    rw [eq]

theorem leavesOut_append {x : Node} :
    s.LeavesOut (fs ++ gs) x ↔ s.LeavesOut fs x ∨ s.LeavesOut gs x := by
  simp only [LeavesOut, List.mem_append, or_and_right, exists_or, and_or_left]

theorem leavesOut_target_iff (heap : K.Valid next) {target x : Node} (ht : K target) (hx : K x) :
    s.LeavesOut [.ofSources [target] []] x ↔
      s.autoCorrelate ∧ (x = target ∨ x.MemberOf target) := by
  have provides : (Frame.ofSources [target] []).Provides x ↔ _ :=
    Frame.provides_ofSources_iff heap (by simpa using ht) hx
  simp only [LeavesOut, List.mem_singleton, exists_eq_left, provides]

/-- The values of an INSERT are rendered in the frame of its target. -/
theorem reaches_insertedValue {target v : Node} {values : List (String × Node)}
    {returning : List Node} (hn : n.kind = .insert ⟨target, values, none, returning⟩)
    (hv : v ∈ values.map Prod.snd) (d : Dialect) :
    Rendering.Reaches d ⟨.statement, [], n⟩ ⟨.expression 0, [.ofSources [target] []], v⟩ := by
  obtain ⟨value, mem, rfl⟩ := List.mem_map.1 hv
  refine .single ?_
  rw [Rendering.parts, Rendering.statementParts, hn]
  exact List.mem_cons_of_mem _ (List.mem_append_left _ (List.mem_map.2 ⟨value, mem, rfl⟩))

/-- A SELECT at any depth of a value of an INSERT.  The INSERT contains it as it is rendered in the
frames in which the value reaches it.  It shows the FROM list that it has on its own exactly if it
leaves out none of its candidates, and the target takes something from its FROM list exactly if the
target or a member of it is a candidate that none of the statements in between provides. -/
theorem shownFroms_insertedValue_iff {m target v : Node} {values : List (String × Node)}
    {returning : List Node} {frames : List Frame} (heap : K.Valid next) (root : K n)
    (hn : n.kind = .insert ⟨target, values, none, returning⟩) (hv : v ∈ values.map Prod.snd)
    (d : Dialect) (hm : m.kind = .select s)
    (inside : Rendering.Reaches d ⟨.expression 0, [.ofSources [target] []], v⟩
      ⟨.statement, frames, m⟩) :
    (statement d [] n).Contains (query d frames s) ∧
      (s.shownFroms frames = s.shownFroms [] ↔ ∀ x, s.Candidate x → ¬ s.LeavesOut frames x) ∧
      ∀ around, frames = around ++ [.ofSources [target] []] →
        (s.shownFroms frames = s.shownFroms around ↔
          ∀ x, s.Candidate x → s.autoCorrelate → (x = target ∨ x.MemberOf target) →
            s.LeavesOut around x) := by
  have reaches : Rendering.Reaches d _ _ := (reaches_insertedValue hn hv d).trans inside
  have targetMem : K target := by
    refine heap.occurs root (.deeper ?_ .root)
    rw [Node.children, hn]
    exact List.mem_cons_self
  have mem : K m := heap.occurs root reaches.occurs
  refine ⟨?_, ?_, ?_⟩
  · rw [← Layout.statement_of_select hm]
    exact reaches.contains
  · rw [shownFroms_eq_iff heap mem hm]
    simp [LeavesOut]
  · rintro around rfl
    rw [shownFroms_eq_iff heap mem hm]
    refine forall₂_congr fun x hx => ?_
    rw [leavesOut_append, leavesOut_target_iff heap targetMem (hx.1.mem_heap heap mem hm)]
    tauto

section Sample

/-- A SELECT of a column of a FROM element. -/
def sampleNested (element : Node) : Select Node :=
  ⟨[sampleReference 2 element], [], none, [], none, [], none, none, false, true⟩

def sampleSelect (element : Node) : Node := ⟨3, .select (sampleNested element), .null, [], []⟩

def sampleValue (element : Node) : Node :=
  ⟨4, .scalarSubquery (sampleSelect element), .integer, [], []⟩

/-- An INSERT into the table `t` of the value that the SELECT gives. -/
def sampleInsert (element : Node) : Node :=
  ⟨5, .insert ⟨sampleElement 0 "t", [("a", sampleValue element)], none, []⟩, .null, [], []⟩

theorem reaches_sampleValue (element : Node) (frames : List Frame) :
    Rendering.Reaches Dialect.postgres ⟨.expression 0, frames, sampleValue element⟩
      ⟨.statement, frames, sampleSelect element⟩ :=
  .single List.mem_cons_self

theorem valid_sampleInsert : Heap.Valid (· ∈ [sampleElement 0 "t", sampleElement 1 "u",
    sampleReference 2 (sampleElement 1 "u"), sampleSelect (sampleElement 1 "u"),
    sampleValue (sampleElement 1 "u"), sampleInsert (sampleElement 1 "u")]) 6 := by
  refine Heap.valid_of_list ?_ ?_ ?_
  · simp [sampleInsert, sampleValue, sampleSelect, sampleNested, sampleReference, sampleElement,
      Node.children, Kind.children, Select.children]
  · simp [sampleInsert, sampleValue, sampleSelect, sampleReference, sampleElement]
  · simp [sampleInsert, sampleValue, sampleSelect, sampleReference, sampleElement]

/-- A SELECT from another table than the target shows the FROM list that it has on its own. -/
theorem shownFroms_insertedValue_sampleNested :
    (sampleNested (sampleElement 1 "u")).shownFroms [.ofSources [sampleElement 0 "t"] []] =
      (sampleNested (sampleElement 1 "u")).shownFroms [] := by
  obtain ⟨-, -, target⟩ := shownFroms_insertedValue_iff valid_sampleInsert
    (n := sampleInsert (sampleElement 1 "u")) (v := sampleValue (sampleElement 1 "u"))
    (by simp) rfl (by simp) Dialect.postgres rfl (reaches_sampleValue _ _)
  have candidates : (sampleNested (sampleElement 1 "u")).candidates = [sampleElement 1 "u"] := by
    simp [Select.candidates, sampleNested, sampleReference, sampleElement, Node.sources,
      Node.innerMembers, Node.distinctOutside]
  refine (target [] rfl).2 fun x hx _ provided => ?_
  rw [← mem_candidates_iff valid_sampleInsert (n := sampleSelect (sampleElement 1 "u")) (by simp)
    rfl, candidates] at hx
  obtain rfl := List.mem_singleton.1 hx
  obtain same | inner := provided
  · cases same
  · cases Node.mem_innerMembers_iff.2 inner

/-- A SELECT from the target shows nothing, and with it the INSERT fails. -/
theorem shownFroms_ne_alone_sampleNested :
    Rendering.Reaches Dialect.postgres ⟨.statement, [], sampleInsert (sampleElement 0 "t")⟩
        ⟨.statement, [.ofSources [sampleElement 0 "t"] []], sampleSelect (sampleElement 0 "t")⟩ ∧
      (sampleNested (sampleElement 0 "t")).shownFroms [.ofSources [sampleElement 0 "t"] []] ≠
        (sampleNested (sampleElement 0 "t")).shownFroms [] ∧
      (statement Dialect.postgres [] (sampleInsert (sampleElement 0 "t"))).fault ≠ none := by
  have reaches : Rendering.Reaches Dialect.postgres
      ⟨.statement, [], sampleInsert (sampleElement 0 "t")⟩
      ⟨.statement, [.ofSources [sampleElement 0 "t"] []], sampleSelect (sampleElement 0 "t")⟩ :=
    (reaches_insertedValue rfl (by simp) _).trans (reaches_sampleValue _ _)
  have correlated : (sampleNested (sampleElement 0 "t")).shownFroms
      [.ofSources [sampleElement 0 "t"] []] = .error .allCorrelated := by
    simp [shownFroms, candidates, sampleNested, sampleReference, sampleElement, Node.sources,
      Node.innerMembers, Node.distinctOutside, Frame.ofSources, Node.members]
  have alone : (sampleNested (sampleElement 0 "t")).shownFroms [] = .ok [sampleElement 0 "t"] := by
    simp [shownFroms, candidates, sampleNested, sampleReference, sampleElement, Node.sources,
      Node.innerMembers, Node.distinctOutside]
  refine ⟨reaches, ?_, fun compiles => ?_⟩
  · rw [correlated, alone]
    intro same
    cases same
  · have nested := (reaches.contains compiles).1
    rw [Rendering.layout, Layout.statement_of_select rfl,
      Layout.query_of_error rfl correlated] at nested
    cases nested

end Sample

end Select

end SqlAlgebra
