import SqlAlgebra.Error
import SqlAlgebra.Tree.Node
import SqlAlgebra.Tree.Class

/-!
# FROM lists

The FROM list of a SELECT names the elements that its columns and its criteria refer to, then those that
it lists.  An element that a listed join contains is not named beside the join, and a SELECT inside
another statement leaves out what that statement already provides.
-/

namespace SqlAlgebra

/-- What a statement offers to the statements inside it. -/
structure Frame where
  /-- The FROM elements in scope, the members of joins included. -/
  provides : List Identity
  /-- The columns that ORDER BY and GROUP BY can refer to by label. -/
  columns : List Node

namespace Node

/-- The FROM elements that an expression refers to, without those of statements inside it. -/
def sources (n : Node) : List Node :=
  match n.kind with
  | .column _ source _ => source.toList
  | .tableValued element => [element]
  | .table _ | .alias _ _ | .subquery _ _ | .join _ => [n]
  | .scalarSubquery _ | .select _ | .compound _ _ | .textualSelect _ _ | .labelReference _ => []
  | _ => n.children.attach.flatMap fun c => sources c.1
termination_by sizeOf n
decreasing_by exact sizeOf_child c.2

/-- A FROM element with the members of the joins in it. -/
def members (n : Node) : List Node :=
  match _h : n.kind with
  | .join j => n :: (members j.left ++ members j.right)
  | _ => [n]
termination_by sizeOf n
decreasing_by all_goals exact sizeOf_child (by simp [children, Kind.children, *])

/-- The members of a join without the join itself. -/
def innerMembers (n : Node) : List Node :=
  match n.kind with
  | .join j => j.left.members ++ j.right.members
  | _ => []

/-- The nodes of a list that are not among some identities, each once. -/
def distinctOutside : List Identity → List Node → List Node
  | _, [] => []
  | seen, n :: rest =>
    if seen.contains n.id then distinctOutside seen rest
    else n :: distinctOutside (n.id :: seen) rest

end Node

namespace Frame

/-- The frame of a statement with these FROM elements. -/
def ofSources (froms columns : List Node) : Frame :=
  ⟨(froms.flatMap Node.members).map Node.id, columns⟩

end Frame

namespace Select

/-- The FROM elements that a SELECT has to name, whatever surrounds it. -/
def candidates (s : Select Node) : List Node :=
  let found :=
    s.columns.flatMap Node.sources ++ s.criteria.toList.flatMap Node.sources ++ s.froms
  Node.distinctOutside ((found.flatMap Node.innerMembers).map Node.id) found

/-- The FROM list of a SELECT inside statements with these frames. -/
def shownFroms (s : Select Node) (frames : List Frame) : Except CompileFault (List Node) :=
  let candidates := s.candidates
  if !s.autoCorrelate || frames.isEmpty || candidates.isEmpty then .ok candidates
  else
    let remaining := candidates.filter fun n => !frames.any fun frame => frame.provides.contains n.id
    if remaining.isEmpty then .error .allCorrelated else .ok remaining

end Select

/-- What an expression refers to stands in it. -/
theorem Node.sizeOf_sources {x n : Node} (h : x ∈ n.sources) : sizeOf x ≤ sizeOf n := by
  induction n using Node.induct with
  | step n ih =>
    have child {c : Node} (hc : c ∈ n.children) : sizeOf c ≤ sizeOf n :=
      Nat.le_of_lt (Node.sizeOf_child hc)
    have below : x ∈ (n.children.attach.flatMap fun c => c.1.sources) → sizeOf x ≤ sizeOf n := by
      intro hx
      obtain ⟨⟨c, hc⟩, -, hx⟩ := List.mem_flatMap.1 hx
      exact Nat.le_trans (ih c hc hx) (child hc)
    unfold Node.sources at h
    split at h
    case h_1 name source isLiteral hk =>
      exact child (by simpa [Node.children, Kind.children, hk] using h)
    case h_2 element hk => exact child (by simpa [Node.children, Kind.children, hk] using h)
    all_goals first
      | exact below h
      | simp at h
    all_goals
      subst h
      exact Nat.le_refl _

theorem Node.mem_of_mem_distinctOutside {x : Node} {seen : List Identity} {ns : List Node}
    (h : x ∈ Node.distinctOutside seen ns) : x ∈ ns := by
  induction ns generalizing seen with
  | nil => simp [Node.distinctOutside] at h
  | cons n rest ih =>
    unfold Node.distinctOutside at h
    split at h
    · exact List.mem_cons_of_mem _ (ih h)
    · rcases List.mem_cons.1 h with rfl | h
      · exact List.mem_cons_self
      · exact List.mem_cons_of_mem _ (ih h)

/-- A FROM element that a SELECT shows stands in it. -/
theorem Select.sizeOf_shown {x : Node} {s : Select Node} {frames : List Frame} {froms : List Node}
    (h : s.shownFroms frames = .ok froms) (hx : x ∈ froms) : sizeOf x < sizeOf s := by
  have inside {c : Node} (hc : c ∈ s.children) (hx : x ∈ c.sources) : sizeOf x < sizeOf s :=
    Nat.lt_of_le_of_lt (Node.sizeOf_sources hx) (Select.sizeOf_child hc)
  have candidate (hx : x ∈ s.candidates) : sizeOf x < sizeOf s := by
    have hx := Node.mem_of_mem_distinctOutside hx
    simp only [List.mem_append, List.mem_flatMap] at hx
    rcases hx with (⟨c, hc, hx⟩ | ⟨c, hc, hx⟩) | hx
    · exact inside (by simp [Select.children, hc]) hx
    · exact inside (by simp at hc; simp [Select.children, hc]) hx
    · exact Select.sizeOf_child (by simp [Select.children, hx])
  unfold Select.shownFroms at h
  dsimp only at h
  split at h
  · cases h
    exact candidate hx
  · split at h
    · cases h
    · cases h
      exact candidate (List.mem_filter.1 hx).1

end SqlAlgebra
