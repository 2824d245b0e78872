import SqlAlgebra.Proofs.Layout.Correlation
import SqlAlgebra.Proofs.Layout.Faults

/-!
# Statements inside statements

A node is rendered by rendering its parts, each in a position and inside the frames of the
statements around it.  `Rendering.parts` follows the rendering functions and says which parts these
are.  So what a SELECT inside an expression shows as its FROM list can be read off the frames in
which the expression reaches it.
-/

namespace SqlAlgebra

namespace Layout

/-- Whether a layout contains another one: if it does not fail, the other does not fail either and
its pieces stand in it one after another. -/
def Contains (x y : Layout) : Prop := x.fault = none → y.fault = none ∧ y.pieces <:+: x.pieces

namespace Contains

variable {x y z : Layout}

theorem refl (x : Layout) : x.Contains x := fun h => ⟨h, List.infix_refl _⟩

theorem trans (h : x.Contains y) (h' : y.Contains z) : x.Contains z := fun hx => by
  obtain ⟨hy, inner⟩ := h hx
  obtain ⟨hz, innermost⟩ := h' hy
  exact ⟨hz, innermost.trans inner⟩

/-- Layouts that are put together without a failure do not fail themselves. -/
theorem of_append (x y : Layout) : (x ++ y).Contains x ∧ (x ++ y).Contains y := by
  rcases x with ⟨pieces, _ | fault⟩
  · exact ⟨fun _ => ⟨rfl, ⟨[], y.pieces, rfl⟩⟩, fun h => ⟨h, ⟨pieces, [], List.append_nil _⟩⟩⟩
  · exact ⟨nofun, nofun⟩

end Contains

/-- The positions in which a node is rendered. -/
inductive Position where
  | statement
  | fromElement
  | columnItem
  | labelReference
  /-- Inside an operator of some strength. -/
  | expression (outer : Nat)

/-- A node that is rendered in a position, inside the frames of the statements around it. -/
structure Rendering where
  position : Position
  frames : List Frame
  node : Node

namespace Rendering

def layout (d : Dialect) : Rendering → Layout
  | ⟨.statement, frames, n⟩ => statement d frames n
  | ⟨.fromElement, frames, n⟩ => fromElement d frames n
  | ⟨.columnItem, frames, n⟩ => columnItem d frames n
  | ⟨.labelReference, frames, n⟩ => labelReference d frames n
  | ⟨.expression outer, frames, n⟩ => expression d frames outer n

/-- The parts of a SELECT.  They are inside its own frame. -/
def selectParts (frames : List Frame) (s : Select Node) : List Rendering :=
  match s.shownFroms frames with
  | .error _ => []
  | .ok froms =>
    let inner := Frame.ofSources froms s.columns :: frames
    s.columns.map (⟨.columnItem, inner, ·⟩) ++ froms.map (⟨.fromElement, inner, ·⟩) ++
      (s.criteria.toList ++ s.groupBy ++ s.having.toList ++ s.orderBy ++ s.limit.toList ++
        s.offset.toList).map (⟨.expression 0, inner, ·⟩)

/-- The parts of a statement.  What an INSERT, UPDATE or DELETE is about is in scope in them, apart
from the SELECT that an INSERT takes its rows from. -/
def statementParts (frames : List Frame) (n : Node) : List Rendering :=
  match n.kind with
  | .select s => selectParts frames s
  | .compound _ selects => selects.map (⟨.statement, frames, ·⟩)
  | .textualSelect sql _ => [⟨.expression 0, frames, sql⟩]
  | .insert ⟨target, values, source, returning⟩ =>
    let inner := Frame.ofSources [target] [] :: frames
    ⟨.fromElement, frames, target⟩ ::
      ((match source with
        | some (_, select) => [⟨.statement, [], select⟩]
        | none => values.map fun value => ⟨.expression 0, inner, value.2⟩) ++
        returning.map (⟨.columnItem, inner, ·⟩))
  | .update ⟨target, values, criteria, returning⟩ =>
    let inner := Frame.ofSources [target] [] :: frames
    ⟨.fromElement, frames, target⟩ ::
      ((values.map Prod.snd ++ criteria.toList).map (⟨.expression 0, inner, ·⟩) ++
        returning.map (⟨.columnItem, inner, ·⟩))
  | .delete ⟨target, criteria, returning⟩ =>
    let inner := Frame.ofSources [target] [] :: frames
    ⟨.fromElement, frames, target⟩ ::
      (criteria.toList.map (⟨.expression 0, inner, ·⟩) ++ returning.map (⟨.columnItem, inner, ·⟩))
  | _ => if n.isFromClause then [⟨.fromElement, frames, n⟩] else [⟨.expression 0, frames, n⟩]

/-- The parts of a FROM element.  Statements in it are on their own. -/
def fromElementParts (frames : List Frame) (n : Node) : List Rendering :=
  match n.kind with
  | .alias element _ | .subquery element _ =>
    match element.kind with
    | .table _ => []
    | _ => [⟨.statement, [], element⟩]
  | .join ⟨left, right, on, _⟩ =>
    [⟨.fromElement, frames, left⟩, ⟨.fromElement, frames, right⟩, ⟨.expression 0, frames, on⟩]
  | .select _ | .compound _ _ | .textualSelect _ _ => [⟨.statement, [], n⟩]
  | _ => []

def columnItemParts (frames : List Frame) (n : Node) : List Rendering :=
  match n.kind with
  | .label _ element => [⟨.expression 0, frames, element⟩]
  | _ => if n.isFromClause then [] else [⟨.expression 0, frames, n⟩]

def labelReferenceParts (frames : List Frame) (target : Node) : List Rendering :=
  match target.kind with
  | .label _ element => if isInScope frames target then [] else [⟨.expression 0, frames, element⟩]
  | .ordering element _ _ => [⟨.labelReference, frames, element⟩]
  | _ => [⟨.expression 0, frames, target⟩]

def operationParts (frames : List Frame) (left : Node) (op : BinaryOp) (right : Node) :
    List Rendering :=
  ⟨.expression op.precedence, frames, left⟩ ::
    match bounds? op right with
    | some (low, high) => [low, high].map (⟨.expression (op.precedence + 1), frames, ·⟩)
    | none => [⟨.expression (rightStrength op), frames, right⟩]

def expressionParts (d : Dialect) (frames : List Frame) (outer : Nat) (n : Node) :
    List Rendering :=
  match n.kind with
  | .unary op operand => [⟨.expression (operandStrength op), frames, operand⟩]
  | .binary left op right =>
    match d.spelling op with
    | none => []
    | some (.call _) => [left, right].map (⟨.expression 0, frames, ·⟩)
    | some _ => operationParts frames left op right
  | .clauseList _ [single] => [⟨.expression outer, frames, single⟩]
  | .clauseList op clauses => clauses.map (⟨.expression op.precedence, frames, ·⟩)
  | .function _ args => args.map (⟨.expression 0, frames, ·⟩)
  | .cast element type =>
    match d.typeName type with
    | none => []
    | some _ => [⟨.expression 0, frames, element⟩]
  | .grouping element | .ordering element _ _ => [⟨.expression 0, frames, element⟩]
  | .label _ element => [⟨.expression outer, frames, element⟩]
  | .labelReference target => [⟨.labelReference, frames, target⟩]
  | .scalarSubquery select => [⟨.statement, frames, select⟩]
  | .select _ | .compound _ _ | .textualSelect _ _ => [⟨.statement, frames, n⟩]
  | _ => []

/-- What is rendered for a node directly. -/
def parts (d : Dialect) : Rendering → List Rendering
  | ⟨.statement, frames, n⟩ => statementParts frames n
  | ⟨.fromElement, frames, n⟩ => fromElementParts frames n
  | ⟨.columnItem, frames, n⟩ => columnItemParts frames n
  | ⟨.labelReference, frames, n⟩ => labelReferenceParts frames n
  | ⟨.expression outer, frames, n⟩ => expressionParts d frames outer n

/-- Whether a rendering comes to another one, at any depth. -/
def Reaches (d : Dialect) : Rendering → Rendering → Prop :=
  Relation.ReflTransGen fun r part => part ∈ r.parts d

variable {d : Dialect} {frames : List Frame} {n : Node} {r part : Rendering} {s : Select Node}

/-! ### What a rendering comes to is smaller -/

/-- A number for the position, which is smaller where a node is rendered in place of itself.  A SELECT
is written as a statement also where it stands for something else. -/
def rank : Rendering → Nat
  | ⟨.statement, _, n⟩ =>
    match n.kind with
    | .select _ | .compound _ _ | .textualSelect _ _ => 0
    | _ => 2
  | ⟨.fromElement, _, _⟩ | ⟨.expression _, _, _⟩ => 1
  | ⟨.columnItem, _, _⟩ | ⟨.labelReference, _, _⟩ => 2

/-- Whether a rendering has another one below it: that of something in a child of its node, or that of
the node itself in a position of a smaller rank. -/
inductive Below (r : Rendering) : Rendering → Prop where
  | child {part : Rendering} {c : Node} :
      c ∈ r.node.children → Node.Occurs part.node c → Below r part
  | itself {part : Rendering} : part.node = r.node → part.rank < r.rank → Below r part

theorem below_of_mem_map {cs : List Node} {f : Node → Rendering} (node : ∀ c, (f c).node = c)
    (h : part ∈ cs.map f) (child : ∀ c ∈ cs, c ∈ r.node.children) : r.Below part := by
  obtain ⟨c, hc, rfl⟩ := List.mem_map.1 h
  refine .child (child c hc) ?_
  rw [node]
  exact .root

theorem below_of_mem_singleton {position : Position} {c : Node}
    (h : part ∈ [⟨position, frames, c⟩]) (child : c ∈ r.node.children) : r.Below part := by
  obtain rfl := List.mem_singleton.1 h
  exact .child child .root

theorem below_itself {position : Position} (h : part ∈ [⟨position, frames, r.node⟩])
    (less : rank ⟨position, frames, r.node⟩ < r.rank) : r.Below part := by
  obtain rfl := List.mem_singleton.1 h
  exact .itself rfl less

theorem below_of_mem_selectParts (hn : r.node.kind = .select s) (h : part ∈ selectParts frames s) :
    r.Below part := by
  have child : r.node.children = s.children := by rw [Node.children, hn]; rfl
  unfold selectParts at h
  cases hf : s.shownFroms frames with
  | error fault =>
    rw [hf] at h
    cases h
  | ok froms =>
    rw [hf] at h
    obtain h | h := List.mem_append.1 h
    · obtain h | h := List.mem_append.1 h
      · refine below_of_mem_map (fun _ => rfl) h fun c hc => ?_
        simp [child, Select.children, hc]
      · obtain ⟨x, hx, rfl⟩ := List.mem_map.1 h
        obtain ⟨c, hc, inside⟩ := (Select.finds_of_mem_shownFroms hf hx).occurs_child
        exact .child (child ▸ hc) inside
    · refine below_of_mem_map (fun _ => rfl) h fun c hc => ?_
      rw [child, Select.children]
      simp only [List.mem_append] at hc ⊢
      tauto

theorem below_of_mem_statementParts (h : part ∈ statementParts frames n) :
    Below ⟨.statement, frames, n⟩ part := by
  have other (h : part ∈ if n.isFromClause then [⟨.fromElement, frames, n⟩]
      else [⟨.expression 0, frames, n⟩]) (two : rank ⟨.statement, frames, n⟩ = 2) :
      Below ⟨.statement, frames, n⟩ part := by
    split at h
    · exact below_itself h (two ▸ Nat.lt_succ_self 1)
    · exact below_itself h (two ▸ Nat.lt_succ_self 1)
  rcases n with ⟨i, kind, type, annotations, diagnostics⟩
  unfold statementParts at h
  cases kind with
  | select s => exact below_of_mem_selectParts rfl h
  | compound => exact below_of_mem_map (fun _ => rfl) h fun _ hc => hc
  | textualSelect => exact below_of_mem_singleton h List.mem_cons_self
  | insert s =>
    rcases s with ⟨target, values, source, returning⟩
    obtain rfl | h := List.mem_cons.1 h
    · exact .child List.mem_cons_self .root
    obtain h | h := List.mem_append.1 h
    · cases source with
      | some source =>
        refine below_of_mem_singleton h ?_
        simp [Node.children, Kind.children]
      | none =>
        obtain ⟨value, hv, rfl⟩ := List.mem_map.1 h
        refine .child ?_ .root
        simp [Node.children, Kind.children, List.mem_map_of_mem hv]
    · refine below_of_mem_map (fun _ => rfl) h fun c hc => ?_
      simp [Node.children, Kind.children, hc]
  | update s =>
    rcases s with ⟨target, values, criteria, returning⟩
    obtain rfl | h := List.mem_cons.1 h
    · exact .child List.mem_cons_self .root
    obtain h | h := List.mem_append.1 h
    · refine below_of_mem_map (fun _ => rfl) h fun c hc => ?_
      exact List.mem_cons_of_mem _ (List.mem_append_left _ hc)
    · refine below_of_mem_map (fun _ => rfl) h fun c hc => ?_
      exact List.mem_cons_of_mem _ (List.mem_append_right _ hc)
  | delete s =>
    rcases s with ⟨target, criteria, returning⟩
    obtain rfl | h := List.mem_cons.1 h
    · exact .child List.mem_cons_self .root
    obtain h | h := List.mem_append.1 h
    · refine below_of_mem_map (fun _ => rfl) h fun c hc => ?_
      exact List.mem_cons_of_mem _ (List.mem_append_left _ hc)
    · refine below_of_mem_map (fun _ => rfl) h fun c hc => ?_
      exact List.mem_cons_of_mem _ (List.mem_append_right _ hc)
  | _ => exact other h rfl

theorem below_of_mem_fromElementParts (h : part ∈ fromElementParts frames n) :
    Below ⟨.fromElement, frames, n⟩ part := by
  rcases n with ⟨i, kind, type, annotations, diagnostics⟩
  unfold fromElementParts at h
  cases kind with
  | «alias» | subquery =>
    dsimp only at h
    split at h
    · cases h
    · exact below_of_mem_singleton h List.mem_cons_self
  | join j =>
    simp only [List.mem_cons, List.not_mem_nil, or_false] at h
    obtain rfl | rfl | rfl := h <;> exact .child (by simp [Node.children, Kind.children]) .root
  | select | compound | textualSelect =>
    obtain rfl := List.mem_singleton.1 h
    exact .itself rfl (Nat.lt_succ_self 0)
  | _ => cases h

theorem below_of_mem_columnItemParts (h : part ∈ columnItemParts frames n) :
    Below ⟨.columnItem, frames, n⟩ part := by
  unfold columnItemParts at h
  split at h
  · next hn =>
    refine below_of_mem_singleton h ?_
    simp [Node.children, Kind.children, hn]
  · split at h
    · cases h
    · exact below_itself h (Nat.lt_succ_self 1)

theorem below_of_mem_labelReferenceParts (h : part ∈ labelReferenceParts frames n) :
    Below ⟨.labelReference, frames, n⟩ part := by
  unfold labelReferenceParts at h
  split at h
  · next hn =>
    split at h
    · cases h
    · refine below_of_mem_singleton h ?_
      simp [Node.children, Kind.children, hn]
  · next hn =>
    refine below_of_mem_singleton h ?_
    simp [Node.children, Kind.children, hn]
  · exact below_itself h (Nat.lt_succ_self 1)

theorem below_of_mem_operationParts {left right : Node} {op : BinaryOp}
    (h : part ∈ operationParts frames left op right) (hl : left ∈ r.node.children)
    (hr : right ∈ r.node.children) : r.Below part := by
  obtain rfl | h := List.mem_cons.1 h
  · exact .child hl .root
  split at h
  · next low high hb =>
    obtain ⟨c, hc, rfl⟩ := List.mem_map.1 h
    exact .child hr (.deeper (children_of_bounds hb ▸ hc) .root)
  · exact below_of_mem_singleton h hr

theorem below_of_mem_expressionParts {outer : Nat} (h : part ∈ expressionParts d frames outer n) :
    Below ⟨.expression outer, frames, n⟩ part := by
  rcases n with ⟨i, kind, type, annotations, diagnostics⟩
  unfold expressionParts at h
  cases kind with
  | unary | grouping | ordering | label | labelReference | scalarSubquery =>
    exact below_of_mem_singleton h List.mem_cons_self
  | select | compound | textualSelect =>
    obtain rfl := List.mem_singleton.1 h
    exact .itself rfl (Nat.lt_succ_self 0)
  | function => exact below_of_mem_map (fun _ => rfl) h fun _ hc => hc
  | binary left op right =>
    dsimp only at h
    split at h
    · cases h
    · exact below_of_mem_map (fun _ => rfl) h fun _ hc => hc
    · exact below_of_mem_operationParts h List.mem_cons_self
        (List.mem_cons_of_mem _ List.mem_cons_self)
  | clauseList op clauses =>
    obtain _ | ⟨first, _ | ⟨second, rest⟩⟩ := clauses
    · cases h
    · exact below_of_mem_singleton h List.mem_cons_self
    · exact below_of_mem_map (fun _ => rfl) h fun _ hc => hc
  | cast =>
    dsimp only at h
    split at h
    · cases h
    · exact below_of_mem_singleton h List.mem_cons_self
  | _ => cases h

theorem below_of_mem_parts (h : part ∈ r.parts d) : r.Below part := by
  rcases r with ⟨position, frames, n⟩
  cases position with
  | statement => exact below_of_mem_statementParts h
  | fromElement => exact below_of_mem_fromElementParts h
  | columnItem => exact below_of_mem_columnItemParts h
  | labelReference => exact below_of_mem_labelReferenceParts h
  | expression outer => exact below_of_mem_expressionParts h

/-- A number that is smaller for what is below. -/
noncomputable def weight (r : Rendering) : Nat := 3 * sizeOf r.node + r.rank

theorem rank_le (r : Rendering) : r.rank ≤ 2 := by
  rcases r with ⟨position, frames, n⟩
  cases position with
  | statement =>
    unfold rank
    dsimp only
    split <;> omega
  | fromElement | expression => exact Nat.le_succ 1
  | columnItem | labelReference => exact Nat.le_refl 2

theorem Below.weight_lt (h : r.Below part) : part.weight < r.weight := by
  unfold weight
  cases h with
  | child hc inside =>
    have := Node.sizeOf_child hc
    have := Node.sizeOf_occurs inside
    have := part.rank_le
    omega
  | itself same less =>
    rw [same]
    omega

/-- What is rendered for a node stands in it. -/
theorem occurs_of_mem_parts (h : part ∈ r.parts d) : Node.Occurs part.node r.node := by
  cases below_of_mem_parts h with
  | child hc inside => exact inside.trans (.deeper hc .root)
  | itself same => exact same ▸ .root

theorem Reaches.occurs (h : r.Reaches d part) : Node.Occurs part.node r.node := by
  induction h with
  | refl => exact .root
  | tail _ step ih => exact (occurs_of_mem_parts step).trans ih

/-! ### The frames that a rendering comes to -/

/-- Whether a rendering puts a frame around its parts: that of its SELECT, or that of the target of
its change. -/
inductive Opens (r : Rendering) : Frame → Prop where
  | select {s : Select Node} {froms : List Node} :
      r.node.kind = .select s → s.shownFroms r.frames = .ok froms →
      Opens r (.ofSources froms s.columns)
  | target {target : Node} : target ∈ r.node.children → Opens r (.ofSources [target] [])

/-- The frames around the parts of a rendering: its own, none, or its own with one that it puts there. -/
inductive Inside (r : Rendering) : List Frame → Prop where
  | same : Inside r r.frames
  | alone : Inside r []
  | opened {f : Frame} : r.Opens f → Inside r (f :: r.frames)

theorem frames_of_mem_map {cs : List Node} {f : Node → Rendering}
    (frame : ∀ c, (f c).frames = frames) (h : part ∈ cs.map f) : part.frames = frames := by
  obtain ⟨c, -, rfl⟩ := List.mem_map.1 h
  exact frame c

theorem frames_of_mem_singleton {position : Position} {c : Node}
    (h : part ∈ [⟨position, frames, c⟩]) : part.frames = frames := by
  rw [List.mem_singleton.1 h]

theorem frames_of_mem_expressionParts {outer : Nat} (h : part ∈ expressionParts d frames outer n) :
    part.frames = frames := by
  rcases n with ⟨i, kind, type, annotations, diagnostics⟩
  unfold expressionParts at h
  cases kind with
  | unary | grouping | ordering | label | labelReference | scalarSubquery | select | compound
  | textualSelect => exact frames_of_mem_singleton h
  | function => exact frames_of_mem_map (fun _ => rfl) h
  | binary left op right =>
    dsimp only at h
    split at h
    · cases h
    · exact frames_of_mem_map (fun _ => rfl) h
    · obtain rfl | h := List.mem_cons.1 h
      · rfl
      split at h
      · exact frames_of_mem_map (fun _ => rfl) h
      · exact frames_of_mem_singleton h
  | clauseList op clauses =>
    obtain _ | ⟨first, _ | ⟨second, rest⟩⟩ := clauses
    · cases h
    · exact frames_of_mem_singleton h
    · exact frames_of_mem_map (fun _ => rfl) h
  | cast =>
    dsimp only at h
    split at h
    · cases h
    · exact frames_of_mem_singleton h
  | _ => cases h

theorem frames_of_mem_columnItemParts (h : part ∈ columnItemParts frames n) :
    part.frames = frames := by
  unfold columnItemParts at h
  split at h
  · exact frames_of_mem_singleton h
  · split at h
    · cases h
    · exact frames_of_mem_singleton h

theorem frames_of_mem_labelReferenceParts (h : part ∈ labelReferenceParts frames n) :
    part.frames = frames := by
  unfold labelReferenceParts at h
  split at h
  · split at h
    · cases h
    · exact frames_of_mem_singleton h
  · exact frames_of_mem_singleton h
  · exact frames_of_mem_singleton h

theorem inside_of_mem_fromElementParts (h : part ∈ fromElementParts frames n) :
    Inside ⟨.fromElement, frames, n⟩ part.frames := by
  have alone {c : Node} (h : part ∈ [⟨.statement, [], c⟩]) :
      Inside ⟨.fromElement, frames, n⟩ part.frames :=
    frames_of_mem_singleton h ▸ .alone
  unfold fromElementParts at h
  split at h
  · split at h
    · cases h
    · exact alone h
  · split at h
    · cases h
    · exact alone h
  · simp only [List.mem_cons, List.not_mem_nil, or_false] at h
    obtain rfl | rfl | rfl := h <;> exact .same
  · exact alone h
  · exact alone h
  · exact alone h
  · cases h

theorem inside_of_mem_selectParts (hn : r.node.kind = .select s)
    (h : part ∈ selectParts r.frames s) : r.Inside part.frames := by
  unfold selectParts at h
  cases hf : s.shownFroms r.frames with
  | error fault =>
    rw [hf] at h
    cases h
  | ok froms =>
    rw [hf] at h
    have frames : part.frames = .ofSources froms s.columns :: r.frames := by
      obtain h | h := List.mem_append.1 h
      · obtain h | h := List.mem_append.1 h
        · exact frames_of_mem_map (fun _ => rfl) h
        · exact frames_of_mem_map (fun _ => rfl) h
      · exact frames_of_mem_map (fun _ => rfl) h
    exact frames ▸ .opened (.select hn hf)

theorem inside_of_mem_statementParts (h : part ∈ statementParts frames n) :
    Inside ⟨.statement, frames, n⟩ part.frames := by
  have same (h : part.frames = frames) : Inside ⟨.statement, frames, n⟩ part.frames := h ▸ .same
  have opened {target : Node} (ht : target ∈ n.children)
      (h : part.frames = .ofSources [target] [] :: frames) :
      Inside ⟨.statement, frames, n⟩ part.frames := h ▸ .opened (.target ht)
  rcases n with ⟨i, kind, type, annotations, diagnostics⟩
  unfold statementParts at h
  cases kind with
  | select s => exact inside_of_mem_selectParts (r := ⟨.statement, frames, _⟩) rfl h
  | compound => exact same (frames_of_mem_map (fun _ => rfl) h)
  | textualSelect => exact same (frames_of_mem_singleton h)
  | insert s =>
    rcases s with ⟨target, values, source, returning⟩
    obtain rfl | h := List.mem_cons.1 h
    · exact .same
    obtain h | h := List.mem_append.1 h
    · cases source with
      | some source => exact frames_of_mem_singleton h ▸ .alone
      | none =>
        obtain ⟨value, -, rfl⟩ := List.mem_map.1 h
        exact opened List.mem_cons_self rfl
    · exact opened List.mem_cons_self (frames_of_mem_map (fun _ => rfl) h)
  | update s =>
    rcases s with ⟨target, values, criteria, returning⟩
    obtain rfl | h := List.mem_cons.1 h
    · exact .same
    obtain h | h := List.mem_append.1 h
    · exact opened List.mem_cons_self (frames_of_mem_map (fun _ => rfl) h)
    · exact opened List.mem_cons_self (frames_of_mem_map (fun _ => rfl) h)
  | delete s =>
    rcases s with ⟨target, criteria, returning⟩
    obtain rfl | h := List.mem_cons.1 h
    · exact .same
    obtain h | h := List.mem_append.1 h
    · exact opened List.mem_cons_self (frames_of_mem_map (fun _ => rfl) h)
    · exact opened List.mem_cons_self (frames_of_mem_map (fun _ => rfl) h)
  | _ =>
    dsimp only at h
    split at h
    · exact same (frames_of_mem_singleton h)
    · exact same (frames_of_mem_singleton h)

/-- A part of a rendering is inside the same frames, or on its own, or inside one more. -/
theorem inside_of_mem_parts (h : part ∈ r.parts d) : r.Inside part.frames := by
  rcases r with ⟨position, frames, n⟩
  cases position with
  | statement => exact inside_of_mem_statementParts h
  | fromElement => exact inside_of_mem_fromElementParts h
  | columnItem => exact frames_of_mem_columnItemParts h ▸ .same
  | labelReference => exact frames_of_mem_labelReferenceParts h ▸ .same
  | expression outer => exact frames_of_mem_expressionParts h ▸ .same

/-- Whether the node of a rendering exists and so do the FROM elements of the frames around it. -/
structure Formed (K : Heap) (r : Rendering) : Prop where
  root : K r.node
  around : ∀ f ∈ r.frames, f.Formed K

variable {K : Heap} {next : Identity}

theorem Formed.of_mem_parts (heap : K.Valid next) (h : r.Formed K) (hp : part ∈ r.parts d) :
    part.Formed K where
  root := heap.occurs h.root (occurs_of_mem_parts hp)
  around := by
    have inside := inside_of_mem_parts hp
    generalize part.frames = frames at inside ⊢
    cases inside with
    | same => exact h.around
    | alone => exact fun _ hf => absurd hf List.not_mem_nil
    | opened opens =>
      cases opens with
      | select hn shown =>
        have shows := Select.shows_of_shownFroms heap h.root hn h.around shown
        exact shows.formed_inside heap h.root hn h.around
      | target ht =>
        intro f hf
        obtain rfl | hf := List.mem_cons.1 hf
        · refine ⟨_, _, fun x hx => ?_, rfl⟩
          exact List.mem_singleton.1 hx ▸ heap.closed h.root _ ht
        · exact h.around f hf

/-- All that a rendering comes to is inside frames of the same heap. -/
theorem Formed.of_reaches (heap : K.Valid next) (h : r.Formed K) (hr : r.Reaches d part) :
    part.Formed K := by
  induction hr with
  | refl => exact h
  | tail _ step ih => exact ih.of_mem_parts heap step

end Rendering

/-- Wherever a SELECT stands in a statement, what it shows as its FROM list is what it should show
inside the statements around it. -/
theorem shows_of_reaches {d : Dialect} {K : Heap} {next : Identity} {n m : Node} {s : Select Node}
    {frames : List Frame} {froms : List Node} (heap : K.Valid next) (root : K n)
    (hr : Rendering.Reaches d ⟨.statement, [], n⟩ ⟨.statement, frames, m⟩)
    (hm : m.kind = .select s) (shown : s.shownFroms frames = .ok froms) : s.Shows frames froms := by
  have formed : Rendering.Formed K ⟨.statement, frames, m⟩ :=
    Rendering.Formed.of_reaches heap ⟨root, fun _ hf => absurd hf List.not_mem_nil⟩ hr
  exact Select.shows_of_shownFroms heap formed.root hm formed.around shown

theorem statement_of_select {d : Dialect} {frames : List Frame} {n : Node} {s : Select Node}
    (hn : n.kind = .select s) : statement d frames n = query d frames s := by
  rcases n with ⟨i, kind, type, annotations, diagnostics⟩
  subst hn
  rw [statement]

end Layout

end SqlAlgebra
