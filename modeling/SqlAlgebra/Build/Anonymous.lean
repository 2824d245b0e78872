import SqlAlgebra.Build.Source
import SqlAlgebra.Tree.Substitution

/-!
# Anonymous FROM elements

A FROM element is made safe to use a second time by an alias without a name.  A join can be wrapped as
a whole, or flat: each of its sides gets an alias of its own, and the ON clauses are pointed at them.
-/

namespace SqlAlgebra.Node

/-- An expression in which the columns of some FROM elements belong to others in their place. -/
def repointColumns (replaced : List (Node × Node)) (clause : Node) : Build Node := do
  let repoint (n : Node) : StateT Unit Build (Option Node) :=
    match n.kind with
    | .column name (some source) isLiteral =>
      match replaced.find? fun pair => pair.1.isSame source with
      | some (_, new) => some <$> Build.typed (.column name (some new) isLiteral) n.type
      | none => pure none
    | _ => pure none
  let (out, _) ← (substitute repoint clause).run ()
  pure out

/-- A join with an anonymous alias in place of each element that it joins, and the pairs of an element
and its alias. -/
def anonymizeSides (n : Node) : Build (Node × List (Node × Node)) :=
  match _h : n.kind with
  | .join j => do
    let (left, replacedLeft) ← anonymizeSides j.left
    let (right, replacedRight) ← anonymizeSides j.right
    let replaced := replacedLeft ++ replacedRight
    let on ← repointColumns replaced j.on
    let joined ← Build.untyped (.join ⟨left, right, on, j.kind⟩)
    pure (joined, replaced)
  | _ => do
    let new ← n.aliased none
    pure (new, [(n, new)])
termination_by sizeOf n
decreasing_by all_goals exact sizeOf_child (by simp [children, Kind.children, *])

/-- An alias of a FROM element, or of each side of a join when `flat`. -/
def anonymize (n : Node) (flat : Bool) (name : Option String) : Build Node :=
  match n.kind with
  | .join _ => do
    if flat then
      let (joined, _) ← n.anonymizeSides
      pure joined
    else n.aliased name
  | _ => n.aliased name

end SqlAlgebra.Node
