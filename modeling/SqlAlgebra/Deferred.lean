import SqlAlgebra.Coercion.Expect
import SqlAlgebra.Scope
import SqlAlgebra.Tree.Substitution

/-!
# Deferred expressions

Before a statement is rendered, each deferred expression in it is replaced by what its factory makes of
the scope, coerced to the role of its place.  What a factory makes may hold deferred expressions again,
and these are followed a bounded number of times.
-/

namespace SqlAlgebra

/-- The factories that deferred expressions name: what each of them makes of a scope. -/
abbrev Factories := Nat → Scope → Build Input

namespace Node

/-- Looks for a deferred expression among nodes that were not looked at yet: none if there is one, and
otherwise the nodes that are looked at now. -/
def lookForDeferred (n : Node) (seen : List Identity) : Option (List Identity) :=
  if seen.contains n.id then some seen
  else if n.isDeferred then none
  else n.children.attach.foldlM (fun seen c => lookForDeferred c.1 seen) (n.id :: seen)
termination_by sizeOf n
decreasing_by exact sizeOf_child c.2

def containsDeferred (n : Node) : Bool := (n.lookForDeferred []).isNone

/-- What becomes of a node on the way to a tree without deferred expressions, if the expressions that
it leads to are followed for so many steps. -/
def resolveStep (factories : Factories) (scope : Scope)
    (resolve : Option (Node → StateT (List Diagnostic) Build Node)) (n : Node) :
    StateT (List Diagnostic) Build (Option Node) :=
  match n.kind with
  | .deferred lambda role =>
    match resolve with
    | none => Build.fail .endlessDeferred
    | some resolve => do
      let input ← factories lambda.factory scope
      let (made, diagnostics) ← coerceNode role input {}
      modify (· ++ diagnostics)
      some <$> resolve made
  | _ => pure none

/-- A tree with its deferred expressions replaced, and those in what they make, for so many steps. -/
def resolveWithin (factories : Factories) (scope : Scope) :
    Nat → Node → StateT (List Diagnostic) Build Node
  | 0 => substitute (resolveStep factories scope none)
  | steps + 1 =>
    substitute (resolveStep factories scope (some (resolveWithin factories scope steps)))

/-- A tree with its deferred expressions replaced, and what was reported about them. -/
def resolved (factories : Factories) (scope : Scope) (n : Node) :
    Build (Node × List Diagnostic) :=
  if n.containsDeferred then (resolveWithin factories scope maxSteps n).run []
  else pure (n, [])

end Node

end SqlAlgebra
