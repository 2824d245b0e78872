import SqlAlgebra.Error
import SqlAlgebra.Tree.Node

/-!
# Building nodes

A building step takes the next free identity, and gives back what it built with the identity that is
free after it, or an error.  A node that is built has an identity that no node before it has, and a copy
of a node is a node of its own.
-/

namespace SqlAlgebra

/-- A step that may build nodes and may fail. -/
abbrev Build := StateT Identity (Except Error)

namespace Build

/-- The next free identity. -/
def identity : Build Identity := fun next => .ok (next, next + 1)

def fail {α : Type} (fault : ConstructionFault) : Build α := throw (.construction fault)

/-- A new node of a type, with what was reported while it was built. -/
def reported (kind : Kind Node) (type : SqlType) (diagnostics : List Diagnostic) : Build Node := do
  let id ← identity
  pure ⟨id, kind, type, [], diagnostics⟩

/-- A new node of a type. -/
def typed (kind : Kind Node) (type : SqlType) : Build Node := reported kind type []

/-- A new node that evaluates to nothing of a known type. -/
def untyped (kind : Kind Node) : Build Node := typed kind .null

/-- A copy of a node under a new identity. -/
def copy (n : Node) : Build Node := do
  let id ← identity
  pure { n with id := id }

/-- A copy of a node with another type; a node of that type already is handed back itself. -/
def retyped (n : Node) (type : SqlType) : Build Node :=
  if n.type = type then pure n else copy { n with type := type }

end Build

end SqlAlgebra
