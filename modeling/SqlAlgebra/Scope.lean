import SqlAlgebra.Value.Basic

/-!
# Scopes

The names that are bound while a statement is compiled, for its deferred expressions to look up.
-/

namespace SqlAlgebra

structure Scope where
  /-- The bound names in order, each once. -/
  names : List (String × Value)

namespace Scope

def empty : Scope := ⟨[]⟩

/-- The scope with a name bound to a value; what the name was bound to before is forgotten. -/
def bind (scope : Scope) (name : String) (value : Value) : Scope :=
  ⟨Json.insertMember name value scope.names⟩

def get? (scope : Scope) (name : String) : Option Value := scope.names.lookup name

def isEmpty (scope : Scope) : Bool := scope.names.isEmpty

end Scope

end SqlAlgebra
