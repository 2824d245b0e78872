import SqlAlgebra.Role

/-!
# Diagnostics

A diagnostic reports a conversion that went through although it was not spelled out.  It never stands
for a result: it travels beside one.
-/

namespace SqlAlgebra

inductive DiagnosticKind where
  /-- A conversion that is kept for old callers only. -/
  | deprecated
  /-- A value was promoted into another construct. -/
  | implicitCoercion
deriving DecidableEq

namespace DiagnosticKind

def name : DiagnosticKind → String
  | .deprecated => "Deprecated"
  | .implicitCoercion => "ImplicitCoercion"

end DiagnosticKind

structure Diagnostic where
  kind : DiagnosticKind
  message : String
  /-- The role that made the conversion. -/
  role : Role
deriving DecidableEq

namespace Diagnostic

def isDeprecation (d : Diagnostic) : Bool := d.kind == .deprecated

/-- The message with the role that raised it. -/
def describe (d : Diagnostic) : String := d.message ++ " (" ++ d.role.name ++ ")"

end Diagnostic

end SqlAlgebra
