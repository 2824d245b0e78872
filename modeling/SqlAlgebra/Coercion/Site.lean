import SqlAlgebra.Input
import SqlAlgebra.Tree.Build

/-!
# Places where inputs are coerced

An input is coerced at a place that has a role and gives some context.  What comes out is a node, a
string key, nothing at all, or a plain value that the role has yet to wrap; the diagnostics that the
conversion leaves are collected on the way.
-/

namespace SqlAlgebra

inductive Coerced where
  | node (node : Node)
  /-- The key of a column, a label, a join target. -/
  | key (key : String)
  | empty
  | literal (value : Value)

namespace Coerced

def node? : Coerced → Option Node
  | .node n => some n
  | _ => none

def repr : Coerced → String
  | .node n => n.repr
  | .key name => "'" ++ name ++ "'"
  | .empty => "None"
  | .literal value => value.describe

end Coerced

/-- The context of a coercion. -/
structure CoercionArgs where
  /-- The argument at the place of use, for messages. -/
  argname : Option String := none
  /-- The key of a parameter made from a plain value. -/
  name : Option String := none
  /-- The type of a parameter made from a plain value. -/
  type : Option SqlType := none
  /-- The left operand of the expression that the input becomes part of. -/
  left : Option Node := none
  operator : Option BinaryOp := none
  /-- Resolve column expressions to their keys. -/
  asKey : Bool := false
  /-- Take the string forms of old callers. -/
  legacy : Bool := false
  /-- Make a SELECT a subquery without a diagnostic. -/
  explicitSubquery : Bool := false
  /-- Whether a SELECT may become an anonymous subquery; if it is not said, the role decides. -/
  allowSelect : Option Bool := none
  deannotate : Bool := false
  /-- Make the sides of a join anonymous, not the join as a whole. -/
  flat : Bool := false
  isCrud : Bool := false
  /-- The name of the alias that an anonymizing role makes. -/
  aliasName : Option String := none
  /-- What is done about implicit conversions, if not what the role does by itself. -/
  policy : Option ImplicitPolicy := none

/-- A role with the context at the place where it is asked for. -/
structure Site where
  role : Role
  args : CoercionArgs

/-- A step of a coercion, with the diagnostics so far. -/
abbrev Coerce := StateT (List Diagnostic) Build

namespace Site

def policy (site : Site) : ImplicitPolicy := site.args.policy.getD site.role.defaultPolicy

/-- Reports a conversion, or refuses it, as the policy says. -/
def raise (site : Site) (kind : DiagnosticKind) (message : String) : Coerce Unit :=
  let diagnostic : Diagnostic := ⟨kind, message, site.role⟩
  match site.policy with
  | .silent => pure ()
  | .error => throw (.rejected diagnostic)
  | .warn => modify (· ++ [diagnostic])

/-- The error that an argument has a problem. -/
def refusal (site : Site) (value : String) (problem : ArgumentProblem) : Error :=
  .argument ⟨site.role, value, site.args.argname, problem⟩

end Site

end SqlAlgebra
