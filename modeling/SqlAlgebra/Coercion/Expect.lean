import SqlAlgebra.Coercion.Conversion

/-!
# Coercion

`expect` is the one way from an input to what a place in a statement takes.  It resolves the input,
hands a node that the role takes to the last step of the role, and anything else to the conversions of
the role.
-/

namespace SqlAlgebra

/-- What an external element stands for in the end, or none if that is more than a number of steps
away. -/
def Input.follow : Nat → Input → Option Input
  | steps + 1, .element _ (some target) => follow steps target
  | steps + 1, .element repr none => follow steps (.element repr none)
  | 0, .element _ _ => none
  | _, terminal => some terminal

/-- What a coercion gave, with the diagnostics it left. -/
structure Coercion where
  value : Coerced
  diagnostics : List Diagnostic

namespace Site

/-- The node that an external element stands for. -/
def unwrap (site : Site) (input : Input) : Coerce Coerced :=
  match input.follow maxSteps with
  | some (.node n) => pure (.node n)
  | some terminal => throw (site.unexpectedTerminal input terminal)
  | none => Build.fail (.endlessElement input.repr)

/-- What an input stands for before the role has its say about nodes. -/
def resolve (site : Site) (input : Input) : Coerce Coerced :=
  if site.role.isLiteralOnly then site.literal input
  else
    match input with
    | .node n => pure (.node n)
    | .element _ _ => site.unwrap input
    | .handle _ inspection =>
      if site.role.usesInspection then
        match inspection with
        | .element n => pure (.node n)
        | .closed => throw (site.unexpected input none)
        | .notInspectable => site.literal input
      else site.literal input
    | _ => site.literal input

/-- Coerces an input. -/
def coerce (site : Site) (input : Input) : Coerce Coerced := do
  match input with
  | .lambda lambda =>
    if site.role.allowsLambda then
      return ← .node <$> Build.untyped (.deferred lambda site.role)
  | _ => pure ()
  let resolved ← site.resolve input
  match resolved with
  | .node n =>
    if site.role.accepts n then site.settle input n else site.convert input resolved
  | _ => site.convert input resolved

end Site

/-- Coerces an input to what a role takes. -/
def expect (role : Role) (input : Input) (args : CoercionArgs) : Build Coercion := do
  let (value, diagnostics) ← (Site.coerce ⟨role, args⟩ input).run []
  pure ⟨value, diagnostics⟩

/-- Coerces an input, column expressions to their keys. -/
def expectAsKey (role : Role) (input : Input) (args : CoercionArgs) : Build Coercion :=
  expect role input { args with asKey := true }

/-- Coerces an input to a node. -/
def coerceNode (role : Role) (input : Input) (args : CoercionArgs) :
    Build (Node × List Diagnostic) := do
  let coercion ← expect role input args
  match coercion.value with
  | .node n => pure (n, coercion.diagnostics)
  | other => Build.fail (.nodeRequired role other.repr)

/-- Coerces an input to a string key. -/
def coerceKey (role : Role) (input : Input) (args : CoercionArgs) :
    Build (String × List Diagnostic) := do
  let coercion ← expect role input args
  match coercion.value with
  | .key key => pure (key, coercion.diagnostics)
  | other => Build.fail (.keyRequired role other.repr)

/-- An entry of a list of columns, as an index or a constraint has it. -/
structure ColumnEntry where
  resolved : Coerced
  /-- The first column in what the entry resolved to. -/
  column : Option Node
  /-- The name, if the entry resolved to one. -/
  key : Option String
  diagnostics : List Diagnostic

namespace ColumnEntry

/-- The column if there is one, else the key. -/
def element (entry : ColumnEntry) : Option Coerced :=
  match entry.column, entry.key with
  | some column, _ => some (.node column)
  | none, some key => some (.key key)
  | none, none => none

end ColumnEntry

/-- The first column of a tree, a node before its children. -/
def Node.firstColumn (n : Node) : Option Node :=
  match n.kind with
  | .column _ _ _ => some n
  | _ => n.children.attach.findSome? fun c => firstColumn c.1
termination_by sizeOf n
decreasing_by exact sizeOf_child c.2

/-- Coerces each of a list of columns. -/
def expectColumns (role : Role) (inputs : List Input) (args : CoercionArgs) :
    Build (List ColumnEntry) :=
  inputs.mapM fun input => do
    let coercion ← expect role input args
    let (column, key) :=
      match coercion.value with
      | .node n => (n.firstColumn, none)
      | .key key => (none, some key)
      | _ => (none, none)
    pure ⟨coercion.value, column, key, coercion.diagnostics⟩

end SqlAlgebra
