import SqlAlgebra.Dialect.Basic
import SqlAlgebra.Layout.Piece
import SqlAlgebra.Survey.Walk
import SqlAlgebra.Template.Naming

/-!
# Templates

A template is a layout in which every name is settled and only the values of the parameters are open.  A
parameter is known by its slot, so that one template serves every tree with the same key.  Where a
percent sign marks placeholders, every other percent sign is written twice.
-/

namespace SqlAlgebra

inductive Segment where
  | text (sql : String)
  /-- The parameter at a slot under a name, or under the numbered names of its elements. -/
  | bind (slot : Nat) (name : String) (isExpanding : Bool)
deriving DecidableEq

structure Template where
  segments : List Segment
deriving DecidableEq

namespace Template

/-- Text after segments that stand in reverse.  Text after text is one segment. -/
def pushText (reversed : List Segment) (sql : String) : List Segment :=
  if sql.isEmpty then reversed
  else
    match reversed with
    | .text before :: rest => .text (before ++ sql) :: rest
    | _ => .text sql :: reversed

/-- Text as it stands in a statement with placeholders of the dialect. -/
def escaped (d : Dialect) (sql : String) : String :=
  if d.bindStyle = .format then String.ofList (Quoting.doubled '%' sql.toList) else sql

/-- A value in place of its placeholder. -/
def inlined (d : Dialect) (param : BindParam) : Except CompileFault String :=
  if param.isExpanding then
    match param.value.expand with
    | [] => .ok d.emptySet
    | items => do
      let literals ← items.mapM d.literal
      .ok ("(" ++ ", ".intercalate literals ++ ")")
  else d.literal param.value

/-- The segments of some pieces, before which stand others in reverse. -/
def settle (d : Dialect) (survey : Survey) (inline : Bool) :
    List Piece → Namer → List Segment → Except CompileFault (List Segment)
  | [], _, reversed => .ok reversed
  | .text sql :: rest, namer, reversed =>
    settle d survey inline rest namer (pushText reversed (escaped d sql))
  | .anonymous n :: rest, namer, reversed =>
    let (name, namer) := namer.anonymous n
    settle d survey inline rest namer (pushText reversed (escaped d name))
  | .bind n param :: rest, namer, reversed =>
    if inline then
      match inlined d param with
      | .ok sql => settle d survey inline rest namer (pushText reversed (escaped d sql))
      | .error fault => .error fault
    else
      match survey.slot? n with
      | some slot =>
        let (name, namer) := namer.param n param
        settle d survey inline rest namer (.bind slot name param.isExpanding :: reversed)
      | none => .error (.foreignBind n.repr)

/-- The template of a layout.  What goes wrong in the pieces comes before the failure after them. -/
def ofLayout (d : Dialect) (survey : Survey) (inline : Bool) (layout : Layout) :
    Except CompileFault Template :=
  match settle d survey inline layout.pieces (.start survey.identifiers) [] with
  | .error fault => .error fault
  | .ok reversed =>
    match layout.fault with
    | some fault => .error fault
    | none => .ok ⟨reversed.reverse⟩

end Template

end SqlAlgebra
