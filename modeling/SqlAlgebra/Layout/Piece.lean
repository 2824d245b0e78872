import SqlAlgebra.Tree.Node
import SqlAlgebra.Error

/-!
# Layouts

A layout is a rendered statement in which two things are still open: the names of what the caller left
without one, and the parameters.  It is a sequence of pieces, and where the rendering failed, the reason
stands at the end of the pieces that come before it in the text.  Layouts are put together by `++`, and
nothing comes after a failure.
-/

namespace SqlAlgebra

inductive Piece where
  | text (sql : String)
  /-- The name of a FROM element or label that has none. -/
  | anonymous (node : Node)
  /-- A bound parameter. -/
  | bind (node : Node) (param : BindParam)

structure Layout where
  pieces : List Piece
  fault : Option CompileFault

namespace Layout

def empty : Layout := ⟨[], none⟩

def piece (p : Piece) : Layout := ⟨[p], none⟩

def text (sql : String) : Layout := piece (.text sql)

def fail (fault : CompileFault) : Layout := ⟨[], some fault⟩

/-- One layout after another, if the first did not fail. -/
def append (a b : Layout) : Layout :=
  match a.fault with
  | some _ => a
  | none => ⟨a.pieces ++ b.pieces, b.fault⟩

instance : Append Layout := ⟨append⟩

/-- Layouts with a separator between them. -/
def separated (separator : String) : List Layout → Layout
  | [] => empty
  | [single] => single
  | first :: rest => first ++ text separator ++ separated separator rest

def parenthesized (inner : Layout) : Layout := text "(" ++ inner ++ text ")"

def parenthesizedIf (needed : Bool) (inner : Layout) : Layout :=
  if needed then parenthesized inner else inner

/-- The layout of a clause that may be missing. -/
def optional {α : Type} (clause : Option α) (layout : α → Layout) : Layout :=
  match clause with
  | some a => layout a
  | none => empty

@[simp] theorem empty_append (a : Layout) : empty ++ a = a := rfl

@[simp] theorem append_empty (a : Layout) : a ++ empty = a := by
  rcases a with ⟨pieces, _ | fault⟩
  · exact congrArg (Layout.mk · none) (List.append_nil pieces)
  · rfl

theorem append_assoc (a b c : Layout) : a ++ b ++ c = a ++ (b ++ c) := by
  rcases a with ⟨as, _ | fault⟩
  · rcases b with ⟨bs, _ | fault⟩
    · exact congrArg (Layout.mk · c.fault) (List.append_assoc as bs c.pieces)
    · rfl
  · rfl

end Layout

end SqlAlgebra
