import SqlAlgebra.SqlType

/-!
# Structural keys

The key of a tree is its walk from the root down, written flat, with a slot number in place of every
bound value.  Trees with equal keys render to the same text, so a rendered statement can be kept under
its key.  A key that would grow past a bound is given up: the buffer in which it is collected forgets
what it holds and takes nothing more.
-/

namespace SqlAlgebra

inductive KeyElement where
  | kind (name : String)
  /-- An identifier, the spelling of an operator, SQL text. -/
  | spelling (text : String)
  | flag (value : Bool)
  | type (type : SqlType)
  /-- The number of entries of the group that follows. -/
  | count (n : Nat)
  /-- The slot of a bound parameter; slots are numbered as they are met. -/
  | slot (n : Nat)
  /-- The ordinal of an element without a name. -/
  | anonymous (n : Nat)
  /-- The first occurrence of a FROM element or label. -/
  | definition (ordinal : Nat)
  /-- A later occurrence of the element defined under an ordinal. -/
  | reference (ordinal : Nat)
  | opening (group : String)
  | closing
deriving DecidableEq

abbrev Key := List KeyElement

/-- Room for a key of at most `bound` elements. -/
structure KeyBuffer where
  bound : Nat
  /-- The elements so far, the last one first. -/
  reversed : List KeyElement
  length : Nat
  overflown : Bool

namespace KeyBuffer

def empty (bound : Nat) : KeyBuffer := ⟨bound, [], 0, false⟩

/-- The buffer with one more element, or overflown if there is no room for it. -/
def push (buffer : KeyBuffer) (element : KeyElement) : KeyBuffer :=
  if buffer.overflown then buffer
  else if buffer.length = buffer.bound then { buffer with reversed := [], overflown := true }
  else { buffer with reversed := element :: buffer.reversed, length := buffer.length + 1 }

/-- The key, if it fitted. -/
def key? (buffer : KeyBuffer) : Option Key :=
  if buffer.overflown then none else some buffer.reversed.reverse

theorem push_of_overflown {buffer : KeyBuffer} (h : buffer.overflown = true)
    (element : KeyElement) : buffer.push element = buffer := by
  simp [push, h]

end KeyBuffer

end SqlAlgebra
