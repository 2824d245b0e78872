import SqlAlgebra.Json.Basic
import SqlAlgebra.Timestamp
import SqlAlgebra.Uuid

/-!
# Values of bound parameters

A statement never contains the values that are bound to its parameters: they travel beside the text.
A list is the value of an expanding parameter, which stands for one parameter per element.
-/

namespace SqlAlgebra

/-- The integer of 64 bits with a sign that a number is, if there is one. -/
def int64? (n : Int) : Option Int64 :=
  if Int64.minValue.toInt ≤ n ∧ n ≤ Int64.maxValue.toInt then some (Int64.ofInt n) else none

inductive Value where
  | null
  | boolean (value : Bool)
  | integer (value : Int64)
  | real (value : Double)
  | text (value : String)
  | timestamp (value : Timestamp)
  | uuid (value : Uuid)
  | json (value : Json)
  | list (items : List Value)

namespace Value

def isNull : Value → Bool
  | .null => true
  | _ => false

/-- The elements of a list; any other value is its own single element. -/
def expand : Value → List Value
  | .list items => items
  | value => [value]

mutual

/-- Equality of values as a database would compare them: by kind, reals as numbers, so that a NaN is
not equal to itself. -/
def same : Value → Value → Bool
  | .null, .null => true
  | .boolean a, .boolean b => a == b
  | .integer a, .integer b => a == b
  | .real a, .real b => a.same b
  | .text a, .text b => a == b
  | .timestamp a, .timestamp b => a == b
  | .uuid a, .uuid b => a == b
  | .json a, .json b => a.same b
  | .list a, .list b => sameItems a b
  | _, _ => false

def sameItems : List Value → List Value → Bool
  | [], [] => true
  | a :: as, b :: bs => same a b && sameItems as bs
  | _, _ => false

end

end Value

end SqlAlgebra
