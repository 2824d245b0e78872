import SqlAlgebra.Number.Double

/-!
# JSON values

A number of a JSON value is an integer as long as 64 bits hold it, with or without a sign, and a
binary64 number otherwise.  The members of an object stand in the order of their keys, each key once,
so two objects with the same members are the same list.
-/

namespace SqlAlgebra

inductive JsonNumber where
  /-- An integer from `-2 ^ 63` up to `2 ^ 64`. -/
  | integer (value : Int)
  | real (value : Double)
deriving DecidableEq

namespace JsonNumber

/-- An integer that 64 bits do not hold becomes the nearest real. -/
def ofInt (n : Int) : JsonNumber :=
  if Int64.minValue.toInt ≤ n ∧ n < UInt64.size then .integer n else .real (.ofInt n)

/-- Equality of numbers: an integer never equals a real, and reals compare as numbers do. -/
def same : JsonNumber → JsonNumber → Bool
  | .integer m, .integer n => m == n
  | .real x, .real y => x.same y
  | _, _ => false

end JsonNumber

inductive Json where
  | null
  | boolean (value : Bool)
  | number (value : JsonNumber)
  | string (value : String)
  | array (items : List Json)
  | object (members : List (String × Json))

namespace Json

/-- The members with one more, in the order of the keys.  A key that is there already takes the new
value. -/
def insertMember {α : Type} (key : String) (value : α) : List (String × α) → List (String × α)
  | [] => [(key, value)]
  | (k, v) :: rest =>
    if key < k then (key, value) :: (k, v) :: rest
    else if key = k then (key, value) :: rest
    else (k, v) :: insertMember key value rest

/-- Members in the order of their keys, the last of each key. -/
def sortMembers {α : Type} (members : List (String × α)) : List (String × α) :=
  members.foldl (fun sorted member => insertMember member.1 member.2 sorted) []

def ofMembers (members : List (String × Json)) : Json := .object (sortMembers members)

mutual

/-- Equality of values, with numbers compared by `JsonNumber.same`. -/
def same : Json → Json → Bool
  | .null, .null => true
  | .boolean a, .boolean b => a == b
  | .number a, .number b => a.same b
  | .string a, .string b => a == b
  | .array a, .array b => sameItems a b
  | .object a, .object b => sameMembers a b
  | _, _ => false

def sameItems : List Json → List Json → Bool
  | [], [] => true
  | a :: as, b :: bs => same a b && sameItems as bs
  | _, _ => false

def sameMembers : List (String × Json) → List (String × Json) → Bool
  | [], [] => true
  | (k, a) :: as, (l, b) :: bs => k == l && same a b && sameMembers as bs
  | _, _ => false

end

end Json

end SqlAlgebra
