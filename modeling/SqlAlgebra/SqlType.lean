import SqlAlgebra.Value.Basic

/-!
# SQL types

Every expression carries the type that it evaluates to.  The type `null` stands for one that is not
known: a parameter that carries it takes the type of what it is compared with.
-/

namespace SqlAlgebra

inductive SqlType where
  | null
  | integer
  | float
  | string
  | boolean
  | dateTime
  | uuid
  | json
deriving DecidableEq

namespace SqlType

def isNull (type : SqlType) : Bool := type == .null

/-- The name of a type in messages. -/
def name : SqlType → String
  | .null => "NULLTYPE"
  | .integer => "INTEGER"
  | .float => "FLOAT"
  | .string => "VARCHAR"
  | .boolean => "BOOLEAN"
  | .dateTime => "DATETIME"
  | .uuid => "UUID"
  | .json => "JSON"

mutual

/-- The type of a value; a list has the type of its first element whose type is known. -/
def ofValue : Value → SqlType
  | .null => .null
  | .boolean _ => .boolean
  | .integer _ => .integer
  | .real _ => .float
  | .text _ => .string
  | .timestamp _ => .dateTime
  | .uuid _ => .uuid
  | .json _ => .json
  | .list items => ofItems items

def ofItems : List Value → SqlType
  | [] => .null
  | item :: rest => if (ofValue item).isNull then ofItems rest else ofValue item

end

end SqlType

end SqlAlgebra
