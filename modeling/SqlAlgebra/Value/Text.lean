import SqlAlgebra.Value.Basic
import SqlAlgebra.Json.Text

/-!
# Texts of values

A value has two texts: one for messages, in which a text is quoted as it is and nothing is escaped, and
one in JSON, in which the kind of a value is left to be told from its shape.
-/

namespace SqlAlgebra.Value

mutual

/-- How a value stands in a message. -/
def describe : Value → String
  | .null => "None"
  | .boolean b => if b then "true" else "false"
  | .integer n => toString n.toInt
  | .real x => x.text
  | .text s => "'" ++ s ++ "'"
  | .timestamp t => t.text
  | .uuid u => u.text
  | .json v => v.text
  | .list items => "[" ++ ", ".intercalate (describeItems items) ++ "]"

def describeItems : List Value → List String
  | [] => []
  | item :: rest => describe item :: describeItems rest

end

mutual

/-- The JSON value that a value is written as.  JSON has no NaN and no infinity: both become null. -/
def toJson : Value → Json
  | .null => .null
  | .boolean b => .boolean b
  | .integer n => .number (.integer n.toInt)
  | .real x => if x.isFinite then .number (.real x) else .null
  | .text s => .string s
  | .timestamp t => .string t.jsonText
  | .uuid u => .string u.text
  | .json v => v
  | .list items => .array (toJsonItems items)

def toJsonItems : List Value → List Json
  | [] => []
  | item :: rest => toJson item :: toJsonItems rest

end

end SqlAlgebra.Value
