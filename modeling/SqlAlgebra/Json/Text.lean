import SqlAlgebra.Json.Basic
import SqlAlgebra.Number.Shortest
import SqlAlgebra.Text.Digits

/-!
# JSON text

The compact text of a JSON value: no blanks, members in the order of their keys, and in a string only
the quote, the backslash and the control characters escaped.
-/

namespace SqlAlgebra.Json

/-- How a character stands in a string. -/
def escape (c : Char) : String :=
  if c = '"' then "\\\""
  else if c = '\\' then "\\\\"
  else if c = '\n' then "\\n"
  else if c = '\r' then "\\r"
  else if c = '\t' then "\\t"
  else if c.toNat = 8 then "\\b"
  else if c.toNat = 12 then "\\f"
  else if c.toNat < 32 then
    "\\u00" ++ String.ofList [Text.hexDigit (c.toNat / 16), Text.hexDigit c.toNat]
  else c.toString

def quote (s : String) : String := "\"" ++ String.join (s.toList.map escape) ++ "\""

def numberText : JsonNumber → String
  | .integer n => toString n
  | .real x => NumeralStyle.json.write x

mutual

/-- The compact text of a value. -/
def text : Json → String
  | .null => "null"
  | .boolean b => if b then "true" else "false"
  | .number n => numberText n
  | .string s => quote s
  | .array items => "[" ++ ",".intercalate (itemTexts items) ++ "]"
  | .object members => "\x7b" ++ ",".intercalate (memberTexts members) ++ "\x7d"

def itemTexts : List Json → List String
  | [] => []
  | item :: rest => text item :: itemTexts rest

def memberTexts : List (String × Json) → List String
  | [] => []
  | (key, value) :: rest => (quote key ++ ":" ++ text value) :: memberTexts rest

end

end SqlAlgebra.Json
