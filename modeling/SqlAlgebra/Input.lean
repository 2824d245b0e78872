import SqlAlgebra.Scope
import SqlAlgebra.Tree.Class

/-!
# Inputs

What a caller may give where a statement is put together: plain values, nodes, deferred expressions,
and handles on things outside of the library that stand for an element of a statement.
-/

namespace SqlAlgebra

/-- What a look into an external handle shows. -/
inductive Inspection where
  | notInspectable
  /-- An inspection that exposes no element. -/
  | closed
  | element (node : Node)

inductive Input where
  | nothing
  | boolean (value : Bool)
  | integer (value : Int64)
  | real (value : Double)
  | string (value : String)
  | timestamp (value : Timestamp)
  | uuid (value : Uuid)
  | list (items : List Input)
  /-- A mapping from strings, in the order in which it was made. -/
  | mapping (entries : List (String × Input))
  | node (node : Node)
  | lambda (lambda : Lambda)
  /-- An external value that stands for another input; one without a target stands for itself. -/
  | element (repr : String) (target : Option Input)
  /-- An external handle that can be inspected. -/
  | handle (repr : String) (inspection : Inspection)

namespace Input

def isNone : Input → Bool
  | .nothing => true
  | _ => false

/-- Whether an input is plain data. -/
def isLiteral : Input → Bool
  | .node _ | .lambda _ | .element _ _ | .handle _ _ => false
  | _ => true

def asString? : Input → Option String
  | .string s => some s
  | _ => none

def asNode? : Input → Option Node
  | .node n => some n
  | _ => none

/-- A text between quotes, with a backslash before every quote in it. -/
def quoted (s : String) : String :=
  "'" ++ String.ofList (s.toList.flatMap fun c => if c = '\x27' then ['\\', c] else [c]) ++ "'"

mutual

/-- How an input stands in a message. -/
def repr : Input → String
  | .nothing => "None"
  | .boolean b => if b then "true" else "false"
  | .integer n => toString n.toInt
  | .real x => x.text
  | .string s => quoted s
  | .timestamp t => "datetime('" ++ t.text ++ "')"
  | .uuid u => "UUID('" ++ u.text ++ "')"
  | .list items => "[" ++ ", ".intercalate (itemReprs items) ++ "]"
  | .mapping entries => "\x7b" ++ ", ".intercalate (entryReprs entries) ++ "\x7d"
  | .node n => n.repr
  | .lambda _ => "<lambda>"
  | .element repr _ => repr
  | .handle repr _ => repr

def itemReprs : List Input → List String
  | [] => []
  | item :: rest => repr item :: itemReprs rest

def entryReprs : List (String × Input) → List String
  | [] => []
  | (key, value) :: rest => ("'" ++ key ++ "': " ++ repr value) :: entryReprs rest

end

mutual

/-- The JSON value of plain data; numbers that JSON does not have become null. -/
def toJson? : Input → Option Json
  | .nothing => some .null
  | .boolean b => some (.boolean b)
  | .integer n => some (.number (.integer n.toInt))
  | .real x => some (if x.isFinite then .number (.real x) else .null)
  | .string s => some (.string s)
  | .timestamp t => some (.string t.text)
  | .uuid u => some (.string u.text)
  | .list items => (itemsToJson? items).map .array
  | .mapping entries => (entriesToJson? entries).map .ofMembers
  | .node _ | .lambda _ | .element _ _ | .handle _ _ => none

def itemsToJson? : List Input → Option (List Json)
  | [] => some []
  | item :: rest =>
    match toJson? item with
    | some v => (itemsToJson? rest).map (v :: ·)
    | none => none

def entriesToJson? : List (String × Input) → Option (List (String × Json))
  | [] => some []
  | (key, value) :: rest =>
    match toJson? value with
    | some v => (entriesToJson? rest).map ((key, v) :: ·)
    | none => none

end

mutual

/-- The value that a parameter made from an input would carry.  A mapping is carried as JSON. -/
def toValue? : Input → Option Value
  | .nothing => some .null
  | .boolean b => some (.boolean b)
  | .integer n => some (.integer n)
  | .real x => some (.real x)
  | .string s => some (.text s)
  | .timestamp t => some (.timestamp t)
  | .uuid u => some (.uuid u)
  | .list items => (itemsToValue? items).map .list
  | .mapping entries => (toJson? (.mapping entries)).map .json
  | .node _ | .lambda _ | .element _ _ | .handle _ _ => none

def itemsToValue? : List Input → Option (List Value)
  | [] => some []
  | item :: rest =>
    match toValue? item with
    | some v => (itemsToValue? rest).map (v :: ·)
    | none => none

end

/-- An integer that 64 bits with a sign hold is one, any other number is a real. -/
def ofNumber : JsonNumber → Input
  | .integer n => (int64? n).elim (.real (.ofInt n)) .integer
  | .real x => .real x

mutual

/-- The input that a JSON value is: an array is a list, an object a mapping. -/
def ofJson : Json → Input
  | .null => .nothing
  | .boolean b => .boolean b
  | .number n => ofNumber n
  | .string s => .string s
  | .array items => .list (ofItems items)
  | .object members => .mapping (ofMembers members)

def ofItems : List Json → List Input
  | [] => []
  | item :: rest => ofJson item :: ofItems rest

def ofMembers : List (String × Json) → List (String × Input)
  | [] => []
  | (key, value) :: rest => (key, ofJson value) :: ofMembers rest

end

mutual

def ofValue : Value → Input
  | .null => .nothing
  | .boolean b => .boolean b
  | .integer n => .integer n
  | .real x => .real x
  | .text s => .string s
  | .timestamp t => .timestamp t
  | .uuid u => .uuid u
  | .json v => ofJson v
  | .list items => .list (ofValues items)

def ofValues : List Value → List Input
  | [] => []
  | item :: rest => ofValue item :: ofValues rest

end

end Input

namespace Scope

/-- What a name is bound to, as an input; a name that is not bound reads as no value at all. -/
def input (scope : Scope) (name : String) : Input :=
  match scope.get? name with
  | some value => .ofValue value
  | none => .nothing

end Scope

end SqlAlgebra
