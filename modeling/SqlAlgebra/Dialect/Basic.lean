import SqlAlgebra.Dialect.Quoting
import SqlAlgebra.Error
import SqlAlgebra.SqlType
import SqlAlgebra.Value.Text

/-!
# Dialects

A statement means the same everywhere, but databases spell some of its parts differently.  A dialect is
the record of these spellings; what a database does not say is spelled as in standard SQL.  How an
identifier and a value are written follows from the record: a dialect chooses the quotes, the reserved
words and the literals of texts and truth values, and has no other say in it.
-/

namespace SqlAlgebra

/-- How a bound parameter is written. -/
inductive BindStyle where
  /-- A dollar sign and the position. -/
  | numbered
  | questionMark
  /-- A colon and the name. -/
  | named
  /-- A percent sign and an `s`. -/
  | format
deriving DecidableEq

namespace BindStyle

/-- The placeholder of a parameter; positions count from one. -/
def placeholder (style : BindStyle) (position : Nat) (name : String) : String :=
  match style with
  | .numbered => "$" ++ toString position
  | .questionMark => "?"
  | .named => ":" ++ name
  | .format => "%s"

end BindStyle

/-- How a binary operator is written. -/
inductive Spelling where
  | between (symbol : String)
  /-- Between the operands, the whole under NOT. -/
  | negated (symbol : String)
  | call (name : String)
deriving DecidableEq

/-- How the number of rows is limited. -/
inductive Paging where
  /-- LIMIT and OFFSET.  Where an OFFSET needs a LIMIT before it, `filler` is one that limits nothing. -/
  | limitOffset (filler : Option String)
  /-- OFFSET and FETCH FIRST. -/
  | offsetFetch
deriving DecidableEq

namespace SqlType

/-- The name of a type in standard SQL, if values can be cast to it. -/
def standardName : SqlType → Option String
  | .null => none
  | .integer => some "INTEGER"
  | .float => some "FLOAT"
  | .string => some "VARCHAR"
  | .boolean => some "BOOLEAN"
  | .dateTime => some "TIMESTAMP"
  | .uuid => some "UUID"
  | .json => some "JSON"

end SqlType

namespace BinaryOp

/-- The spelling of an operator in standard SQL, which has no comparison of patterns that is blind to
case. -/
def standardSpelling (op : BinaryOp) : Option Spelling :=
  match op with
  | .iLike | .notILike => none
  | _ => some (.between op.sql)

end BinaryOp

structure Dialect where
  /-- The name, by which rendered statements of different dialects are also kept apart. -/
  name : String
  bindStyle : BindStyle
  identifierQuote : Char := '"'
  reservedWords : List String := Quoting.reservedWords
  truth : Bool → String := fun value => if value then "true" else "false"
  /-- The spelling of an operator, if the database has it. -/
  spelling : BinaryOp → Option Spelling := BinaryOp.standardSpelling
  paging : Paging := .limitOffset none
  /-- The name of a type in CAST, if the database can cast to it. -/
  typeName : SqlType → Option String := SqlType.standardName
  stringLiteral : String → String := Quoting.quoted '\x27'
  supportsReturning : Bool := true
  /-- A subquery without rows, for the list of no elements. -/
  emptySet : String := "(SELECT 1 WHERE 1!=1)"
  /-- What an INSERT without values has instead of them. -/
  defaultValues : String := "DEFAULT VALUES"

namespace Dialect

/-- An identifier, quoted if it has to be. -/
def identifier (dialect : Dialect) (ident : String) : String :=
  if Quoting.isRequired dialect.reservedWords ident then
    Quoting.quoted dialect.identifierQuote ident
  else ident

/-- A value written into the statement. -/
def literal (dialect : Dialect) (value : Value) : Except CompileFault String :=
  match value with
  | .null => .ok "NULL"
  | .boolean b => .ok (dialect.truth b)
  | .integer n => .ok (toString n.toInt)
  | .real x => if x.isFinite then .ok x.text else .error (.nonFiniteLiteral x.text)
  | .text s => .ok (dialect.stringLiteral s)
  | .timestamp t => .ok (dialect.stringLiteral t.text)
  | .uuid u => .ok (dialect.stringLiteral u.text)
  | .json v => .ok (dialect.stringLiteral v.text)
  | .list _ => .error .listLiteral

end Dialect

end SqlAlgebra
