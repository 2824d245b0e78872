import SqlAlgebra.Dialect.Basic

/-!
# The databases

The dialects of three databases and of standard SQL.
-/

namespace SqlAlgebra.Dialect

/-- Numbered placeholders, and the comparison of patterns that is blind to case. -/
def postgres : Dialect where
  name := "postgresql"
  bindStyle := .numbered
  spelling op := some (.between op.sql)
  typeName
    | .null => none
    | .integer => some "BIGINT"
    | .float => some "DOUBLE PRECISION"
    | .string => some "TEXT"
    | .boolean => some "BOOLEAN"
    | .dateTime => some "TIMESTAMP"
    | .uuid => some "UUID"
    | .json => some "JSONB"

/-- Numbers for truth values, and IS for comparisons that hold between two NULLs. -/
def sqlite : Dialect where
  name := "sqlite"
  bindStyle := .questionMark
  truth value := if value then "1" else "0"
  spelling
    | .isDistinctFrom => some (.between "IS NOT")
    | .isNotDistinctFrom => some (.between "IS")
    | op => op.standardSpelling
  paging := .limitOffset (some "-1")
  typeName
    | .null => none
    | .integer | .boolean => some "INTEGER"
    | .float => some "REAL"
    | .string | .dateTime | .uuid | .json => some "TEXT"

/-- Quotes identifiers with the grave accent, calls a function to concatenate, and escapes with the
backslash inside string literals. -/
def mysql : Dialect where
  name := "mysql"
  bindStyle := .format
  identifierQuote := '\x60'
  spelling
    | .concat => some (.call "concat")
    | .isNotDistinctFrom => some (.between "<=>")
    | .isDistinctFrom => some (.negated "<=>")
    | op => op.standardSpelling
  paging := .limitOffset (some "18446744073709551615")
  typeName
    | .null | .boolean | .float => none
    | .integer => some "SIGNED INTEGER"
    | .string | .uuid => some "CHAR"
    | .dateTime => some "DATETIME"
    | .json => some "JSON"
  stringLiteral s :=
    Quoting.quoted '\x27' (String.ofList (Quoting.doubled '\\' s.toList))
  supportsReturning := false
  emptySet := "(SELECT 1 FROM (SELECT 1) AS _empty_set WHERE 1!=1)"
  defaultValues := "() VALUES ()"

/-- Standard SQL. -/
def generic : Dialect where
  name := "default"
  bindStyle := .named
  paging := .offsetFetch
  supportsReturning := false

/-- The dialects that there are without the caller's doing. -/
def databases : List Dialect := [.postgres, .sqlite, .mysql, .generic]

end SqlAlgebra.Dialect
