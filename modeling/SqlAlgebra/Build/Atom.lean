import SqlAlgebra.Tree.Build

/-!
# Atoms

The nodes that are made from plain data alone.
-/

namespace SqlAlgebra.Build

def null : Build Node := untyped .null

def truth (value : Bool) : Build Node := typed (.truth value) .boolean

/-- A column that belongs to no FROM element. -/
def column (name : String) (type : SqlType) : Build Node := typed (.column name none false) type

/-- A column whose name is written as it is. -/
def literalColumn (sql : String) : Build Node := untyped (.column sql none true)

/-- SQL text that is written as it is. -/
def text (sql : String) : Build Node := untyped (.text sql)

/-- A parameter that keeps the name it is given. -/
def namedParam (key : String) (value : Value) : Build Node :=
  typed (.bind ⟨some key, value, false, false, false⟩) (.ofValue value)

/-- A named parameter with one placeholder per value. -/
def expandingParam (key : String) (values : List Value) : Build Node :=
  typed (.bind ⟨some key, .list values, false, true, false⟩) (.ofValue (.list values))

def table (schema : Option String) (name : String) (columns : List ColumnShape) : Build Node :=
  untyped (.table ⟨name, schema, columns⟩)

end SqlAlgebra.Build
