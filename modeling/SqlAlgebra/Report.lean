import SqlAlgebra.Compiler
import SqlAlgebra.Value.Text

/-!
# Reports

The JSON text of a compiled statement.  Its members stand in the order in which a reader wants them, the
statement first, and not in the order of their keys, so the text is put together here.
-/

namespace SqlAlgebra

/-- The compact JSON text of an object whose members stand in this order. -/
def Json.orderedText (members : List (String × String)) : String :=
  "\x7b" ++ ",".intercalate (members.map fun (key, value) => Json.quote key ++ ":" ++ value) ++ "\x7d"

namespace Diagnostic

def jsonText (d : Diagnostic) : String :=
  Json.orderedText
    [("kind", Json.quote d.kind.name), ("message", Json.quote d.message),
      ("role", Json.quote d.role.name)]

end Diagnostic

namespace Compiled

def jsonText (c : Compiled) : String :=
  Json.orderedText
    [("sql", Json.quote c.sql),
      ("params", (Json.array (c.params.values.map Value.toJson)).text),
      ("param_names", (Json.array (c.params.names.map Json.string)).text),
      ("diagnostics", "[" ++ ",".intercalate (c.diagnostics.map Diagnostic.jsonText) ++ "]"),
      ("cache_hit", (Json.boolean c.cacheHit).text)]

end Compiled

end SqlAlgebra
