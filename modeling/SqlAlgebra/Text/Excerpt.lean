/-!
# Excerpts

Error messages quote the text that they are about, and a long text is quoted by its beginning.
-/

namespace SqlAlgebra.Text

/-- A text of at most `limit` characters as it is, and the first `limit` characters of a longer one
followed by three dots. -/
def excerpt (limit : Nat) (s : String) : String :=
  if s.length ≤ limit then s else String.ofList (s.toList.take limit) ++ "..."

end SqlAlgebra.Text
