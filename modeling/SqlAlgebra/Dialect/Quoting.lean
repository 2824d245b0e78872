/-!
# Quoting

A quoted text stands between two quotes, and a quote inside it is written twice.  An identifier is
quoted only if it has to be: a word of lower-case letters, digits, underscores and dollar signs that
starts with a letter or an underscore and is not reserved stands for itself.
-/

namespace SqlAlgebra

namespace Quoting

/-- The characters of a text with every one that needs it written twice. -/
def doubled (twice : Char) (s : List Char) : List Char :=
  s.flatMap fun c => if c = twice then [c, c] else [c]

/-- A text between quotes. -/
def quoted (quote : Char) (s : String) : String :=
  String.ofList (quote :: (doubled quote s.toList ++ [quote]))

def isLower (c : Char) : Bool := 'a' ≤ c && c ≤ 'z'

def isWordStart (c : Char) : Bool := c == '_' || isLower c

def isWordPart (c : Char) : Bool := c == '_' || c == '$' || isLower c || c.isDigit

/-- Whether an identifier has to be quoted. -/
def isRequired (reserved : List String) (ident : String) : Bool :=
  match ident.toList with
  | [] => true
  | first :: rest => !(isWordStart first && rest.all isWordPart) || reserved.contains ident

/-- The words that most databases reserve. -/
def reservedWords : List String :=
  ["all", "and", "any", "as", "asc", "between", "both", "by", "case", "cast", "check", "column",
    "constraint", "create", "cross", "current_date", "current_time", "current_timestamp", "default",
    "delete", "desc", "distinct", "do", "else", "end", "except", "exists", "false", "fetch", "for",
    "foreign", "from", "full", "grant", "group", "having", "in", "inner", "insert", "intersect",
    "into", "is", "join", "leading", "left", "like", "limit", "natural", "not", "null", "offset",
    "on", "only", "or", "order", "outer", "primary", "references", "returning", "right", "select",
    "set", "some", "table", "then", "to", "trailing", "true", "union", "unique", "update", "user",
    "using", "values", "when", "where", "window", "with"]

theorem doubled_cons (twice c : Char) (s : List Char) :
    doubled twice (c :: s) = (if c = twice then [c, c] else [c]) ++ doubled twice s := rfl

theorem doubled_append (twice : Char) (s t : List Char) :
    doubled twice (s ++ t) = doubled twice s ++ doubled twice t := by
  simp [doubled]

theorem doubled_of_notMem {twice : Char} {s : List Char} (h : twice ∉ s) : doubled twice s = s := by
  induction s with
  | nil => rfl
  | cons c s ih =>
    rw [List.mem_cons, not_or] at h
    rw [doubled_cons, if_neg (Ne.symm h.1), ih h.2, List.singleton_append]

end Quoting

end SqlAlgebra
