import SqlAlgebra.Proofs.Reading.Lexeme

/-!
# Reading what is quoted

An identifier and a string literal are read back whatever characters they have, and the reader stops
where they end.  So no name and no value of the caller can leave its quotes and go on as SQL.

The readers know the characters of a word and the quotes, and nothing of how they came to be
written.  What follows must not go on in what is read: a quote after a closing quote would be one
quote inside, and a letter after a word would belong to it.
-/

namespace SqlAlgebra.Reading

variable {d : Dialect} {c quote : Char} {s rest after : List Char}

/-! ## Identifiers -/

def letters : List Char := "abcdefghijklmnopqrstuvwxyz".toList

def digits : List Char := "0123456789".toList

def wordStarts : List Char := '_' :: letters

def wordParts : List Char := '$' :: (wordStarts ++ digits)

/-- The identifier at the start of a text, a word or a text between quotes, and what follows it. -/
def identifier? (quote : Char) : List Char → Option (String × List Char)
  | [] => none
  | c :: rest =>
    if c = quote then
      (unquote quote rest).map fun (inside, after) => (String.ofList inside, after)
    else if c ∈ wordStarts then
      some (String.ofList (c :: rest.takeWhile (· ∈ wordParts)), rest.dropWhile (· ∈ wordParts))
    else none

/-- The characters whose codes lie between two numbers. -/
theorem mem_map_ofNat {start count : Nat} (low : start ≤ c.toNat) (high : c.toNat < start + count) :
    c ∈ (List.range' start count).map Char.ofNat :=
  List.mem_map.2 ⟨c.toNat, List.mem_range'_1.2 ⟨low, high⟩, Char.ofNat_toNat c⟩

theorem isLower_iff : Quoting.isLower c = true ↔ c ∈ letters := by
  constructor
  · intro lower
    have codes : letters = (List.range' 97 26).map Char.ofNat := rfl
    rw [Quoting.isLower, Bool.and_eq_true, decide_eq_true_eq, decide_eq_true_eq] at lower
    rw [codes]
    exact mem_map_ofNat lower.1 (Nat.lt_succ_of_le lower.2)
  · have all : letters.all Quoting.isLower = true := by decide
    exact List.all_eq_true.1 all c

theorem isDigit_iff : c.isDigit = true ↔ c ∈ digits := by
  constructor
  · intro digit
    have codes : digits = (List.range' 48 10).map Char.ofNat := rfl
    rw [Char.isDigit, Bool.and_eq_true, decide_eq_true_eq, decide_eq_true_eq] at digit
    rw [codes]
    exact mem_map_ofNat digit.1 (Nat.lt_succ_of_le digit.2)
  · have all : digits.all Char.isDigit = true := by decide
    exact List.all_eq_true.1 all c

theorem isWordStart_iff : Quoting.isWordStart c = true ↔ c ∈ wordStarts := by
  rw [Quoting.isWordStart, Bool.or_eq_true, beq_iff_eq, isLower_iff, wordStarts, List.mem_cons]

theorem isWordPart_iff : Quoting.isWordPart c = true ↔ c ∈ wordParts := by
  rw [Quoting.isWordPart, Bool.or_eq_true, Bool.or_eq_true, Bool.or_eq_true, beq_iff_eq, beq_iff_eq,
    isLower_iff, isDigit_iff, wordParts, wordStarts, List.mem_cons, List.mem_append, List.mem_cons,
    or_comm (a := c = '_'), or_assoc, or_assoc, or_assoc]

variable {ident : String}

/-- What an identifier that needs no quotes is. -/
theorem word_of_not_isRequired {reserved : List String}
    (plain : Quoting.isRequired reserved ident = false) :
    ident ∉ reserved ∧ ∃ first others, ident.toList = first :: others ∧ first ∈ wordStarts ∧
      ∀ c ∈ others, c ∈ wordParts := by
  unfold Quoting.isRequired at plain
  split at plain
  · cases plain
  · next first others chars =>
    rw [Bool.or_eq_false_iff, Bool.not_eq_false', Bool.and_eq_true, List.all_eq_true] at plain
    obtain ⟨⟨start, parts⟩, free⟩ := plain
    refine ⟨?_, first, others, chars, isWordStart_iff.1 start,
      fun c hc => isWordPart_iff.1 (parts c hc)⟩
    intro reserves
    rw [List.contains_iff_mem.2 reserves] at free
    cases free

/-- A word is read as far as it goes on. -/
theorem identifier?_word {first : Char} {others : List Char}
    (chars : ident.toList = first :: others) (start : first ∈ wordStarts)
    (parts : ∀ c ∈ others, c ∈ wordParts) (unlike : first ≠ quote)
    (ends : ∀ c ∈ rest.head?, c ∉ wordParts) :
    identifier? quote (ident.toList ++ rest) = some (ident, rest) := by
  have goesOn : ∀ c ∈ others, decide (c ∈ wordParts) = true :=
    fun c hc => decide_eq_true (parts c hc)
  obtain ⟨read, left⟩ :=
    takeWhile_append_of_ends goesOn fun c hc => decide_eq_false (ends c hc)
  rw [chars, List.cons_append, identifier?, if_neg unlike, if_pos start, read, left, ← chars,
    String.ofList_toList]

/-- Text between quotes is read up to the closing one. -/
theorem identifier?_quoted (quote : Char) (ident : String) (ends : ∀ c ∈ rest.head?, c ≠ quote) :
    identifier? quote ((Quoting.quoted quote ident).toList ++ rest) = some (ident, rest) := by
  have chars : (Quoting.quoted quote ident).toList ++ rest =
      quote :: (Quoting.doubled quote ident.toList ++ quote :: rest) := by
    rw [Quoting.quoted, String.toList_ofList, List.cons_append, List.append_assoc]
    rfl
  rw [chars, identifier?, if_pos rfl, unquote_doubled quote _ ends]
  show some (String.ofList ident.toList, rest) = _
  rw [String.ofList_toList]

/-- No dialect quotes identifiers with what could stand in one. -/
theorem identifierQuote_notMem (database : d ∈ Dialect.databases) :
    d.identifierQuote ∉ wordParts := by
  simp only [Dialect.databases, List.mem_cons, List.not_mem_nil, or_false] at database
  obtain rfl | rfl | rfl | rfl := database <;> decide

/-- An identifier is read back, and nothing of what follows it is.  It is left without quotes only
if it is not reserved. -/
theorem identifier?_identifier (database : d ∈ Dialect.databases) (ident : String)
    (ends : ∀ c ∈ rest.head?, c ≠ d.identifierQuote ∧ c ∉ wordParts) :
    identifier? d.identifierQuote ((d.identifier ident).toList ++ rest) = some (ident, rest) ∧
      ((d.identifier ident).toList.head? ≠ some d.identifierQuote →
        d.identifier ident = ident ∧ ident ∉ d.reservedWords) := by
  unfold Dialect.identifier
  by_cases required : Quoting.isRequired d.reservedWords ident = true
  · rw [if_pos required]
    refine ⟨identifier?_quoted _ ident fun c hc => (ends c hc).1, ?_⟩
    intro unquoted
    exact absurd (by rw [Quoting.quoted, String.toList_ofList]; rfl) unquoted
  · obtain ⟨free, first, others, chars, start, parts⟩ :=
      word_of_not_isRequired (Bool.eq_false_iff.2 required)
    have unlike : first ≠ d.identifierQuote := by
      rintro rfl
      exact identifierQuote_notMem database (List.mem_cons_of_mem _ (List.mem_append_left _ start))
    rw [if_neg required]
    refine ⟨identifier?_word chars start parts unlike fun c hc => (ends c hc).2, ?_⟩
    exact fun _ => ⟨rfl, free⟩

/-- A quote inside a name does not end it. -/
theorem identifier?_identifier_quote :
    identifier? '\x60' ((Dialect.mysql.identifier "we\x60ird").toList ++ " = 1".toList) =
        some ("we\x60ird", " = 1".toList) ∧
      ((Dialect.mysql.identifier "we\x60ird").toList.head? ≠ some '\x60' →
        Dialect.mysql.identifier "we\x60ird" = "we\x60ird" ∧
          "we\x60ird" ∉ Dialect.mysql.reservedWords) := by
  refine @identifier?_identifier .mysql " = 1".toList (by simp [Dialect.databases]) "we\x60ird" ?_
  intro c hc
  obtain rfl : ' ' = c := Option.some.inj hc
  decide

/-! ## String literals -/

/-- The character that takes the meaning of the next one away in the literals of a dialect. -/
def escape? (d : Dialect) : Option Char := if d.name = "mysql" then some '\\' else none

/-- A text up to a quote that neither stands twice nor is escaped, with what comes after it. -/
def unescape (escape : Option Char) : List Char → Option (List Char × List Char)
  | [] => none
  | [c] => if c = '\x27' then some ([], []) else none
  | c :: c' :: rest =>
    if c = '\x27' then
      if c' = '\x27' then (unescape escape rest).map fun (inside, after) => (c' :: inside, after)
      else some ([], c' :: rest)
    else if escape = some c then
      (unescape escape rest).map fun (inside, after) => (c' :: inside, after)
    else (unescape escape (c' :: rest)).map fun (inside, after) => (c :: inside, after)

/-- The string at the start of a text, and what comes after it. -/
def string? (escape : Option Char) : List Char → Option (String × List Char)
  | [] => none
  | c :: rest =>
    if c = '\x27' then
      (unescape escape rest).map fun (inside, after) => (String.ofList inside, after)
    else none

/-- The characters between the quotes of a literal. -/
def inside (escape : Option Char) (s : List Char) : List Char :=
  Quoting.doubled '\x27' (escape.elim s fun e => Quoting.doubled e s)

theorem inside_cons {escape : Option Char} (unlike : escape ≠ some '\x27') (c : Char)
    (s : List Char) :
    inside escape (c :: s) =
      (if c = '\x27' ∨ escape = some c then [c, c] else [c]) ++ inside escape s := by
  cases escape with
  | none => simp [inside, Quoting.doubled]
  | some e =>
    have first : inside (some e) (c :: s) =
        Quoting.doubled '\x27' (if c = e then [c, c] else [c]) ++ inside (some e) s :=
      Quoting.doubled_append _ _ _
    rw [first]
    by_cases same : c = e
    · have other : c ≠ '\x27' := by
        rintro rfl
        exact unlike (congrArg some same.symm)
      simp [same, same ▸ other, Quoting.doubled]
    · have plain : some e ≠ some c := fun h => same (Option.some.inj h).symm
      simp [same, plain, Quoting.doubled]

theorem unescape_inside {escape : Option Char} (unlike : escape ≠ some '\x27') (s : List Char)
    (ends : ∀ c ∈ after.head?, c ≠ '\x27') :
    unescape escape (inside escape s ++ '\x27' :: after) = some (s, after) := by
  induction s with
  | nil =>
    have empty : inside escape [] = [] := by cases escape <;> rfl
    rw [empty, List.nil_append]
    cases after with
    | nil => exact if_pos rfl
    | cons c after =>
      rw [unescape, if_pos rfl, if_neg (ends c rfl)]
  | cons c s ih =>
    rw [inside_cons unlike]
    by_cases quote : c = '\x27'
    · subst quote
      rw [if_pos (.inl rfl)]
      show unescape escape ('\x27' :: '\x27' :: (inside escape s ++ '\x27' :: after)) = _
      rw [unescape, if_pos rfl, if_pos rfl, ih]
      rfl
    · by_cases escaped : escape = some c
      · rw [if_pos (.inr escaped)]
        show unescape escape (c :: c :: (inside escape s ++ '\x27' :: after)) = _
        rw [unescape, if_neg quote, if_pos escaped, ih]
        rfl
      · -- something follows in any case, if only the closing quote
        rw [if_neg (not_or.2 ⟨quote, escaped⟩), List.append_assoc, List.singleton_append]
        cases texts : inside escape s ++ '\x27' :: after with
        | nil => exact absurd texts (by simp)
        | cons c' rest =>
          rw [unescape, if_neg quote, if_neg escaped, ← texts, ih]
          rfl

theorem toList_stringLiteral (database : d ∈ Dialect.databases) (value : String) :
    (d.stringLiteral value).toList = '\x27' :: (inside (escape? d) value.toList ++ ['\x27']) := by
  simp only [Dialect.databases, List.mem_cons, List.not_mem_nil, or_false] at database
  obtain rfl | rfl | rfl | rfl := database
  · exact String.toList_ofList
  · exact String.toList_ofList
  · show (Quoting.quoted '\x27' (String.ofList (Quoting.doubled '\\' value.toList))).toList = _
    rw [Quoting.quoted, String.toList_ofList, String.toList_ofList]
    rfl
  · exact String.toList_ofList

/-- A string literal is read back, and nothing of what follows it is. -/
theorem string?_stringLiteral (database : d ∈ Dialect.databases) (value : String)
    (ends : ∀ c ∈ rest.head?, c ≠ '\x27') :
    string? (escape? d) ((d.stringLiteral value).toList ++ rest) = some (value, rest) := by
  have unlike : escape? d ≠ some '\x27' := by
    unfold escape?
    split <;> decide
  rw [toList_stringLiteral database, List.cons_append, List.append_assoc, string?, if_pos rfl]
  show (unescape (escape? d) (inside (escape? d) value.toList ++ '\x27' :: rest)).map _ = _
  rw [unescape_inside unlike _ ends]
  show some (String.ofList value.toList, rest) = _
  rw [String.ofList_toList]

/-- A backslash before a quote does not help to end a literal. -/
theorem string?_stringLiteral_backslash :
    string? (some '\\') ((Dialect.mysql.stringLiteral "\\\x27 OR 1=1").toList ++ " AND".toList) =
      some ("\\\x27 OR 1=1", " AND".toList) := by
  refine @string?_stringLiteral .mysql " AND".toList (by simp [Dialect.databases])
    "\\\x27 OR 1=1" ?_
  intro c hc
  obtain rfl : ' ' = c := Option.some.inj hc
  decide

end SqlAlgebra.Reading
