import SqlAlgebra.Dialect.Database
import SqlAlgebra.Proofs.Reading.Reader

/-!
# Reading a text

The text of a statement for PostgreSQL as a reader sees it: lexemes, each as long as it can be, with
spaces between them where they would run together.  Words that belong to one operator are one token,
and so are the names of a column with the dots between them.
-/

namespace SqlAlgebra.Reading

/-- The words that an expression can contain; they are written in capitals. -/
inductive Word where
  | and
  | or
  | not
  | is
  | distinct
  /-- The word FROM. -/
  | source
  | like
  | iLike
  /-- The word IN. -/
  | member
  | between
  | select
  /-- The word WHERE. -/
  | condition
deriving DecidableEq

namespace Word

def all : List Word :=
  [.and, .or, .not, .is, .distinct, .source, .like, .iLike, .member, .between, .select, .condition]

def text : Word → String
  | .and => "AND"
  | .or => "OR"
  | .not => "NOT"
  | .is => "IS"
  | .distinct => "DISTINCT"
  | .source => "FROM"
  | .like => "LIKE"
  | .iLike => "ILIKE"
  | .member => "IN"
  | .between => "BETWEEN"
  | .select => "SELECT"
  | .condition => "WHERE"

end Word

inductive Lexeme where
  | name (ident : String)
  | placeholder (position : Nat)
  | number (n : Nat)
  | word (w : Word)
  /-- An operator written with signs. -/
  | sign (op : BinaryOp)
  | opening
  | closing
  | comma
  | dot
deriving DecidableEq

/-! ## From characters to lexemes -/

/-- A text up to a quote that does not stand twice, with what comes after it. -/
def unquote (quote : Char) : List Char → Option (List Char × List Char)
  | [] => none
  | [c] => if c = quote then some ([], []) else none
  | c :: c' :: rest =>
    if c = quote then
      if c' = quote then (unquote quote rest).map fun (inside, after) => (quote :: inside, after)
      else some ([], c' :: rest)
    else (unquote quote (c' :: rest)).map fun (inside, after) => (c :: inside, after)

def isSign (c : Char) : Bool := "=!<>+-*/%|&".toList.contains c

/-- A lexeme made of all the characters that go on in it. -/
def extend (goesOn : Char → Bool) (make : List Char → Option Lexeme) (rest : List Char) :
    Option (Lexeme × List Char) :=
  (make (rest.takeWhile goesOn)).map (·, rest.dropWhile goesOn)

def placeholder? (digits : List Char) : Option Lexeme :=
  if digits.isEmpty then none else some (.placeholder (Nat.ofDigitChars 10 digits 0))

def word? (letters : List Char) : Option Lexeme :=
  (Word.all.find? fun w => w.text.toList = letters).map .word

def sign? (signs : List Char) : Option Lexeme :=
  (BinaryOp.all.find? fun op => op.sql.toList = signs).map .sign

/-- The lexeme that starts with a character, and what comes after it. -/
def lexeme? (c : Char) (rest : List Char) : Option (Lexeme × List Char) :=
  if c = '(' then some (.opening, rest)
  else if c = ')' then some (.closing, rest)
  else if c = ',' then some (.comma, rest)
  else if c = '.' then some (.dot, rest)
  else if c = '"' then
    (unquote '"' rest).map fun (inside, after) => (.name (String.ofList inside), after)
  else if c = '$' then extend Char.isDigit placeholder? rest
  else if Quoting.isWordStart c then
    extend Quoting.isWordPart (fun s => some (.name (String.ofList (c :: s)))) rest
  else if c.isUpper then extend Char.isUpper (fun s => word? (c :: s)) rest
  else if c.isDigit then
    extend Char.isDigit (fun s => some (.number (Nat.ofDigitChars 10 (c :: s) 0))) rest
  else if isSign c then extend isSign (fun s => sign? (c :: s)) rest
  else none

section

variable {c : Char} {rest after : List Char} {x : Lexeme} {quote : Char}

theorem length_le_of_unquote {inside : List Char} (h : unquote quote rest = some (inside, after)) :
    after.length ≤ rest.length := by
  induction rest using unquote.induct quote generalizing inside with
  | case1 => cases h
  | case2 =>
    rw [unquote, if_pos rfl] at h
    cases h
    exact Nat.zero_le _
  | case3 c other =>
    rw [unquote, if_neg other] at h
    cases h
  | case4 rest ih =>
    rw [unquote, if_pos rfl, if_pos rfl] at h
    obtain ⟨_, found, eq⟩ := Option.map_eq_some_iff.1 h
    cases eq
    exact Nat.le_succ_of_le (Nat.le_succ_of_le (ih found))
  | case5 c' rest other =>
    rw [unquote, if_pos rfl, if_neg other] at h
    cases h
    exact Nat.le_succ _
  | case6 c c' rest other ih =>
    rw [unquote, if_neg other] at h
    obtain ⟨_, found, eq⟩ := Option.map_eq_some_iff.1 h
    cases eq
    exact Nat.le_succ_of_le (ih found)

/-- Whether a lexeme, if there is one, leaves no more than what came after its first character. -/
def Shortens (rest : List Char) (found : Option (Lexeme × List Char)) : Prop :=
  ∀ ⦃x after⦄, found = some (x, after) → after.length ≤ rest.length

theorem Shortens.ite {p : Prop} [Decidable p] {found found' : Option (Lexeme × List Char)}
    (h : Shortens rest found) (h' : Shortens rest found') :
    Shortens rest (if p then found else found') := by
  split
  · exact h
  · exact h'

theorem Shortens.one (x : Lexeme) : Shortens rest (some (x, rest)) := by
  rintro _ _ ⟨⟩
  exact Nat.le_refl _

theorem Shortens.extend (goesOn : Char → Bool) (make : List Char → Option Lexeme) :
    Shortens rest (extend goesOn make rest) := by
  intro x after h
  obtain ⟨_, -, eq⟩ := Option.map_eq_some_iff.1 h
  cases eq
  exact (List.dropWhile_suffix goesOn).length_le

theorem shortens_lexeme? (c : Char) (rest : List Char) : Shortens rest (lexeme? c rest) := by
  have quoted : Shortens rest
      ((unquote '"' rest).map fun (inside, after) => (.name (String.ofList inside), after)) := by
    intro x after h
    obtain ⟨_, found, eq⟩ := Option.map_eq_some_iff.1 h
    cases eq
    exact length_le_of_unquote found
  exact .ite (.one _) (.ite (.one _) (.ite (.one _) (.ite (.one _) (.ite quoted
    (.ite (.extend _ _) (.ite (.extend _ _) (.ite (.extend _ _) (.ite (.extend _ _)
      (.ite (.extend _ _) nofun)))))))))

end

/-- The lexemes of a text, if it consists of lexemes. -/
def lexemes : List Char → Option (List Lexeme)
  | [] => some []
  | c :: rest =>
    if c = ' ' then lexemes rest
    else
      match _h : lexeme? c rest with
      | none => none
      | some (x, after) => (lexemes after).map (x :: ·)
termination_by cs => cs.length
decreasing_by
  · exact Nat.lt_succ_self _
  · exact Nat.lt_succ_of_le (shortens_lexeme? c rest _h)

/-! ## From lexemes to tokens -/

/-- A word before other tokens, one token with those that belong to the same operator. -/
def Word.merge : Word → List Token → List Token
  | .and, ts => .link (.clauses .and) :: ts
  | .or, ts => .link (.clauses .or) :: ts
  | .not, .distinct false :: ts => .distinct true :: ts
  | .not, .link (.binary .like) :: ts => .link (.binary .notLike) :: ts
  | .not, .link (.binary .iLike) :: ts => .link (.binary .notILike) :: ts
  | .not, .link (.binary .member) :: ts => .link (.binary .notMember) :: ts
  | .not, .between false :: ts => .between true :: ts
  | .not, ts => .complement :: ts
  | .is, .distinct false :: ts => .link (.binary .isDistinctFrom) :: ts
  | .is, .distinct true :: ts => .link (.binary .isNotDistinctFrom) :: ts
  | .is, .complement :: ts => .link (.binary .isNot) :: ts
  | .is, ts => .link (.binary .is) :: ts
  | .distinct, .source :: ts => .distinct false :: ts
  | .distinct, ts => .other :: ts
  | .source, ts => .source :: ts
  | .like, ts => .link (.binary .like) :: ts
  | .iLike, ts => .link (.binary .iLike) :: ts
  | .member, ts => .link (.binary .member) :: ts
  | .between, ts => .between false :: ts
  | .select, ts => .select :: ts
  | .condition, ts => .other :: ts

/-- A lexeme before other tokens. -/
def Lexeme.merge : Lexeme → List Token → List Token
  | .name ident, .dot :: .operand (.column path) :: ts => .operand (.column (ident :: path)) :: ts
  | .name ident, ts => .operand (.column [ident]) :: ts
  | .placeholder k, ts => .operand (.placeholder k) :: ts
  | .number _, ts => .other :: ts
  | .word w, ts => w.merge ts
  | .sign op, ts => .link (.binary op) :: ts
  | .opening, ts => .opening :: ts
  | .closing, ts => .closing :: ts
  | .comma, ts => .comma :: ts
  | .dot, ts => .dot :: ts

/-- The tokens of a text. -/
def tokens? (cs : List Char) : Option (List Token) :=
  (lexemes cs).map fun xs => xs.foldr Lexeme.merge []

/-- The formula that a text says, if it says one. -/
def read (sql : String) : Option Formula := (tokens? sql.toList).bind readTokens

/-! ## Texts of lexemes -/

section

variable {c : Char} {rest after : List Char} {x : Lexeme} {tail ts : List Token} {t : Token}
  {ident : String} {k : Nat}

/-- Whether no lexeme before a text goes on in it. -/
def Stops (rest : List Char) : Prop :=
  ∀ c ∈ rest.head?, c = ' ' ∨ c = ')' ∨ c = ',' ∨ c = '.'

theorem stops_cons (h : c = ' ' ∨ c = ')' ∨ c = ',' ∨ c = '.') (rest : List Char) :
    Stops (c :: rest) := by
  rintro _ ⟨⟩
  exact h

theorem stops_space (rest : List Char) : Stops (' ' :: rest) := stops_cons (.inl rfl) rest

theorem Stops.ne (h : Stops rest) {p : Char → Bool}
    (hp : (p ' ' || p ')' || p ',' || p '.') = false) : ∀ c ∈ rest.head?, p c = false := by
  simp only [Bool.or_eq_false_iff] at hp
  intro c hc
  obtain rfl | rfl | rfl | rfl := h c hc
  · exact hp.1.1.1
  · exact hp.1.1.2
  · exact hp.1.2
  · exact hp.2

theorem tokens?_nil : tokens? [] = some [] := by
  rw [tokens?, lexemes]
  rfl

theorem tokens?_space (rest : List Char) : tokens? (' ' :: rest) = tokens? rest := by
  rw [tokens?, lexemes, if_pos rfl]
  rfl

theorem tokens?_cons (h : lexeme? c rest = some (x, after)) (visible : c ≠ ' ') :
    tokens? (c :: rest) = (tokens? after).map x.merge := by
  rw [tokens?, lexemes, if_neg visible]
  split
  · next found => rw [h] at found; cases found
  · next found =>
    rw [h] at found
    cases found
    rw [tokens?, Option.map_map, Option.map_map]
    rfl

/-- One lexeme before tokens that are known. -/
theorem tokens?_of_lexeme (h : lexeme? c rest = some (x, after)) (visible : c ≠ ' ')
    (tokens : tokens? after = some tail) : tokens? (c :: rest) = some (x.merge tail) := by
  rw [tokens?_cons h visible, tokens]
  rfl

/-- A text of one lexeme. -/
theorem tokens?_append {cs : List Char} (visible : cs.headD ' ' ≠ ' ')
    (h : lexeme? (cs.headD ' ') (cs.tail ++ rest) = some (x, after))
    (tokens : tokens? after = some tail) : tokens? (cs ++ rest) = some (x.merge tail) := by
  cases cs with
  | nil => exact absurd rfl visible
  | cons c cs => exact tokens?_of_lexeme h visible tokens

/-- What goes on in a text is cut off where the first character comes that does not. -/
theorem takeWhile_append_of_ends {goesOn : Char → Bool} {front : List Char}
    (h : ∀ c ∈ front, goesOn c = true) (ends : ∀ c ∈ after.head?, goesOn c = false) :
    (front ++ after).takeWhile goesOn = front ∧ (front ++ after).dropWhile goesOn = after := by
  have stop : after.takeWhile goesOn = [] ∧ after.dropWhile goesOn = after := by
    cases after with
    | nil => exact ⟨rfl, rfl⟩
    | cons c after =>
      have stop := ends c rfl
      exact ⟨List.takeWhile_cons_of_neg (by rw [stop]; exact Bool.false_ne_true),
        List.dropWhile_cons_of_neg (by rw [stop]; exact Bool.false_ne_true)⟩
  rw [List.takeWhile_append_of_pos h, List.dropWhile_append_of_pos h, stop.1, stop.2,
    List.append_nil]
  exact ⟨rfl, rfl⟩

theorem extend_append {goesOn : Char → Bool} {make : List Char → Option Lexeme}
    {front : List Char} (h : ∀ c ∈ front, goesOn c = true)
    (ends : ∀ c ∈ after.head?, goesOn c = false) :
    extend goesOn make (front ++ after) = (make front).map (·, after) := by
  obtain ⟨read, left⟩ := takeWhile_append_of_ends h ends
  rw [extend, read, left]

/-! ### Names -/

theorem unquote_doubled (quote : Char) (s : List Char) (ends : ∀ c ∈ after.head?, c ≠ quote) :
    unquote quote (Quoting.doubled quote s ++ quote :: after) = some (s, after) := by
  induction s with
  | nil =>
    cases after with
    | nil => exact if_pos rfl
    | cons c after =>
      show unquote quote (quote :: c :: after) = _
      rw [unquote, if_pos rfl, if_neg (ends c rfl)]
  | cons c s ih =>
    rw [Quoting.doubled_cons]
    split
    · next same =>
      subst same
      show unquote c (c :: c :: (Quoting.doubled c s ++ c :: after)) = _
      rw [unquote, if_pos rfl, if_pos rfl, ih]
      rfl
    · next other =>
      -- something follows in any case, if only the closing quote
      cases texts : Quoting.doubled quote s ++ quote :: after with
      | nil => exact absurd texts (by simp)
      | cons c' rest =>
        rw [List.append_assoc, texts, List.singleton_append, unquote, if_neg other, ← texts, ih]
        rfl

theorem lexeme?_of_isWordStart (h : Quoting.isWordStart c = true) (rest : List Char) :
    lexeme? c rest =
      extend Quoting.isWordPart (fun s => some (.name (String.ofList (c :: s)))) rest := by
  have other (c' : Char) (h' : Quoting.isWordStart c' = false) : c ≠ c' := by
    rintro rfl
    exact Bool.false_ne_true (h'.symm.trans h)
  rw [lexeme?, if_neg (other _ rfl), if_neg (other _ rfl), if_neg (other _ rfl),
    if_neg (other _ rfl), if_neg (other _ rfl), if_neg (other _ rfl), if_pos h]

/-- A name that needs no quotes is read as it is. -/
theorem tokens?_word (h : Quoting.isRequired Quoting.reservedWords ident = false)
    (stops : Stops rest) (tokens : tokens? rest = some tail) :
    tokens? (ident.toList ++ rest) = some ((Lexeme.name ident).merge tail) := by
  unfold Quoting.isRequired at h
  split at h
  · cases h
  · next first others chars =>
    rw [Bool.or_eq_false_iff, Bool.not_eq_false', Bool.and_eq_true, List.all_eq_true] at h
    obtain ⟨⟨start, parts⟩, -⟩ := h
    have visible : first ≠ ' ' := by
      rintro rfl
      cases start
    have same : ident = String.ofList (first :: others) := by rw [← chars, String.ofList_toList]
    rw [chars, List.cons_append]
    refine tokens?_of_lexeme ?_ visible tokens
    rw [lexeme?_of_isWordStart start, extend_append parts (stops.ne rfl), same]
    rfl

/-- A name is read back, quoted or not. -/
theorem tokens?_identifier (ident : String) (stops : Stops rest)
    (tokens : tokens? rest = some tail) :
    tokens? ((Dialect.postgres.identifier ident).toList ++ rest) =
      some ((Lexeme.name ident).merge tail) := by
  unfold Dialect.identifier
  split
  · have chars : (Quoting.quoted '"' ident).toList ++ rest =
        '"' :: (Quoting.doubled '"' ident.toList ++ '"' :: rest) := by
      rw [Quoting.quoted, String.toList_ofList, List.cons_append, List.append_assoc]
      rfl
    have ends : ∀ c ∈ rest.head?, c ≠ '"' := fun c hc => by
      simpa using stops.ne (p := (· == '"')) rfl c hc
    refine (congrArg tokens? chars).trans (tokens?_of_lexeme ?_ (by decide) tokens)
    have found : lexeme? '"' (Quoting.doubled '"' ident.toList ++ '"' :: rest) =
        (unquote '"' (Quoting.doubled '"' ident.toList ++ '"' :: rest)).map
          fun (inside, after) => (.name (String.ofList inside), after) := rfl
    rw [found, unquote_doubled '"' _ ends]
    show some (Lexeme.name (String.ofList ident.toList), rest) = _
    rw [String.ofList_toList]
  · next plain => exact tokens?_word (Bool.eq_false_iff.2 plain) stops tokens

/-! ### Placeholders, words and signs -/

theorem tokens?_placeholder (k : Nat) (stops : Stops rest) (tokens : tokens? rest = some tail) :
    tokens? (("$" ++ toString k).toList ++ rest) = some (.operand (.placeholder k) :: tail) := by
  have chars : ("$" ++ toString k).toList = '$' :: Nat.toDigits 10 k := by
    rw [String.toList_append, ← Nat.toList_repr]
    rfl
  rw [chars, List.cons_append]
  refine tokens?_of_lexeme (x := .placeholder k) ?_ (by decide) tokens
  have found (rest : List Char) : lexeme? '$' rest = extend Char.isDigit placeholder? rest := rfl
  have digits : ∀ c ∈ Nat.toDigits 10 k, c.isDigit = true :=
    fun c hc => Nat.isDigit_of_mem_toDigits (by decide) (by decide) hc
  have some : (Nat.toDigits 10 k).isEmpty = false := by
    rw [List.isEmpty_eq_false_iff]
    exact Nat.toDigits_ne_nil
  rw [found, extend_append digits (stops.ne rfl), placeholder?, some, Nat.ofDigitChars_ten_toDigits]
  rfl

theorem tokens?_opening (tokens : tokens? rest = some tail) :
    tokens? ('(' :: rest) = some (.opening :: tail) :=
  tokens?_of_lexeme (x := .opening) rfl (by decide) tokens

theorem tokens?_closing (tokens : tokens? rest = some tail) :
    tokens? (')' :: rest) = some (.closing :: tail) :=
  tokens?_of_lexeme (x := .closing) rfl (by decide) tokens

theorem tokens?_comma (tokens : tokens? rest = some tail) :
    tokens? (',' :: rest) = some (.comma :: tail) :=
  tokens?_of_lexeme (x := .comma) rfl (by decide) tokens

theorem tokens?_dot (tokens : tokens? rest = some tail) :
    tokens? ('.' :: rest) = some (.dot :: tail) :=
  tokens?_of_lexeme (x := .dot) rfl (by decide) tokens

/-- A minus sign against its operand is one unless the operand starts with a sign. -/
theorem tokens?_minus (plain : ∀ c ∈ rest.head?, isSign c = false)
    (tokens : tokens? rest = some tail) :
    tokens? ('-' :: rest) = some (.link (.binary .sub) :: tail) := by
  refine tokens?_of_lexeme (x := .sign .sub) ?_ (by decide) tokens
  have found : lexeme? '-' rest = extend isSign (fun s => sign? ('-' :: s)) ([] ++ rest) := rfl
  rw [found, extend_append (fun c hc => absurd hc List.not_mem_nil) plain]
  rfl

theorem tokens?_keyword (w : Word) (tokens : tokens? rest = some tail) :
    tokens? (w.text.toList ++ ' ' :: rest) = some (w.merge tail) := by
  have spaced : tokens? (' ' :: rest) = some tail := (tokens?_space rest).trans tokens
  have written (visible : w.text.toList.headD ' ' ≠ ' ')
      (h : lexeme? (w.text.toList.headD ' ') (w.text.toList.tail ++ ' ' :: rest) =
        some (.word w, ' ' :: rest)) :
      tokens? (w.text.toList ++ ' ' :: rest) = some (w.merge tail) :=
    tokens?_append visible h spaced
  cases w <;> exact written (by decide) rfl

/-- Whether a token is the first one of an operand of a comparison or of what binds more tightly. -/
def Token.Starts : Token → Prop
  | .operand _ | .opening => True
  | .link k => k = .binary .sub
  | _ => False

/-- The token of an operator between its operands. -/
def opToken : BinaryOp → Token
  | .between => .between false
  | .notBetween => .between true
  | op => .link (.binary op)

theorem merge_is (h : t.Starts) : Word.is.merge (t :: ts) = .link (.binary .is) :: t :: ts := by
  cases t with
  | link k => rfl
  | operand o => rfl
  | opening => rfl
  | _ => cases h

theorem merge_not (h : t.Starts ∨ t = .complement) :
    Word.not.merge (t :: ts) = .complement :: t :: ts := by
  obtain h | rfl := h
  · cases t with
    | link k =>
      obtain rfl : k = .binary .sub := h
      rfl
    | operand o => rfl
    | opening => rfl
    | _ => cases h
  · rfl

/-- An operator before an operand is one token, however many words it has. -/
theorem tokens?_operator (op : BinaryOp) (starts : t.Starts)
    (tokens : tokens? rest = some (t :: ts)) :
    tokens? (op.sql.toList ++ ' ' :: rest) = some (opToken op :: t :: ts) := by
  have sign (visible : op.sql.toList.headD ' ' ≠ ' ')
      (h : lexeme? (op.sql.toList.headD ' ') (op.sql.toList.tail ++ ' ' :: rest) =
        some (.sign op, ' ' :: rest)) :
      tokens? (op.sql.toList ++ ' ' :: rest) = some (.link (.binary op) :: t :: ts) :=
    tokens?_append visible h ((tokens?_space rest).trans tokens)
  have words (first second : Word) {tail : List Token}
      (h : tokens? (second.text.toList ++ ' ' :: rest) = some tail) :
      tokens? (first.text.toList ++ ' ' :: (second.text.toList ++ ' ' :: rest)) =
        some (first.merge tail) := tokens?_keyword first h
  have distinct := words .distinct .source (tokens?_keyword .source tokens)
  cases op with
  | is => exact (tokens?_keyword .is tokens).trans (congrArg some (merge_is starts))
  | isNot =>
    refine (words .is .not (tokens?_keyword .not tokens)).trans (congrArg some ?_)
    rw [merge_not (.inl starts)]
    rfl
  | isDistinctFrom => exact tokens?_keyword .is distinct
  | isNotDistinctFrom => exact tokens?_keyword .is (tokens?_keyword .not distinct)
  | like => exact tokens?_keyword .like tokens
  | notLike => exact words .not .like (tokens?_keyword .like tokens)
  | iLike => exact tokens?_keyword .iLike tokens
  | notILike => exact words .not .iLike (tokens?_keyword .iLike tokens)
  | member => exact tokens?_keyword .member tokens
  | notMember => exact words .not .member (tokens?_keyword .member tokens)
  | between => exact tokens?_keyword .between tokens
  | notBetween => exact words .not .between (tokens?_keyword .between tokens)
  | _ => exact sign (by decide) rfl

theorem tokens?_one (h : c.isDigit = false) (tokens : tokens? (c :: rest) = some tail) :
    tokens? ('1' :: c :: rest) = some (.other :: tail) := by
  refine tokens?_of_lexeme (x := .number 1) ?_ (by decide) tokens
  have found (rest : List Char) : lexeme? '1' rest = extend Char.isDigit
      (fun s => some (.number (Nat.ofDigitChars 10 ('1' :: s) 0))) ([] ++ rest) := rfl
  rw [found, extend_append (fun c hc => absurd hc List.not_mem_nil) (by rintro _ ⟨⟩; exact h)]
  rfl

/-- The subquery that stands for a list of no elements. -/
theorem tokens?_emptySet (tokens : tokens? rest = some tail) :
    tokens? (Dialect.postgres.emptySet.toList ++ rest) =
      some (Operand.subquery.tokens ++ tail) := by
  have unequal : tokens? ('!' :: '=' :: '1' :: ')' :: rest) =
      some (.link (.binary .ne) :: .other :: .closing :: tail) :=
    tokens?_of_lexeme (x := .sign .ne) rfl (by decide) (tokens?_one rfl (tokens?_closing tokens))
  have condition := tokens?_keyword .condition (tokens?_one rfl unequal)
  have column := tokens?_one rfl ((tokens?_space _).trans condition)
  exact tokens?_opening (tokens?_keyword .select column)

end

end SqlAlgebra.Reading
