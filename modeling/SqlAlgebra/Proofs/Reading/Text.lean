import SqlAlgebra.Proofs.Cache.SyntheticNames
import SqlAlgebra.Proofs.Reading.Lexeme

/-!
# Expressions and their text

The formula that a tree of columns, bound parameters and operators is, and that the tokens of its
text are the ones that the formula is written with.  Placeholders are counted in the order of the
text, in which the values that they stand for are listed too.
-/

namespace SqlAlgebra

open List (Forall₂)
open Reading

/-! ## The formula of a tree -/

namespace BindParam

/-- The values that placeholders for a parameter stand for. -/
def values (p : BindParam) : List Value := if p.isExpanding then p.value.expand else [p.value]

/-- What a parameter is in a formula, after `before` other placeholders. -/
def operand (p : BindParam) (before : Nat) : Operand :=
  if p.isExpanding then
    match p.value.expand with
    | [] => .subquery
    | _ :: rest => .list (before + 1) (List.range' (before + 2) rest.length)
  else .placeholder (before + 1)

end BindParam

namespace Node

/-- The names that stand before the columns of a FROM element. -/
def sourcePath (name : Node → String) (n : Node) : List String :=
  match n.kind with
  | .table t => t.schema.toList ++ [t.name]
  | .alias _ given | .subquery _ given => [given.getD (name n)]
  | _ => []

/-- A column with the names before it.  A literal column has none. -/
def columnPath (name : Node → String) (column : String) (source : Option Node)
    (isLiteral : Bool) : List String :=
  if isLiteral then [column] else (source.elim [] fun n => n.sourcePath name) ++ [column]

mutual

/-- The formula of a tree after placeholders for some values, and the values that there are then. -/
def formula (name : Node → String) (n : Node) (before : List Value) : Formula × List Value :=
  match _h : n.kind with
  | .column column source isLiteral =>
    (.operand (.column (columnPath name column source isLiteral)), before)
  | .bind p => (.operand (p.operand before.length), before ++ p.values)
  | .unary op e =>
    let (e, after) := formula name e before
    (if op = .not then .complement e else .negation e, after)
  | .binary left op right =>
    let (left, next) := formula name left before
    match _hb : Layout.bounds? op right with
    | some (low, high) =>
      let (low, next) := formula name low next
      let (high, after) := formula name high next
      (.between (op = .notBetween) left low high, after)
    | none =>
      let (right, after) := formula name right next
      (.linked left (.binary op) right, after)
  | .clauseList op clauses =>
    match formulas name clauses before with
    | (e :: es, after) => (es.foldl (fun left e => .linked left (.clauses op) e) e, after)
    | ([], after) => (.operand .subquery, after)
  | _ => (.operand .subquery, before)
termination_by sizeOf n
decreasing_by
  all_goals (have smaller := n.sizeOf_kind; simp [*] at smaller; try omega)
  all_goals (have bounds := Layout.sizeOf_bounds _hb; omega)

def formulas (name : Node → String) (ns : List Node) (before : List Value) :
    List Formula × List Value :=
  match ns with
  | [] => ([], before)
  | n :: rest =>
    let (e, next) := formula name n before
    let (es, after) := formulas name rest next
    (e :: es, after)
termination_by sizeOf ns

end

/-- Whether a tree is built from columns and bound parameters with some operators and lists.  A
literal column is any text, and here one that is a name. -/
inductive BuiltFrom (U : UnaryOp → Prop) (B : BinaryOp → Prop) (L : ListOp → Prop) :
    Node → Prop where
  | column {n : Node} {column : String} {source : Option Node} {isLiteral : Bool} :
      n.kind = .column column source isLiteral →
        (isLiteral = true → Quoting.isRequired Quoting.reservedWords column = false) →
          BuiltFrom U B L n
  | bind {n : Node} {p : BindParam} : n.kind = .bind p → BuiltFrom U B L n
  | unary {n e : Node} {op : UnaryOp} : n.kind = .unary op e → U op → BuiltFrom U B L e →
      BuiltFrom U B L n
  | binary {n left right : Node} {op : BinaryOp} : n.kind = .binary left op right → B op →
      op ≠ .between → op ≠ .notBetween → BuiltFrom U B L left → BuiltFrom U B L right →
        BuiltFrom U B L n
  | between {n left right low high : Node} {op : BinaryOp} : n.kind = .binary left op right →
      B op → Layout.bounds? op right = some (low, high) → BuiltFrom U B L left →
        BuiltFrom U B L low → BuiltFrom U B L high → BuiltFrom U B L n
  | clauses {n : Node} {op : ListOp} {clauses : List Node} : n.kind = .clauseList op clauses →
      L op → clauses ≠ [] → (∀ c ∈ clauses, BuiltFrom U B L c) → BuiltFrom U B L n

theorem formulas_nil (name : Node → String) (before : List Value) :
    formulas name [] before = ([], before) := by
  rw [formulas]

theorem formulas_cons (name : Node → String) (n : Node) (rest : List Node) (before : List Value) :
    formulas name (n :: rest) before =
      ((n.formula name before).1 :: (formulas name rest (n.formula name before).2).1,
        (formulas name rest (n.formula name before).2).2) := by
  rw [formulas]

theorem formula_of_bounds {name : Node → String} {n left right low high : Node} {op : BinaryOp}
    (h : n.kind = .binary left op right) (hb : Layout.bounds? op right = some (low, high))
    (before : List Value) :
    formula name n before =
      let (left, next) := formula name left before
      let (low, next) := formula name low next
      let (high, after) := formula name high next
      (.between (op = .notBetween) left low high, after) := by
  rcases n with ⟨i, kind, type, annotations, diagnostics⟩
  cases h
  rw [formula]
  dsimp only
  split
  · next hb' =>
    rw [hb] at hb'
    cases hb'
    rfl
  · next hb' => rw [hb] at hb'; cases hb'

theorem formula_of_binary {name : Node → String} {n left right : Node} {op : BinaryOp}
    (h : n.kind = .binary left op right) (hb : Layout.bounds? op right = none)
    (before : List Value) :
    formula name n before =
      let (left, next) := formula name left before
      let (right, after) := formula name right next
      (.linked left (.binary op) right, after) := by
  rcases n with ⟨i, kind, type, annotations, diagnostics⟩
  cases h
  rw [formula]
  dsimp only
  split
  · next hb' => rw [hb] at hb'; cases hb'
  · rfl

theorem formula_of_clauses {name : Node → String} {n first : Node} {op : ListOp}
    {rest : List Node} (h : n.kind = .clauseList op (first :: rest)) (before : List Value) :
    formula name n before =
      ((formulas name rest (first.formula name before).2).1.foldl
          (fun left e => .linked left (.clauses op) e) (first.formula name before).1,
        (formulas name rest (first.formula name before).2).2) := by
  rcases n with ⟨i, kind, type, annotations, diagnostics⟩
  cases h
  rw [formula]
  dsimp only
  rw [formulas_cons]

section

variable {U : UnaryOp → Prop} {B : BinaryOp → Prop} {L : ListOp → Prop} {n : Node}

theorem BuiltFrom.mono {U' : UnaryOp → Prop} {B' : BinaryOp → Prop} {L' : ListOp → Prop}
    (h : n.BuiltFrom U B L) (hu : ∀ op, U op → U' op) (hb : ∀ op, B op → B' op)
    (hl : ∀ op, L op → L' op) : n.BuiltFrom U' B' L' := by
  induction h with
  | column kind plain => exact .column kind plain
  | bind kind => exact .bind kind
  | unary kind u _ ih => exact .unary kind (hu _ u) ih
  | binary kind b between notBetween _ _ ihl ihr =>
    exact .binary kind (hb _ b) between notBetween ihl ihr
  | between kind b bounds _ _ _ ihe ihl ihh => exact .between kind (hb _ b) bounds ihe ihl ihh
  | clauses kind l some _ ih => exact .clauses kind (hl _ l) some ih

end

end Node

/-! ## The text of a layout -/

namespace Part

theorem length_params (parts : List Part) :
    (parts.flatMap params).length = (parts.flatMap values).length := by
  rw [List.length_flatMap, List.length_flatMap]
  refine congrArg List.sum (List.map_congr_left fun part _ => ?_)
  rw [← part.map_snd_params, List.length_map]

/-- The text of some parts for PostgreSQL, after `before` parameters. -/
def textAfter (before : Nat) (parts : List Part) : List Char :=
  (filled (parts.flatMap (outline .postgres))
    (Template.placeholders .postgres before (parts.flatMap params))).toList

theorem textAfter_append (before : Nat) (ps qs : List Part) :
    textAfter before (ps ++ qs) =
      textAfter before ps ++ textAfter (before + (ps.flatMap values).length) qs := by
  have gaps : (ps.flatMap (outline .postgres)).count none =
      (Template.placeholders .postgres before (ps.flatMap params)).length := by
    rw [Template.length_placeholders, List.count_flatMap, List.length_flatMap]
    exact congrArg List.sum (List.map_congr_left fun part _ => part.count_outline)
  rw [textAfter, List.flatMap_append, List.flatMap_append, Template.placeholders_append,
    filled_append gaps, String.toList_append, length_params]
  rfl

theorem textAfter_text (before : Nat) (sql : String) :
    textAfter before [.text sql] = sql.toList :=
  congrArg String.toList (String.append_empty (s := sql))

end Part

namespace Layout

variable {named : Node → String → Prop} {before next after : List Value} {x y : Layout}
  {P Q : List Char → Prop}

/-- Whether a layout has a text of a kind under some names, and its placeholders add their values to
those before them. -/
structure Spells (named : Node → String → Prop) (before after : List Value) (P : List Char → Prop)
    (x : Layout) : Prop where
  fault : x.fault = none
  text : ∀ parts, Forall₂ (Piece.Written .postgres false named) x.pieces parts →
    before ++ parts.flatMap Part.values = after ∧ P (Part.textAfter before.length parts)

theorem Spells.mono (h : Spells named before after P x) (sub : ∀ cs, P cs → Q cs) :
    Spells named before after Q x :=
  ⟨h.fault, fun parts written => (h.text parts written).imp_right (sub _)⟩

theorem Spells.append (h : Spells named before next P x) (h' : Spells named next after Q y) :
    Spells named before after (fun cs => ∃ front back, cs = front ++ back ∧ P front ∧ Q back)
      (x ++ y) := by
  have pieces : x ++ y = ⟨x.pieces ++ y.pieces, y.fault⟩ := by
    show Layout.append x y = _
    rw [Layout.append, h.fault]
  rw [pieces]
  refine ⟨h'.fault, fun parts written => ?_⟩
  have first := (List.forall₂_take_append _ _ _ written.flip).flip
  have second := (List.forall₂_drop_append _ _ _ written.flip).flip
  rw [← List.take_append_drop x.pieces.length parts]
  generalize parts.take x.pieces.length = ps at first
  generalize parts.drop x.pieces.length = qs at second
  obtain ⟨rfl, front⟩ := h.text _ first
  obtain ⟨rfl, back⟩ := h'.text _ second
  rw [List.length_append] at back
  rw [Part.textAfter_append, List.flatMap_append, ← List.append_assoc]
  exact ⟨rfl, _, _, rfl, front, back⟩

theorem spells_text (named : Node → String → Prop) (before : List Value) (sql : String) :
    Spells named before before (· = sql.toList) (text sql) := by
  refine ⟨rfl, fun parts written => ?_⟩
  obtain ⟨_, _, ⟨⟩, ⟨⟩, rfl⟩ := List.forall₂_cons_left_iff.1 written
  exact ⟨List.append_nil before, Part.textAfter_text before.length sql⟩

theorem spells_anonymous {n : Node} (h : ∀ name, named n name → P name.toList) :
    Spells named before before P (piece (.anonymous n)) := by
  refine ⟨rfl, fun parts written => ?_⟩
  obtain ⟨_, _, first, ⟨⟩, rfl⟩ := List.forall₂_cons_left_iff.1 written
  cases first with
  | anonymous given =>
    refine ⟨List.append_nil before, ?_⟩
    rw [Part.textAfter_text]
    exact h _ given

theorem spells_bind {n : Node} {p : BindParam}
    (h : ∀ name, P (Part.textAfter before.length [.param n p name])) :
    Spells named before (before ++ p.values) P (piece (.bind n p)) := by
  refine ⟨rfl, fun parts written => ?_⟩
  obtain ⟨_, _, first, ⟨⟩, rfl⟩ := List.forall₂_cons_left_iff.1 written
  cases first with
  | kept _ _ _ => exact ⟨congrArg (before ++ ·) (List.flatMap_singleton _ _), h _⟩
  | synthetic _ _ _ => exact ⟨congrArg (before ++ ·) (List.flatMap_singleton _ _), h _⟩
  | literal inline _ => cases inline

end Layout

/-! ## The text of a formula -/

namespace Reading

open Layout (Spells)

variable {cs cs' : List Char} {ts ts' : List Token} {e l r low high : Formula} {outer p : Nat}

/-- Whether a text has some tokens, whatever comes after it. -/
def Tokenizes (ts : List Token) (cs : List Char) : Prop :=
  ∀ ⦃rest : List Char⦄ ⦃tail : List Token⦄, Stops rest → tokens? rest = some tail →
    tail.head? ≠ some .dot → tokens? (cs ++ rest) = some (ts ++ tail)

/-- Whether a text can stand behind a sign without running together with it. -/
def Apart (cs : List Char) : Prop := ∃ c rest, cs = c :: rest ∧ isSign c = false

/-- Whether a text is that of a formula in a place of strength `outer`. -/
structure Writes (outer : Nat) (e : Formula) (cs : List Char) : Prop where
  tokens : Tokenizes (e.tokens outer) cs
  apart : UnaryOp.neg.precedence < outer → Apart cs

theorem Apart.append (h : Apart cs) (cs' : List Char) : Apart (cs ++ cs') := by
  obtain ⟨c, rest, rfl, plain⟩ := h
  exact ⟨c, rest ++ cs', rfl, plain⟩

/-- How the tokens of a formula in a place of strength `outer` begin: with NOT only where that needs
no parentheses. -/
def Begins (outer : Nat) (ts : List Token) : Prop :=
  ∃ t ts', ts = t :: ts' ∧ (t.Starts ∨ outer ≤ UnaryOp.not.precedence ∧ t = .complement)

theorem begins_of_open (h : e.strength? = some p) (body : outer ≤ p → Begins p (e.tokens 0)) :
    Begins outer (e.tokens outer) := by
  obtain enclose | le := Nat.lt_or_ge p outer
  · exact ⟨_, _, Formula.tokens_of_lt h enclose, .inl trivial⟩
  · obtain ⟨t, ts, eq, starts⟩ := body le
    exact ⟨t, ts, (Formula.tokens_of_le h le).trans eq,
      starts.imp_right fun ⟨most, is⟩ => ⟨Nat.le_trans le most, is⟩⟩

theorem Begins.append (h : Begins outer ts) (ts' : List Token) : Begins outer (ts ++ ts') := by
  obtain ⟨t, rest, rfl, starts⟩ := h
  exact ⟨t, rest ++ ts', rfl, starts⟩

theorem begins_tokens (outer : Nat) (e : Formula) : Begins outer (e.tokens outer) := by
  induction e generalizing outer with
  | operand o => cases o <;> exact ⟨_, _, rfl, .inl trivial⟩
  | negation e ih => exact begins_of_open rfl fun _ => ⟨_, _, rfl, .inl rfl⟩
  | complement e ih => exact begins_of_open rfl fun _ => ⟨_, _, rfl, .inr ⟨Nat.le_refl _, rfl⟩⟩
  | linked l k r ihl ihr => exact begins_of_open rfl fun _ => (ihl k.precedence).append _
  | between isNegated e low high ihe ihl ihh =>
    exact begins_of_open rfl fun _ => (ihe BinaryOp.between.precedence).append _

/-! ### Texts of operators -/

theorem Tokenizes.append (h : Tokenizes ts cs)
    (h' : ∀ ⦃rest : List Char⦄ ⦃tail : List Token⦄, Stops rest → tokens? rest = some tail →
      tail.head? ≠ some .dot → ∃ after, cs' ++ rest = ' ' :: after ∧
        tokens? after = some (ts' ++ tail) ∧ (ts' ++ tail).head? ≠ some .dot) :
    Tokenizes (ts ++ ts') (cs ++ cs') := by
  intro rest tail stops tokens plain
  obtain ⟨after, spaced, found, first⟩ := h' stops tokens plain
  rw [List.append_assoc, List.append_assoc, spaced]
  exact h (stops_space after) ((tokens?_space after).trans found) first

/-- An operator between two texts. -/
theorem Tokenizes.operator {rs : Nat} (op : BinaryOp) (hl : Tokenizes ts cs)
    (hr : Tokenizes ts' cs') (begins : Begins rs ts') (above : UnaryOp.not.precedence < rs) :
    Tokenizes (ts ++ opToken op :: ts') (cs ++ ((" " ++ op.sql ++ " ").toList ++ cs')) := by
  obtain ⟨t, ts', rfl, starts⟩ := begins
  have starts : t.Starts := starts.resolve_right fun low => absurd low.1 (Nat.not_le_of_lt above)
  refine hl.append fun rest tail stops tokens plain => ⟨op.sql.toList ++ ' ' :: (cs' ++ rest), ?_,
    tokens?_operator op starts (hr stops tokens plain), ?_⟩
  · simp [String.toList_append]
  · cases op <;> simp [opToken]

/-- A word that stands alone between two texts. -/
theorem Tokenizes.keyword (w : Word) {k : Link} (merge : ∀ ts, w.merge ts = .link k :: ts)
    (hl : Tokenizes ts cs) (hr : Tokenizes ts' cs') :
    Tokenizes (ts ++ .link k :: ts') (cs ++ ((" " ++ w.text ++ " ").toList ++ cs')) := by
  refine hl.append fun rest tail stops tokens plain => ⟨w.text.toList ++ ' ' :: (cs' ++ rest), ?_,
    (tokens?_keyword w (hr stops tokens plain)).trans (congrArg some (merge _)), ?_⟩
  · simp [String.toList_append]
  · simp

theorem Tokenizes.enclosed (h : Tokenizes ts cs) :
    Tokenizes (.opening :: (ts ++ [.closing])) ("(".toList ++ cs ++ ")".toList) := by
  intro rest tail _ tokens _
  have close := tokens?_closing tokens
  have inner := h (stops_cons (.inr (.inl rfl)) rest) close (by simp)
  rw [List.append_assoc, List.append_assoc, List.cons_append, List.append_assoc]
  exact tokens?_opening inner

theorem Writes.negation (h : Writes (Layout.operandStrength .neg) e cs) :
    Tokenizes ((Formula.negation e).tokens 0) ("-".toList ++ cs) := by
  intro rest tail stops tokens plain
  obtain ⟨c, cs, rfl, apart⟩ := h.apart (by decide)
  exact tokens?_minus (by rintro _ ⟨⟩; exact apart) (h.tokens stops tokens plain)

theorem Writes.complement (h : Writes (Layout.operandStrength .not) e cs) :
    Tokenizes ((Formula.complement e).tokens 0) ("NOT ".toList ++ cs) := by
  intro rest tail stops tokens plain
  have inner := h.tokens stops tokens plain
  obtain ⟨t, ts, first, starts⟩ := begins_tokens (Layout.operandStrength .not) e
  rw [first] at inner
  refine (tokens?_keyword .not inner).trans (congrArg some ?_)
  show Word.not.merge (t :: (ts ++ tail)) = .complement :: (e.tokens _ ++ tail)
  rw [merge_not (starts.imp_right And.right), first]
  rfl

/-! ### Columns -/

theorem isSign_of_isWordStart {c : Char} (h : Quoting.isWordStart c = true) :
    isSign c = false := by
  rw [Bool.eq_false_iff]
  intro sign
  have known : c ∈ "=!<>+-*/%|&".toList := by simpa [isSign] using sign
  have plain : "=!<>+-*/%|&".toList.all fun c => !Quoting.isWordStart c := by decide
  have other := List.all_eq_true.1 plain c known
  rw [h] at other
  cases other

theorem apart_word {ident : String}
    (h : Quoting.isRequired Quoting.reservedWords ident = false) : Apart ident.toList := by
  unfold Quoting.isRequired at h
  split at h
  · cases h
  · next first others chars =>
    rw [Bool.or_eq_false_iff, Bool.not_eq_false', Bool.and_eq_true] at h
    exact ⟨first, others, chars, isSign_of_isWordStart h.1.1⟩

theorem apart_identifier (ident : String) :
    Apart (Dialect.postgres.identifier ident).toList := by
  unfold Dialect.identifier
  split
  · exact ⟨'"', _, String.toList_ofList, rfl⟩
  · next plain => exact apart_word (Bool.eq_false_iff.2 plain)

/-- Whether a text is names before a dot. -/
def Qualifies (path : List String) (cs : List Char) : Prop :=
  ∀ ⦃rest : List Char⦄ ⦃names : List String⦄ ⦃ts : List Token⦄,
    tokens? rest = some (.operand (.column names) :: ts) →
      tokens? (cs ++ '.' :: rest) = some (.operand (.column (path ++ names)) :: ts)

theorem qualifies_identifier (ident : String) :
    Qualifies [ident] (Dialect.postgres.identifier ident).toList :=
  fun rest _ _ tokens => tokens?_identifier ident (stops_cons (.inr (.inr (.inr rfl))) rest)
    (tokens?_dot tokens)

theorem qualifies_word {ident : String}
    (h : Quoting.isRequired Quoting.reservedWords ident = false) :
    Qualifies [ident] ident.toList :=
  fun rest _ _ tokens => tokens?_word h (stops_cons (.inr (.inr (.inr rfl))) rest)
    (tokens?_dot tokens)

theorem Qualifies.dot {path path' : List String} (h : Qualifies path cs)
    (h' : Qualifies path' cs') :
    Qualifies (path ++ path') (cs ++ ('.' :: cs')) := by
  intro rest names ts tokens
  rw [List.append_assoc, List.append_assoc]
  exact h (h' tokens)

theorem merge_name (ident : String) (plain : ts.head? ≠ some .dot) :
    (Lexeme.name ident).merge ts = .operand (.column [ident]) :: ts := by
  cases ts with
  | nil => rfl
  | cons t ts =>
    cases t with
    | dot => exact absurd rfl plain
    | _ => rfl

theorem tokenizes_identifier (ident : String) :
    Tokenizes [.operand (.column [ident])] (Dialect.postgres.identifier ident).toList :=
  fun _ _ stops tokens plain =>
    (tokens?_identifier ident stops tokens).trans (congrArg some (merge_name ident plain))

theorem tokenizes_word {ident : String}
    (h : Quoting.isRequired Quoting.reservedWords ident = false) :
    Tokenizes [.operand (.column [ident])] ident.toList :=
  fun _ _ stops tokens plain =>
    (tokens?_word h stops tokens).trans (congrArg some (merge_name ident plain))

/-- Whether nodes have the names that a function gives them, and the ones that are left to be named
have names that need no quotes. -/
structure NamedBy (named : Node → String → Prop) (name : Node → String) : Prop where
  same : ∀ ⦃n s⦄, named n s → name n = s
  plain : ∀ ⦃n s⦄, n.isNameless = true → named n s →
    Quoting.isRequired Quoting.reservedWords s = false

variable {named : Node → String → Prop} {name : Node → String} {n : Node} {x : Layout}
  {before next after : List Value} {column : String} {source : Option Node} {isLiteral : Bool}

theorem spells_sourceName (hn : NamedBy named name)
    (h : Layout.sourceName? .postgres n = some x) :
    Spells named before before (fun cs => Qualifies (n.sourcePath name) cs ∧ Apart cs) x := by
  have identifier (ident : String) : Spells named before before
      (fun cs => Qualifies [ident] cs ∧ Apart cs) (Layout.identifier .postgres ident) :=
    (Layout.spells_text named before _).mono
      fun _ eq => eq ▸ ⟨qualifies_identifier ident, apart_identifier ident⟩
  have alternative {given : Option String} (nameless : given = none → n.isNameless = true) :
      Spells named before before (fun cs => Qualifies [given.getD (name n)] cs ∧ Apart cs)
        (given.elim (Layout.piece (.anonymous n)) (Layout.identifier .postgres)) := by
    cases given with
    | some given => exact identifier given
    | none =>
      refine Layout.spells_anonymous fun s hs => ?_
      have plain := hn.plain (nameless rfl) hs
      rw [Option.getD_none, hn.same hs]
      exact ⟨qualifies_word plain, apart_word plain⟩
  cases hk : n.kind with
  | table t =>
    rw [Layout.sourceName?, hk] at h
    rw [Node.sourcePath, hk]
    dsimp only at h ⊢
    cases hs : t.schema with
    | none =>
      rw [hs] at h
      cases h
      exact identifier t.name
    | some schema =>
      rw [hs] at h
      cases h
      refine (Layout.spells_text named before _).mono fun _ eq => ?_
      rw [eq, String.toList_append, String.toList_append, List.append_assoc]
      exact ⟨(qualifies_identifier schema).dot (qualifies_identifier t.name),
        (apart_identifier schema).append _⟩
  | «alias» element given | subquery element given =>
    rw [Layout.sourceName?, hk] at h
    rw [Node.sourcePath, hk]
    have known := @alternative given fun none => by rw [Node.isNameless, hk, none]; rfl
    cases given <;> cases h <;> exact known
  | _ =>
    rw [Layout.sourceName?, hk] at h
    cases h

theorem sourcePath_eq_nil (h : Layout.sourceName? .postgres n = none) :
    n.sourcePath name = [] := by
  cases hk : n.kind with
  | table t =>
    rw [Layout.sourceName?, hk] at h
    cases hs : t.schema <;> simp [hs] at h
  | «alias» element given | subquery element given =>
    rw [Layout.sourceName?, hk] at h
    cases given <;> cases h
  | _ => rw [Node.sourcePath, hk]

theorem spells_column (hn : NamedBy named name) (outer : Nat)
    (plain : isLiteral = true → Quoting.isRequired Quoting.reservedWords column = false) :
    Spells named before before
      (Writes outer (.operand (.column (Node.columnPath name column source isLiteral))))
      (Layout.column .postgres column source isLiteral) := by
  have alone : Spells named before before (Writes outer (.operand (.column [column])))
      (Layout.identifier .postgres column) :=
    (Layout.spells_text named before _).mono
      fun _ eq => eq ▸ ⟨tokenizes_identifier column, fun _ => apart_identifier column⟩
  unfold Layout.column Node.columnPath
  cases isLiteral with
  | true =>
    have plain := plain rfl
    refine (Layout.spells_text named before _).mono fun _ eq => ?_
    exact eq ▸ ⟨tokenizes_word plain, fun _ => apart_word plain⟩
  | false =>
    cases hs : source.bind (Layout.sourceName? .postgres) with
    | none =>
      have path : (source.elim [] fun n => n.sourcePath name) = [] := by
        cases source with
        | none => rfl
        | some n => exact sourcePath_eq_nil hs
      rw [path]
      exact alone
    | some x =>
      obtain ⟨n, rfl, hx⟩ := Option.bind_eq_some_iff.1 hs
      refine (((spells_sourceName hn hx).append (Layout.spells_text named before ".")).append
        alone).mono ?_
      rintro _ ⟨_, last, rfl, ⟨front, _, rfl, ⟨qualifies, apart⟩, rfl⟩, written⟩
      refine ⟨fun rest tail stops tokens plain => ?_, fun _ => (apart.append _).append _⟩
      rw [List.append_assoc, List.append_assoc]
      exact qualifies (written.tokens stops tokens plain)

/-! ### Parameters -/

/-- The placeholders of a list that ends here. -/
theorem tokens?_list {rest : List Char} {tail : List Token} (tokens : tokens? rest = some tail)
    (k : Nat) (ks : List Nat) :
    tokens? ((", ".intercalate ((k :: ks).map fun k => "$" ++ toString k)).toList ++ ')' :: rest) =
      some (.operand (.placeholder k) :: (listTokens ks ++ .closing :: tail)) := by
  induction ks generalizing k with
  | nil =>
    rw [List.map_singleton, String.intercalate_singleton]
    exact tokens?_placeholder k (stops_cons (.inr (.inl rfl)) rest) (tokens?_closing tokens)
  | cons k' ks ih =>
    have later := tokens?_comma ((tokens?_space _).trans (ih k'))
    rw [List.map_cons, List.map_cons, String.intercalate_cons_cons, String.toList_append,
      String.toList_append, List.append_assoc, List.append_assoc]
    exact tokens?_placeholder k (stops_cons (.inr (.inr (.inl rfl))) _) later

/-- Numbered placeholders count on. -/
theorem placeholders_eq_range (before : Nat) (params : List (String × Value)) :
    Template.placeholders .postgres before params =
      (List.range' (before + 1) params.length).map fun k => "$" ++ toString k := by
  unfold Template.placeholders
  rw [List.range'_eq_map_range, List.range_eq_range', ← List.zipIdx_map_snd 0 params, List.map_map,
    List.map_map]
  refine List.map_congr_left fun entry _ => ?_
  show "$" ++ toString (before + entry.2 + 1) = "$" ++ toString (before + 1 + entry.2)
  rw [Nat.add_right_comm]

theorem spells_bind (outer : Nat) (p : BindParam) :
    Spells named before (before ++ p.values) (Writes outer (.operand (p.operand before.length)))
      (Layout.piece (.bind n p)) := by
  refine Layout.spells_bind fun s => ?_
  generalize before.length = before
  unfold BindParam.operand Part.textAfter
  rw [List.flatMap_singleton, List.flatMap_singleton]
  cases h : p.isExpanding with
  | false =>
    have text : (Part.filled ((Part.param n p s).outline .postgres)
        (Template.placeholders .postgres before (Part.param n p s).params)) =
          "$" ++ toString (before + 1) := by
      rw [Part.outline_of_plain h, Part.params_of_plain h]
      exact String.append_empty
    rw [text]
    exact ⟨fun rest tail stops tokens _ => tokens?_placeholder (before + 1) stops tokens,
      fun _ => ⟨'$', _, String.toList_append, rfl⟩⟩
  | true =>
    rw [if_pos rfl]
    cases expand : p.value.expand with
    | nil =>
      rw [Part.outline_of_empty h expand]
      have text (holes : List String) : (Part.filled [some Dialect.postgres.emptySet] holes) =
          Dialect.postgres.emptySet := String.append_empty
      rw [text]
      exact ⟨fun rest tail _ tokens _ => tokens?_emptySet tokens, fun _ => ⟨'(', _, rfl, rfl⟩⟩
    | cons item items =>
      have length : (Template.elements s (item :: items)).length = items.length + 1 := by
        rw [Template.elements, List.length_map, List.length_zipIdx]
        rfl
      -- the elements of a list have a placeholder each, numbered on from the values before
      have holes := placeholders_eq_range before (Template.elements s (item :: items))
      rw [Part.outline_of_cons h expand, Part.params_of_expanding h, expand]
      rw [← length, ← Template.length_placeholders .postgres before, Part.filled_enclosed, holes,
        length, List.range'_succ]
      have chars (inner : String) :
          ("(" ++ inner ++ ")").toList = '(' :: (inner.toList ++ [')']) := by
        rw [String.toList_append, String.toList_append]
        rfl
      rw [chars]
      refine ⟨fun rest tail _ tokens _ => ?_, fun _ => ⟨'(', _, rfl, rfl⟩⟩
      rw [List.cons_append, List.append_assoc]
      refine (tokens?_opening (tokens?_list tokens _ _)).trans (congrArg some ?_)
      show _ = .opening :: .operand _ :: ((listTokens _ ++ [.closing]) ++ tail)
      rw [List.append_assoc]
      rfl

/-! ### Expressions -/

theorem spells_parenthesized {P : List Char → Prop} (h : Spells named before after P x) :
    Spells named before after (fun cs => ∃ inner, cs = '(' :: (inner ++ [')']) ∧ P inner)
      (Layout.parenthesized x) := by
  refine (((Layout.spells_text named before "(").append h).append
    (Layout.spells_text named after ")")).mono ?_
  rintro _ ⟨_, _, rfl, ⟨_, inner, rfl, rfl, inside⟩, rfl⟩
  exact ⟨inner, rfl, inside⟩

/-- What is written without parentheses is written in a place of any strength, with parentheses
where it needs them. -/
theorem spells_enclosed {p : Nat} (h : e.strength? = some p) (most : p ≤ UnaryOp.neg.precedence)
    (opened : Spells named before after (Tokenizes (e.tokens 0)) x) (outer : Nat) :
    Spells named before after (Writes outer e) (Layout.parenthesizedIf (p < outer) x) := by
  unfold Layout.parenthesizedIf
  split
  · next enclose =>
    refine (spells_parenthesized opened).mono ?_
    rintro _ ⟨inner, rfl, tokens⟩
    refine ⟨?_, fun _ => ⟨'(', _, rfl, rfl⟩⟩
    rw [Formula.tokens_of_lt h (of_decide_eq_true enclose)]
    exact tokens.enclosed
  · next enclose =>
    have le : outer ≤ p := Nat.le_of_not_lt fun lt => enclose (decide_eq_true lt)
    refine opened.mono fun cs tokens => ⟨?_, fun lt => ?_⟩
    · rw [Formula.tokens_of_le h le]
      exact tokens
    · exact absurd (Nat.lt_of_lt_of_le lt le) (Nat.not_lt_of_le most)

/-- Whether an expression has the text of its formula wherever it stands. -/
def IsSpelled (named : Node → String → Prop) (name : Node → String) (n : Node) : Prop :=
  ∀ (frames : List Frame) (outer : Nat) (before : List Value),
    Spells named before (n.formula name before).2 (Writes outer (n.formula name before).1)
      (Layout.expression .postgres frames outer n)

/-- The tokens of formulas with a link between them. -/
def chainTokens (k : Link) : List Formula → List Token
  | [] => []
  | e :: es => e.tokens k.precedence ++ es.flatMap fun e => .link k :: e.tokens k.precedence

theorem tokens_foldl {k : Link} (h : k.isAssociative = true) (e : Formula) (es : List Formula) :
    (es.foldl (fun left e => .linked left k e) e).tokens k.precedence =
      chainTokens k (e :: es) := by
  induction es generalizing e with
  | nil => exact (List.append_nil _).symm
  | cons e' es ih =>
    have alone : (Formula.linked e k e').tokens k.precedence =
        e.tokens k.precedence ++ .link k :: e'.tokens k.precedence := by
      rw [Formula.tokens, decide_eq_false (Nat.lt_irrefl _), Link.rightStrength, if_pos h]
      rfl
    rw [List.foldl_cons, ih, chainTokens, alone, List.append_assoc]
    rfl

theorem strength?_foldl (k : Link) (e e' : Formula) (es : List Formula) :
    ((e' :: es).foldl (fun left e => .linked left k e) e).strength? = some k.precedence := by
  induction es generalizing e e' with
  | nil => rfl
  | cons e'' es ih => exact ih (.linked e k e') e''

theorem spells_chain {op : ListOp} (h : op ≠ .comma) {ns : List Node} (some : ns ≠ [])
    (spelled : ∀ c ∈ ns, IsSpelled named name c) (frames : List Frame) (before : List Value) :
    Spells named before (Node.formulas name ns before).2
      (Tokenizes (chainTokens (.clauses op) (Node.formulas name ns before).1))
      (Layout.separated op.separator
        (Layout.expressions .postgres frames op.precedence ns)) := by
  rw [Layout.expressions_eq]
  induction ns generalizing before with
  | nil => exact absurd rfl some
  | cons n rest ih =>
    have first := spelled n List.mem_cons_self frames op.precedence before
    rw [Node.formulas_cons]
    cases rest with
    | nil =>
      rw [Node.formulas_nil]
      refine first.mono fun cs written => ?_
      show Tokenizes (_ ++ []) cs
      rw [List.append_nil]
      exact written.tokens
    | cons n' rest =>
      have later := ih (List.cons_ne_nil _ _)
        (fun c hc => spelled c (List.mem_cons_of_mem _ hc)) (n.formula name before).2
      refine ((first.append (Layout.spells_text named _ op.separator)).append later).mono ?_
      rintro _ ⟨_, last, rfl, ⟨front, _, rfl, written, rfl⟩, tokens⟩
      rw [List.append_assoc]
      rw [Node.formulas_cons] at tokens ⊢
      cases op with
      | and => exact written.tokens.keyword .and (fun _ => rfl) tokens
      | or => exact written.tokens.keyword .or (fun _ => rfl) tokens
      | comma => exact absurd rfl h

theorem bounds?_eq_none {op : BinaryOp} (between : op ≠ .between) (notBetween : op ≠ .notBetween)
    (right : Node) : Layout.bounds? op right = none := by
  unfold Layout.bounds?
  split
  · exact absurd rfl between
  · exact absurd rfl notBetween
  · rfl

theorem expression_of_binary {frames : List Frame} {left right : Node} {op : BinaryOp}
    (h : n.kind = .binary left op right) :
    Layout.expression .postgres frames outer n =
      Layout.parenthesizedIf (op.precedence < outer)
        (Layout.operation .postgres frames left op op.sql right) := by
  rcases n with ⟨i, kind, type, annotations, diagnostics⟩
  cases h
  rw [Layout.expression]
  rfl

theorem spells_operation {left right : Node} {op : BinaryOp}
    (hl : IsSpelled named name left) (hr : IsSpelled named name right)
    (between : op ≠ .between) (notBetween : op ≠ .notBetween) (frames : List Frame) :
    Spells named before (right.formula name (left.formula name before).2).2
      (Tokenizes (Formula.tokens 0 (.linked (left.formula name before).1 (.binary op)
        (right.formula name (left.formula name before).2).1)))
      (Layout.operation .postgres frames left op op.sql right) := by
  have token : opToken op = .link (.binary op) := by
    cases op with
    | between => exact absurd rfl between
    | notBetween => exact absurd rfl notBetween
    | _ => rfl
  have above : UnaryOp.not.precedence < Layout.rightStrength op := by cases op <;> decide
  rw [Layout.operation_of_none (bounds?_eq_none between notBetween right)]
  refine (((hl frames op.precedence before).append (Layout.spells_text named _ _)).append
    (hr frames (Layout.rightStrength op) _)).mono ?_
  rintro _ ⟨_, last, rfl, ⟨front, _, rfl, first, rfl⟩, second⟩
  rw [List.append_assoc]
  have tokens := first.tokens.operator op second.tokens (begins_tokens _ _) above
  rw [token] at tokens
  exact tokens

theorem precedence_of_bounds? {op : BinaryOp} {right low high : Node}
    (h : Layout.bounds? op right = some (low, high)) :
    op.precedence = BinaryOp.between.precedence := by
  unfold Layout.bounds? at h
  split at h
  · rfl
  · rfl
  · cases h

theorem spells_between {left right low high : Node} {op : BinaryOp}
    (bounds : Layout.bounds? op right = some (low, high)) (he : IsSpelled named name left)
    (hl : IsSpelled named name low) (hh : IsSpelled named name high) (frames : List Frame) :
    let next := (left.formula name before).2
    let last := (low.formula name next).2
    Spells named before (high.formula name last).2
      (Tokenizes (Formula.tokens 0 (.between (op = .notBetween) (left.formula name before).1
        (low.formula name next).1 (high.formula name last).1)))
      (Layout.operation .postgres frames left op op.sql right) := by
  intro next last
  have token : opToken op = .between (op = .notBetween) := by
    unfold Layout.bounds? at bounds
    split at bounds
    · rfl
    · rfl
    · cases bounds
  rw [Layout.operation_of_bounds bounds, precedence_of_bounds? bounds]
  refine (((he frames _ before).append (Layout.spells_text named _ _)).append
    (((hl frames _ next).append (Layout.spells_text named _ " AND ")).append
      (hh frames _ last))).mono ?_
  rintro _ ⟨_, _, rfl, ⟨front, _, rfl, first, rfl⟩,
    ⟨_, back, rfl, ⟨middle, _, rfl, second, rfl⟩, third⟩⟩
  rw [List.append_assoc, List.append_assoc]
  -- the AND between the bounds is a token as any other; the reader tells it apart
  have range := second.tokens.keyword .and (k := .clauses .and) (fun _ => rfl) third.tokens
  have tokens := first.tokens.operator op range ((begins_tokens _ _).append _) (by decide)
  rw [token] at tokens
  exact tokens

/-- The text of a tree of columns, bound parameters and operators is that of its formula. -/
theorem spells_expression {U : UnaryOp → Prop} {B : BinaryOp → Prop} {L : ListOp → Prop}
    (hn : n.BuiltFrom U B L) (hu : ∀ op, U op → op = .neg ∨ op = .not)
    (hl : ∀ op, L op → op ≠ .comma) (names : NamedBy named name) : IsSpelled named name n := by
  -- the strength of the place stays general, as a list of one clause hands on its own
  induction hn with
  | @column n column source isLiteral kind plain =>
    intro frames outer before
    rcases n with ⟨i, k, type, annotations, diagnostics⟩
    cases kind
    rw [Layout.expression, Node.formula]
    exact spells_column names outer plain
  | @bind n p kind =>
    intro frames outer before
    rcases n with ⟨i, k, type, annotations, diagnostics⟩
    cases kind
    rw [Layout.expression, Node.formula]
    exact spells_bind outer p
  | @unary n e op kind u _ ih =>
    intro frames outer before
    rcases n with ⟨i, k, type, annotations, diagnostics⟩
    cases kind
    rw [Layout.expression, Node.formula]
    have operand := (Layout.spells_text named before (Layout.unaryMark op)).append
      (ih frames (Layout.operandStrength op) before)
    obtain rfl | rfl := hu op u
    · refine spells_enclosed (e := .negation _) rfl (Nat.le_refl _) (operand.mono ?_) outer
      rintro _ ⟨_, inner, rfl, rfl, written⟩
      exact written.negation
    · refine spells_enclosed (e := .complement _) rfl (by decide) (operand.mono ?_) outer
      rintro _ ⟨_, inner, rfl, rfl, written⟩
      exact written.complement
  | @binary n left right op kind b between notBetween _ _ ihl ihr =>
    intro frames outer before
    rw [expression_of_binary kind,
      Node.formula_of_binary kind (bounds?_eq_none between notBetween right)]
    refine spells_enclosed (e := .linked _ _ _) rfl ?_
      (spells_operation ihl ihr between notBetween frames) outer
    exact Nat.le_succ_of_le (Link.precedence_le (.binary op))
  | @between n left right low high op kind b bounds _ _ _ ihe ihl ihh =>
    intro frames outer before
    rw [expression_of_binary kind, Node.formula_of_bounds kind bounds, precedence_of_bounds? bounds]
    exact spells_enclosed (e := .between _ _ _ _) rfl (by decide)
      (spells_between bounds ihe ihl ihh frames) outer
  | @clauses n op clauses kind l some _ ih =>
    intro frames outer before
    have chain := spells_chain (hl op l) some ih frames before
    rcases clauses with _ | ⟨first, _ | ⟨second, rest⟩⟩
    · exact absurd rfl some
    · rw [Node.formula_of_clauses kind, Node.formulas_nil]
      rcases n with ⟨i, k, type, annotations, diagnostics⟩
      cases kind
      rw [Layout.expression.eq_def]
      exact ih first List.mem_cons_self frames outer before
    · rw [Node.formula_of_clauses kind, Node.formulas_cons]
      rw [Node.formulas_cons, Node.formulas_cons] at chain
      rcases n with ⟨i, k, type, annotations, diagnostics⟩
      cases kind
      rw [Layout.expression.eq_def]
      refine spells_enclosed (strength?_foldl (.clauses op) _ _ _) (by cases op <;> decide)
        (chain.mono fun cs tokens => ?_) outer
      rw [← tokens_foldl rfl, Formula.tokens_of_le (strength?_foldl (.clauses op) _ _ _)
        (Nat.le_refl _)] at tokens
      exact tokens

end Reading

end SqlAlgebra
