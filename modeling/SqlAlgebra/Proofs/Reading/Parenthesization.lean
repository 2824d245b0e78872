import SqlAlgebra.Proofs.Cache.Consistency
import SqlAlgebra.Proofs.Reading.Text

/-!
# Parentheses in the text of an expression

What PostgreSQL gets for an expression of columns, bound parameters and operators is read back, with
operators of one level from left to right, as the expression regrouped to the left.  For predicates
nothing is lost by that, as the only chains without parentheses are those of AND and of OR.  Among
the arithmetic operators of one level there are several, and there a right operand lost parentheses
that matter exactly if an associative operator has another one of its level beside it on the right.
-/

namespace SqlAlgebra

open List (Forall₂)
open Node Reading

/-! ## Names that are made for an expression -/

theorem isRequired_numbered_anon (k : Nat) :
    Quoting.isRequired Quoting.reservedWords (Namer.numbered "anon" k) = false := by
  have digits : ∀ c ∈ Nat.toDigits 10 k, c.isDigit = true :=
    fun c hc => Nat.isDigit_of_mem_toDigits (by decide) (by decide) hc
  have chars : (Namer.numbered "anon" k).toList = 'a' :: ("non_".toList ++ Nat.toDigits 10 k) := by
    rw [Namer.numbered, String.toList_append, String.toList_append, ← Nat.toList_repr]
    rfl
  have parts : ("non_".toList ++ Nat.toDigits 10 k).all Quoting.isWordPart = true := by
    rw [List.all_append, Bool.and_eq_true]
    refine ⟨by decide, List.all_eq_true.2 fun c hc => ?_⟩
    rw [Quoting.isWordPart, digits c hc, Bool.or_true]
  -- no reserved word has a digit in it
  have free : Quoting.reservedWords.contains (Namer.numbered "anon" k) = false := by
    rw [List.contains_eq_mem, decide_eq_false_iff_not]
    intro mem
    have plain : Quoting.reservedWords.all fun word => word.toList.all fun c => !c.isDigit := by
      decide +kernel
    obtain ⟨c, rest, eq⟩ := List.exists_cons_of_ne_nil (Nat.toDigits_ne_nil (b := 10) (n := k))
    have c_mem : c ∈ Nat.toDigits 10 k := eq ▸ List.mem_cons_self
    have here : c ∈ (Namer.numbered "anon" k).toList := by
      rw [chars]
      exact List.mem_cons_of_mem _ (List.mem_append_right _ c_mem)
    have other := List.all_eq_true.1 (List.all_eq_true.1 plain _ mem) c here
    rw [digits c c_mem] at other
    cases other
  unfold Quoting.isRequired
  rw [chars]
  dsimp only
  rw [parts, free]
  rfl

/-- Whether a namer has numbered all nodes of a tree alike that are left to be named. -/
def Namer.Numbers (n : Node) (namer : Namer) : Prop :=
  ∀ a, Occurs a n → a.isNameless = true → ∀ s, namer.Gave a s → ∃ k, s = Namer.numbered "anon" k

theorem Namer.Numbers.assign {n a : Node} {namer : Namer} (h : namer.Numbers n)
    (coherent : n.IsCoherent) (ha : Occurs a n) {stem : String}
    (hs : a.isNameless = true → stem = "anon") : (namer.assign a.id stem).2.Numbers n := by
  unfold Namer.assign
  cases known : namer.assigned.lookup a.id with
  | some name => exact h
  | none =>
    intro b hb nameless s given
    rw [Namer.Gave, List.lookup_cons] at given
    split at given
    · next same =>
      cases given
      obtain rfl : b = a := coherent b a hb ha (eq_of_beq same)
      exact ⟨_, congrArg (Namer.numbered · _) (hs nameless)⟩
    · exact h b hb nameless s given

/-- The names for the pieces of a tree, where those that are made up for FROM elements and labels
are numbered. -/
theorem Node.exists_numbered_naming {n : Node} {pieces : List Piece} (coherent : n.IsCoherent)
    (d : Dialect) (bound : Nat) (of : ∀ piece ∈ pieces, piece.IsOf n) :
    ∃ named, n.Naming named ∧
      (∀ ⦃a s⦄, a.isNameless = true → named a s → ∃ k, s = Namer.numbered "anon" k) ∧
      Forall₂ (Piece.Written d false named) pieces
        (Part.ofPieces d pieces (.start (n.surveyed bound).identifiers)) := by
  obtain ⟨later, numbers, sound, continues, written⟩ :=
    Template.written_ofPieces_of (I := Namer.Numbers n) d pieces
      (Namer.sound_start (n.surveyed bound).identifiers) (fun _ _ _ _ given => by cases given)
      (fun a mem namer h => h.assign coherent (of _ mem).2 fun _ => rfl) (by
        intro a p mem namer h
        obtain ⟨kind, occurs⟩ := of _ mem
        have named : a.isNameless = true → False := by
          rw [Node.isNameless, kind]
          exact Bool.false_ne_true
        unfold Namer.param
        split
        · split
          · exact h.assign coherent occurs fun nameless => (named nameless).elim
          · exact h
        · exact h.assign coherent occurs fun nameless => (named nameless).elim)
  refine ⟨later.Passes n.Same, sound.naming (simulation_same n).correspondence ⟨rfl, .root⟩
    (fun same => same.1 ▸ same.2) coherent continues.taken, ?_, Piece.written_within written of⟩
  rintro a s nameless ⟨_, ⟨rfl, occurs⟩, -, given⟩
  exact numbers _ occurs nameless s given

/-! ## Compiling on a new compiler -/

theorem Template.exists_settled (d : Dialect) {survey : Survey} {pieces : List Piece}
    (slots : ∀ n p, .bind n p ∈ pieces → ∃ slot, survey.slot? n = some slot) (namer : Namer)
    (reversed : List Segment) :
    ∃ settled, settle d survey false pieces namer reversed = .ok settled := by
  induction pieces generalizing namer reversed with
  | nil => exact ⟨reversed, rfl⟩
  | cons piece rest ih =>
    have later := ih fun n p mem => slots n p (List.mem_cons_of_mem _ mem)
    cases piece with
    | text sql => exact later _ _
    | anonymous n => exact later _ _
    | bind n p =>
      obtain ⟨slot, found⟩ := slots n p List.mem_cons_self
      rw [settle, if_neg Bool.false_ne_true, found]
      exact later _ _

/-- A coherent tree whose layout does not fail has a template. -/
theorem Node.exists_template {n : Node} (coherent : n.IsCoherent) {d : Dialect} (bound : Nat)
    (h : (Layout.statement d [] n).fault = none) :
    ∃ t, n.template d (n.surveyed bound) false = .ok t := by
  have slots (a : Node) (p : BindParam) (mem : .bind a p ∈ (Layout.statement d [] n).pieces) :
      ∃ slot, (n.surveyed bound).slot? a = some slot :=
    exists_slot coherent (occurs_of_mem_pieces mem).2 (occurs_of_mem_pieces mem).1
  obtain ⟨settled, eq⟩ :=
    Template.exists_settled d slots (.start (n.surveyed bound).identifiers) []
  refine ⟨⟨settled.reverse⟩, ?_⟩
  rw [Node.template, Template.ofLayout, eq, h]

namespace Compiler

variable {config : CompilerConfig} {r : Request} {n : Node} {diagnostics : List Diagnostic}
  {next : Identity}

/-- A new compiler finds nothing in its cache. -/
theorem template_new (n : Node) (d : Dialect) (survey : Survey) (inline : Bool) :
    ((Compiler.new config).counted.template n d survey inline).1 =
      (n.template d survey inline).map (·, false) := by
  cases plain : inline || !config.caching with
  | true => exact (template_of_uncached n d survey inline plain).1
  | false =>
    obtain ⟨rfl, caching⟩ := Bool.or_eq_false_iff.1 plain
    cases key : survey.buffer.key? with
    | none => exact (template_of_none n d false key).1
    | some key' => exact (template_of_miss key ((Bool.not_eq_false' _).mp caching) rfl).1

/-- What a new compiler answers to a request whose layout does not fail is made of the parts of its
tree. -/
theorem exists_compiled (hr : r.Formed) (placeholders : r.options.literalBinds = false)
    (resolved : r.tree.resolved r.factories r.options.scope r.next = .ok ((n, diagnostics), next))
    (names : (n.surveyed config.keyBound).checkBindNames = .ok ())
    (h : (Layout.statement r.dialect [] n).fault = none) :
    ∃ compiled, ((Compiler.new config).compile r.factories r.tree r.dialect r.options r.next).1 =
        .ok (compiled, next) ∧
      Statement.MadeOf ⟨compiled.sql, compiled.params⟩ r.dialect
        (n.parts r.dialect config.keyBound) := by
  have coherent : n.IsCoherent := hr.isCoherent_of_resolved resolved
  obtain ⟨t, rendered⟩ := exists_template coherent config.keyBound h
  obtain ⟨-, s, assembled, made⟩ := exists_fills_same (d := r.dialect) coherent rendered
  have template : ((Compiler.new config).counted.template n r.dialect
      (n.surveyed config.keyBound) r.options.literalBinds).1 = .ok (t, false) := by
    rw [template_new, placeholders, rendered]
    rfl
  exact ⟨_, compile_of_template (c := .new config) resolved names template assembled, made⟩

end Compiler

/-! ## Reading a compiled expression -/

/-- Whether a function gives the names that are made up for the nodes in the text of a tree. -/
def Node.Synthesizes (n : Node) (d : Dialect) (name : Node → String) : Prop :=
  ∃ named, n.Naming named ∧ (∀ ⦃a s⦄, named a s → name a = s) ∧
    ∀ a, .anonymous a ∈ (Layout.statement d [] n).pieces → named a (name a)

section

variable {U : UnaryOp → Prop} {B : BinaryOp → Prop} {L : ListOp → Prop} {config : CompilerConfig}
  {r : Request} {n : Node} {diagnostics : List Diagnostic} {next : Identity}

theorem statement_of_builtFrom (h : n.BuiltFrom U B L) :
    Layout.statement .postgres [] n = Layout.expression .postgres [] 0 n := by
  rcases n with ⟨i, kind, type, annotations, diagnostics⟩
  cases h with
  | column kind | bind kind | unary kind | binary kind | between kind | clauses kind =>
    cases kind
    rw [Layout.statement]
    rfl

/-- What a new compiler makes of an expression is read back as its formula with every chain grouped
to the left, and has its values in the order of the formula. -/
theorem Compiler.read_of_builtFrom (hr : r.Formed) (postgres : r.dialect = .postgres)
    (placeholders : r.options.literalBinds = false)
    (resolved : r.tree.resolved r.factories r.options.scope r.next = .ok ((n, diagnostics), next))
    (names : (n.surveyed config.keyBound).checkBindNames = .ok ()) (built : n.BuiltFrom U B L)
    (hu : ∀ op, U op → op = .neg ∨ op = .not) (hl : ∀ op, L op → op ≠ .comma) :
    ∃ compiled name, ((Compiler.new config).compile r.factories r.tree r.dialect r.options
        r.next).1 = .ok (compiled, next) ∧
      n.Synthesizes .postgres name ∧
      compiled.params.values = (n.formula name []).2 ∧
      Reading.read compiled.sql = some (n.formula name []).1.regroup := by
  have coherent : n.IsCoherent := hr.isCoherent_of_resolved resolved
  obtain ⟨named, naming, numbered, written⟩ := exists_numbered_naming coherent .postgres
    config.keyBound fun _ => isOf_of_mem_pieces
  classical
  obtain ⟨name, same⟩ : ∃ name : Node → String, ∀ ⦃a s⦄, named a s → name a = s := by
    refine ⟨fun a => if h : ∃ s, named a s then h.choose else "", fun a s given => ?_⟩
    have some : ∃ s, named a s := ⟨s, given⟩
    exact (dif_pos some).trans (naming.one some.choose_spec given)
  have plain ⦃a : Node⦄ ⦃s : String⦄ (nameless : a.isNameless = true) (given : named a s) :
      Quoting.isRequired Quoting.reservedWords s = false := by
    obtain ⟨k, rfl⟩ := numbered nameless given
    exact isRequired_numbered_anon k
  have spells := spells_expression built hu hl ⟨same, plain⟩ [] 0 []
  rw [← statement_of_builtFrom built] at spells
  obtain ⟨compiled, answer, made⟩ :=
    exists_compiled hr placeholders resolved names (postgres.symm ▸ spells.fault)
  rw [postgres] at made
  obtain ⟨values, writes⟩ := spells.text (n.parts .postgres config.keyBound) written
  refine ⟨compiled, name, answer, ⟨named, naming, same, fun a mem => ?_⟩,
    made.values.trans values, ?_⟩
  · obtain ⟨i, hi⟩ := List.getElem?_of_mem mem
    obtain ⟨part, -, first⟩ := exists_getElem? written hi
    cases first with
    | anonymous given => rwa [same given]
  · have text : compiled.sql.toList = Part.textAfter 0 (n.parts .postgres config.keyBound) := by
      rw [Part.textAfter, ← made.params]
      exact congrArg String.toList made.sql
    have last : Stops [] := fun _ h => by cases h
    have tokens := writes.tokens last tokens?_nil (by simp)
    rw [List.append_nil, List.append_nil] at tokens
    rw [Reading.read, text]
    exact (congrArg (Option.bind · readTokens) tokens).trans (Formula.readTokens_tokens _)

/-! ## Arithmetic -/

/-- The arithmetic operators, with the concatenation of strings. -/
def BinaryOp.arithmetic : List BinaryOp := [.add, .sub, .mul, .div, .mod, .concat, .bitAnd, .bitOr]

/-- Whether a tree is built from columns and bound parameters with arithmetic operators and minus
signs. -/
def Node.IsArithmetic (n : Node) : Prop :=
  n.BuiltFrom (· = .neg) (· ∈ BinaryOp.arithmetic) fun _ => False

/-- The text of an arithmetic expression is read back, and what is read is the expression up to
re-association of single associative operators exactly if no associative operator has another
operator of its level beside it on the right. -/
theorem Compiler.reassociates_read_iff_of_arithmetic (hr : r.Formed)
    (postgres : r.dialect = .postgres) (placeholders : r.options.literalBinds = false)
    (resolved : r.tree.resolved r.factories r.options.scope r.next = .ok ((n, diagnostics), next))
    (names : (n.surveyed config.keyBound).checkBindNames = .ok ())
    (arithmetic : n.IsArithmetic) :
    ∃ compiled name e, ((Compiler.new config).compile r.factories r.tree r.dialect r.options
        r.next).1 = .ok (compiled, next) ∧
      n.Synthesizes .postgres name ∧
      compiled.params.values = (n.formula name []).2 ∧
      Reading.read compiled.sql = some e ∧
      (e.Reassociates (n.formula name []).1 ↔ (n.formula name []).1.Unmixed) := by
  obtain ⟨compiled, name, answer, synthesizes, values, read⟩ :=
    read_of_builtFrom hr postgres placeholders resolved names arithmetic (fun _ neg => .inl neg)
      fun _ none => none.elim
  exact ⟨compiled, name, _, answer, synthesizes, values, read,
    Formula.reassociates_regroup_iff _⟩

section Sample

/-- A column of the table `t`. -/
def sampleOperand (i : Identity) (column : String) : Node :=
  ⟨i, .column column (some (sampleTable 0)) false, .integer, [], []⟩

def sampleNegation : Node := ⟨4, .unary .neg (sampleOperand 1 "a"), .integer, [], []⟩

def sampleSum : Node := ⟨5, .binary (sampleOperand 2 "b") .add (sampleParam 1 7), .integer, [], []⟩

def sampleProduct : Node := ⟨6, .binary sampleNegation .mul sampleSum, .integer, [], []⟩

def sampleQuotient : Node :=
  ⟨4, .binary (sampleOperand 2 "b") .div (sampleOperand 3 "c"), .integer, [], []⟩

/-- The product of a column and a quotient. -/
def sampleProductOfQuotient : Node :=
  ⟨5, .binary (sampleOperand 1 "a") .mul sampleQuotient, .integer, [], []⟩

def sampleMixed : Formula :=
  .linked (.operand (.column ["t", "a"])) (.binary .mul)
    (.linked (.operand (.column ["t", "b"])) (.binary .div) (.operand (.column ["t", "c"])))

theorem formed_sampleProduct : (Request.sample sampleProduct).Formed := by
  refine ⟨(· ∈ [sampleTable 0, sampleOperand 1 "a", sampleOperand 2 "b", sampleParam 1 7,
    sampleNegation, sampleSum, sampleProduct]), Heap.valid_of_list ?_ ?_ ?_, ?_,
    fun _ => .pure nofun⟩
  · simp [children, Kind.children, sampleTable, sampleOperand, sampleParam, sampleNegation,
      sampleSum, sampleProduct]
  · simp [sampleTable, sampleOperand, sampleParam, sampleNegation, sampleSum, sampleProduct]
  · simp [Request.sample, sampleTable, sampleOperand, sampleParam, sampleNegation, sampleSum,
      sampleProduct]
  · simp [Request.sample]

theorem formed_sampleProductOfQuotient : (Request.sample sampleProductOfQuotient).Formed := by
  refine ⟨(· ∈ [sampleTable 0, sampleOperand 1 "a", sampleOperand 2 "b", sampleOperand 3 "c",
    sampleQuotient, sampleProductOfQuotient]), Heap.valid_of_list ?_ ?_ ?_, ?_,
    fun _ => .pure nofun⟩
  · simp [children, Kind.children, sampleTable, sampleOperand, sampleQuotient,
      sampleProductOfQuotient]
  · simp [sampleTable, sampleOperand, sampleQuotient, sampleProductOfQuotient]
  · simp [Request.sample, sampleTable, sampleOperand, sampleQuotient, sampleProductOfQuotient]
  · simp [Request.sample]

theorem isArithmetic_sampleOperand (i : Identity) (column : String) :
    (sampleOperand i column).IsArithmetic := .column rfl nofun

theorem isArithmetic_sampleProduct : sampleProduct.IsArithmetic :=
  .binary rfl (by decide) nofun nofun (.unary rfl rfl (isArithmetic_sampleOperand 1 "a"))
    (.binary rfl (by decide) nofun nofun (isArithmetic_sampleOperand 2 "b") (.bind rfl))

theorem isArithmetic_sampleProductOfQuotient : sampleProductOfQuotient.IsArithmetic :=
  .binary rfl (by decide) nofun nofun (isArithmetic_sampleOperand 1 "a")
    (.binary rfl (by decide) nofun nofun (isArithmetic_sampleOperand 2 "b")
      (isArithmetic_sampleOperand 3 "c"))

end Sample

theorem Compiler.reassociates_read_sampleProduct :
    (Request.sample sampleProduct).Formed ∧ sampleProduct.IsArithmetic ∧
      ∃ compiled name e, ((Compiler.new {}).compile (Request.sample sampleProduct).factories
          sampleProduct .postgres {} 9).1 = .ok (compiled, 9) ∧
        sampleProduct.Synthesizes .postgres name ∧
        compiled.params.values = (sampleProduct.formula name []).2 ∧
        Reading.read compiled.sql = some e ∧
        (e.Reassociates (sampleProduct.formula name []).1 ↔
          (sampleProduct.formula name []).1.Unmixed) := by
  have plain : sampleProduct.containsDeferred = false := by decide +kernel
  have resolved : sampleProduct.resolved (Request.sample sampleProduct).factories .empty 9 =
      .ok ((sampleProduct, []), 9) := by
    rw [Node.resolved, plain]
    rfl
  exact ⟨formed_sampleProduct, isArithmetic_sampleProduct,
    @reassociates_read_iff_of_arithmetic {} (.sample sampleProduct) sampleProduct [] 9
      formed_sampleProduct rfl rfl resolved (by decide +kernel) isArithmetic_sampleProduct⟩

/-- The parentheses around a quotient are lost on the right of a product, and the quotient with
them. -/
theorem Compiler.not_reassociates_read_sampleProductOfQuotient :
    (Request.sample sampleProductOfQuotient).Formed ∧ sampleProductOfQuotient.IsArithmetic ∧
      ∃ compiled e, ((Compiler.new {}).compile (Request.sample sampleProductOfQuotient).factories
          sampleProductOfQuotient .postgres {} 9).1 = .ok (compiled, 9) ∧
        compiled.sql = "t.a * t.b / t.c" ∧ Reading.read compiled.sql = some e ∧
        ∀ name, ¬e.Reassociates (sampleProductOfQuotient.formula name []).1 := by
  have run : ((Compiler.new {}).compile (Request.sample sampleProductOfQuotient).factories
      sampleProductOfQuotient .postgres {} 9).1.toOption.map (fun out => (out.1.sql, out.2)) =
      some ("t.a * t.b / t.c", 9) := by
    decide +kernel
  obtain ⟨⟨compiled, next⟩, out, shown⟩ := Build.exists_of_toOption run
  obtain ⟨sql, rfl⟩ := Prod.mk.inj shown
  have formula (name : Node → String) :
      (sampleProductOfQuotient.formula name []).1 = sampleMixed := by
    simp [sampleProductOfQuotient, sampleQuotient, sampleOperand, sampleTable, Node.formula,
      Layout.bounds?, columnPath, sourcePath, sampleMixed]
  refine ⟨formed_sampleProductOfQuotient, isArithmetic_sampleProductOfQuotient, compiled,
    sampleMixed.regroup, out, sql, ?_, fun name same => ?_⟩
  · rw [sql]
    decide +kernel
  · rw [formula] at same
    obtain ⟨-, -, plain⟩ := (Formula.reassociates_regroup_iff _).1 same
    cases plain rfl (.binary .div) List.mem_cons_self

/-! ## Predicates -/

/-- Whether a tree is built from columns and bound parameters with comparisons, NOT, AND and OR. -/
def Node.IsPredicate (n : Node) : Prop :=
  n.BuiltFrom (· = .not) (fun op => op.isComparison = true) (· ≠ .comma)

namespace Reading.Formula

/-- All links of a formula. -/
def links : Formula → List Link
  | .operand _ => []
  | .negation e | .complement e => e.links
  | .linked l k r => k :: (l.links ++ r.links)
  | .between _ e low high => e.links ++ (low.links ++ high.links)

theorem of_mem_chain {p : Nat} {e : Formula} {k : Link} (h : k ∈ e.chain p) :
    k ∈ e.links ∧ k.precedence = p := by
  induction e with
  | linked l k' r ihl ihr =>
    rw [chain] at h
    split at h
    · next level =>
      obtain left | rfl | right : k ∈ chain p l ∨ k = k' ∨
          k ∈ if k'.isAssociative then chain p r else [] := by
        simpa only [List.mem_append, List.mem_cons] using h
      · exact ⟨List.mem_cons_of_mem _ (List.mem_append_left _ (ihl left).1), (ihl left).2⟩
      · exact ⟨List.mem_cons_self, level⟩
      · split at right
        · exact ⟨List.mem_cons_of_mem _ (List.mem_append_right _ (ihr right).1), (ihr right).2⟩
        · cases right
    · cases h
  | _ => cases h

/-- Where an associative link shares its level with no other link, chains are of one link. -/
theorem unmixed_of_links {e : Formula}
    (h : ∀ k ∈ e.links, k.isAssociative = true → ∀ k' ∈ e.links, k'.precedence = k.precedence →
      k' = k) : e.Unmixed := by
  induction e with
  | operand o => trivial
  | negation e ih => exact ih h
  | complement e ih => exact ih h
  | linked l k r ihl ihr =>
    have left {k' : Link} (mem : k' ∈ l.links) : k' ∈ (linked l k r).links :=
      List.mem_cons_of_mem _ (List.mem_append_left _ mem)
    have right {k' : Link} (mem : k' ∈ r.links) : k' ∈ (linked l k r).links :=
      List.mem_cons_of_mem _ (List.mem_append_right _ mem)
    refine ⟨ihl fun k hk assoc k' hk' => h k (left hk) assoc k' (left hk'),
      ihr fun k hk assoc k' hk' => h k (right hk) assoc k' (right hk'), fun assoc k' mem => ?_⟩
    obtain ⟨mem, level⟩ := of_mem_chain mem
    exact h k List.mem_cons_self assoc k' (right mem) level
  | between isNegated e low high ihe ihl ihh =>
    have first {k : Link} (mem : k ∈ e.links) : k ∈ (between isNegated e low high).links :=
      List.mem_append_left _ mem
    have second {k : Link} (mem : k ∈ low.links) : k ∈ (between isNegated e low high).links :=
      List.mem_append_right _ (List.mem_append_left _ mem)
    have third {k : Link} (mem : k ∈ high.links) : k ∈ (between isNegated e low high).links :=
      List.mem_append_right _ (List.mem_append_right _ mem)
    exact ⟨ihe fun k hk assoc k' hk' => h k (first hk) assoc k' (first hk'),
      ihl fun k hk assoc k' hk' => h k (second hk) assoc k' (second hk'),
      ihh fun k hk assoc k' hk' => h k (third hk) assoc k' (third hk')⟩

end Reading.Formula

/-- Whether a link is one of the operators or lists that a tree is built with. -/
def Reading.Link.IsOf (B : BinaryOp → Prop) (L : ListOp → Prop) : Link → Prop
  | .binary op => B op
  | .clauses op => L op

theorem Reading.Formula.links_foldl {k : Link} {e : Formula} {es : List Formula} (hk : k.IsOf B L)
    (he : ∀ k ∈ e.links, k.IsOf B L) (hes : ∀ e ∈ es, ∀ k ∈ e.links, k.IsOf B L) :
    ∀ k' ∈ (es.foldl (fun left e => .linked left k e) e).links, k'.IsOf B L := by
  induction es generalizing e with
  | nil => exact he
  | cons e' es ih =>
    refine ih (fun k' mem => ?_) fun e mem => hes e (List.mem_cons_of_mem _ mem)
    obtain rfl | left | right : _ ∨ _ ∨ _ := by
      simpa only [Formula.links, List.mem_cons, List.mem_append] using mem
    · exact hk
    · exact he k' left
    · exact hes e' List.mem_cons_self k' right

theorem Node.links_formulas {name : Node → String} {ns : List Node}
    (h : ∀ c ∈ ns, ∀ before, ∀ k ∈ (c.formula name before).1.links, k.IsOf B L)
    (before : List Value) : ∀ e ∈ (formulas name ns before).1, ∀ k ∈ e.links, k.IsOf B L := by
  induction ns generalizing before with
  | nil =>
    rw [formulas_nil]
    intro e mem
    cases mem
  | cons n rest ih =>
    rw [formulas_cons]
    intro e mem
    obtain rfl | later := List.mem_cons.1 mem
    · exact h n List.mem_cons_self before
    · exact ih (fun c hc => h c (List.mem_cons_of_mem _ hc)) _ e later

/-- The links of a formula are the operators and lists that its tree is built with. -/
theorem links_formula (built : n.BuiltFrom U B L) (name : Node → String) (before : List Value) :
    ∀ k ∈ (n.formula name before).1.links, k.IsOf B L := by
  induction built generalizing before with
  | @column n _ _ _ kind | @bind n _ kind =>
    rcases n with ⟨i, kind', type, annotations, diagnostics⟩
    cases kind
    rw [Node.formula]
    intro k mem
    cases mem
  | @unary n e op kind _ _ ih =>
    rcases n with ⟨i, kind', type, annotations, diagnostics⟩
    cases kind
    rw [Node.formula]
    show ∀ k ∈ (if op = .not then Formula.complement (e.formula name before).1
      else Formula.negation (e.formula name before).1).links, k.IsOf B L
    split
    · exact ih before
    · exact ih before
  | binary kind b between notBetween _ _ ihl ihr =>
    rw [Node.formula_of_binary kind (bounds?_eq_none between notBetween _)]
    intro k mem
    obtain rfl | left | right : _ ∨ _ ∨ _ := by
      simpa only [Formula.links, List.mem_cons, List.mem_append] using mem
    · exact b
    · exact ihl before k left
    · exact ihr _ k right
  | between kind _ bounds _ _ _ ihe ihl ihh =>
    rw [Node.formula_of_bounds kind bounds]
    intro k mem
    obtain first | second | third : _ ∨ _ ∨ _ := by
      simpa only [Formula.links, List.mem_append] using mem
    · exact ihe before k first
    · exact ihl _ k second
    · exact ihh _ k third
  | @clauses n op clauses kind l some _ ih =>
    cases clauses with
    | nil => exact absurd rfl some
    | cons first rest =>
      rw [Node.formula_of_clauses kind]
      refine Formula.links_foldl l (ih first List.mem_cons_self before) ?_
      exact Node.links_formulas (fun c hc => ih c (List.mem_cons_of_mem _ hc)) _

/-- A predicate is read back from its text, up to the nesting of AND in AND and of OR in OR. -/
theorem Compiler.reassociates_read_of_predicate (hr : r.Formed)
    (postgres : r.dialect = .postgres) (placeholders : r.options.literalBinds = false)
    (resolved : r.tree.resolved r.factories r.options.scope r.next = .ok ((n, diagnostics), next))
    (names : (n.surveyed config.keyBound).checkBindNames = .ok ())
    (predicate : n.IsPredicate) :
    ∃ compiled name e, ((Compiler.new config).compile r.factories r.tree r.dialect r.options
        r.next).1 = .ok (compiled, next) ∧
      n.Synthesizes .postgres name ∧
      compiled.params.values = (n.formula name []).2 ∧
      Reading.read compiled.sql = some e ∧ e.Reassociates (n.formula name []).1 := by
  obtain ⟨compiled, name, answer, synthesizes, values, read⟩ :=
    read_of_builtFrom hr postgres placeholders resolved names predicate (fun _ not => .inr not)
      fun _ other => other
  refine ⟨compiled, name, _, answer, synthesizes, values, read, ?_⟩
  refine Formula.Unmixed.reassociates (Formula.unmixed_of_links fun k hk assoc k' hk' level => ?_)
  have of := links_formula predicate name [] k hk
  have of' := links_formula predicate name [] k' hk'
  -- a comparison is not associative, and AND and OR have levels of their own
  cases k with
  | binary op => exact absurd (eq_of_beq of) (Link.precedence_ne_of_isAssociative assoc)
  | clauses op =>
    cases k' with
    | binary op' =>
      have comparison : op'.precedence = 5 := eq_of_beq of'
      have same : op'.precedence = op.precedence := level
      rw [comparison] at same
      cases op <;> cases same
    | clauses op' => cases op <;> cases op' <;> first | rfl | cases level

section Sample

def sampleBounds : Node :=
  ⟨4, .clauseList .and [sampleOperand 2 "b", sampleParam 1 7], .null, [], []⟩

def sampleBetween : Node :=
  ⟨5, .binary (sampleOperand 1 "a") .between sampleBounds, .boolean, [], []⟩

def sampleAlternative : Node :=
  ⟨6, .clauseList .or [sampleBetween, sampleOperand 1 "a"], .boolean, [], []⟩

def sampleNot : Node := ⟨7, .unary .not sampleAlternative, .boolean, [], []⟩

/-- `NOT (a BETWEEN b AND $1 OR a) AND a`. -/
def samplePredicate : Node :=
  ⟨8, .clauseList .and [sampleNot, sampleOperand 1 "a"], .boolean, [], []⟩

theorem formed_samplePredicate : (Request.sample samplePredicate).Formed := by
  refine ⟨(· ∈ [sampleTable 0, sampleOperand 1 "a", sampleOperand 2 "b", sampleParam 1 7,
    sampleBounds, sampleBetween, sampleAlternative, sampleNot, samplePredicate]),
    Heap.valid_of_list ?_ ?_ ?_, ?_, fun _ => .pure nofun⟩
  · simp [children, Kind.children, sampleTable, sampleOperand, sampleParam, sampleBounds,
      sampleBetween, sampleAlternative, sampleNot, samplePredicate]
  · simp [sampleTable, sampleOperand, sampleParam, sampleBounds, sampleBetween, sampleAlternative,
      sampleNot, samplePredicate]
  · simp [Request.sample, sampleTable, sampleOperand, sampleParam, sampleBounds, sampleBetween,
      sampleAlternative, sampleNot, samplePredicate]
  · simp [Request.sample]

theorem isPredicate_samplePredicate : samplePredicate.IsPredicate := by
  have column (i : Identity) (column : String) : (sampleOperand i column).IsPredicate :=
    .column rfl nofun
  have range : sampleBetween.IsPredicate :=
    .between rfl rfl rfl (column 1 "a") (column 2 "b") (.bind rfl)
  have either : sampleAlternative.IsPredicate := by
    refine .clauses rfl nofun nofun fun c hc => ?_
    obtain rfl | rfl : c = sampleBetween ∨ c = sampleOperand 1 "a" := by simpa using hc
    · exact range
    · exact column 1 "a"
  refine .clauses rfl nofun nofun fun c hc => ?_
  obtain rfl | rfl : c = sampleNot ∨ c = sampleOperand 1 "a" := by simpa using hc
  · exact .unary rfl rfl either
  · exact column 1 "a"

end Sample

theorem Compiler.reassociates_read_samplePredicate :
    (Request.sample samplePredicate).Formed ∧ samplePredicate.IsPredicate ∧
      ∃ compiled name e, ((Compiler.new {}).compile (Request.sample samplePredicate).factories
          samplePredicate .postgres {} 9).1 = .ok (compiled, 9) ∧
        samplePredicate.Synthesizes .postgres name ∧
        compiled.params.values = (samplePredicate.formula name []).2 ∧
        Reading.read compiled.sql = some e ∧
        e.Reassociates (samplePredicate.formula name []).1 := by
  have plain : samplePredicate.containsDeferred = false := by decide +kernel
  have resolved : samplePredicate.resolved (Request.sample samplePredicate).factories .empty 9 =
      .ok ((samplePredicate, []), 9) := by
    rw [Node.resolved, plain]
    rfl
  exact ⟨formed_samplePredicate, isPredicate_samplePredicate,
    @reassociates_read_of_predicate {} (.sample samplePredicate) samplePredicate [] 9
      formed_samplePredicate rfl rfl resolved (by decide +kernel) isPredicate_samplePredicate⟩

end

end SqlAlgebra
