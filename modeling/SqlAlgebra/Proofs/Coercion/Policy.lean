import SqlAlgebra.Proofs.Coercion.Acceptance
import SqlAlgebra.Proofs.Coercion.Growth

/-!
# What the policies have in common

A conversion that the caller did not spell out is reported, refused or passed over, as the policy
says.  The policy decides nothing else.  A coercion reports once at most, and what is left to do
after that cannot fail, so the coercion that refuses fails exactly where the one that reports has a
report to show, and the coercion that passes conversions over gives what the one that reports gives.

A step is looked at under all policies at once.  `Agrees` tells the three ways in which it can end,
and the rules below say how sequences of steps end if each of them agrees.
-/

namespace SqlAlgebra

namespace Coerce

variable {α β : Type} {x : Coerce α} {f : α → Coerce β} {i i' : Identity} {a : α}

/-- Whether a step gives a result and reports nothing. -/
def Gives (x : Coerce α) (i : Identity) (a : α) (i' : Identity) : Prop :=
  ∀ ds, x ds i = .ok ((a, ds), i')

/-- Whether a step fails, whatever was reported before. -/
def Fails (x : Coerce α) (i : Identity) (e : Error) : Prop := ∀ ds, x ds i = .error e

/-! ## Steps that report nothing -/

/-- Whether a step neither reports anything nor looks at what was reported, where `Q` holds of what
it gives. -/
def Steady (x : Coerce α) (Q : α → Prop) : Prop :=
  ∀ i, (∃ e, Fails x i e) ∨ ∃ a i', Gives x i a i' ∧ Q a

/-- Whether a step gives a result in any case, and reports nothing. -/
def Sure (x : Coerce α) (Q : α → Prop) : Prop := ∀ i, ∃ a i', Gives x i a i' ∧ Q a

variable {P Q : α → Prop} {R S : β → Prop}

namespace Steady

theorem pure (h : Q a) : Steady (pure a : Coerce α) Q := fun i => .inr ⟨a, i, fun _ => rfl, h⟩

theorem throw (e : Error) : Steady (throw e : Coerce α) Q := fun _ => .inl ⟨e, fun _ => rfl⟩

theorem lift {x : Build α} (h : ∀ i a i', x i = .ok (a, i') → Q a) :
    Steady (liftM x : Coerce α) Q := by
  intro i
  cases run : x i with
  | error e =>
    refine .inl ⟨e, fun ds => ?_⟩
    show (x i >>= fun p => _) = _
    rw [run]
    rfl
  | ok p =>
    refine .inr ⟨p.1, p.2, fun ds => ?_, h i p.1 p.2 run⟩
    show (x i >>= fun p => _) = _
    rw [run]
    rfl

theorem bind (hx : Steady x Q) (hf : ∀ a, Q a → Steady (f a) R) : Steady (x >>= f) R := by
  intro i
  obtain ⟨e, fails⟩ | ⟨a, i₁, gives, ha⟩ := hx i
  · exact .inl ⟨e, fun ds => Build.bind_run_error_over (fails ds)⟩
  · have run (ds : List Diagnostic) : (x >>= f) ds i = f a ds i₁ := Build.bind_run_over (gives ds)
    obtain ⟨e, fails⟩ | ⟨b, i₂, gives', hb⟩ := hf a ha i₁
    · exact .inl ⟨e, fun ds => (run ds).trans (fails ds)⟩
    · exact .inr ⟨b, i₂, fun ds => (run ds).trans (gives' ds), hb⟩

theorem map (hx : Steady x Q) {g : α → β} (h : ∀ a, Q a → R (g a)) : Steady (g <$> x) R := by
  rw [map_eq_pure_bind]
  exact hx.bind fun a ha => pure (h a ha)

theorem ite {c : Prop} [Decidable c] {x y : Coerce α} (hx : Steady x Q) (hy : Steady y Q) :
    Steady (if c then x else y) Q := by
  split
  · exact hx
  · exact hy

theorem mapM {l : List β} {f : β → Coerce α} (hf : ∀ b ∈ l, Steady (f b) fun _ => True) :
    Steady (l.mapM f) fun _ => True := by
  induction l with
  | nil =>
    rw [List.mapM_nil]
    exact pure trivial
  | cons b l ih =>
    rw [List.mapM_cons]
    refine (hf b List.mem_cons_self).bind fun a _ => ?_
    exact (ih fun b hb => hf b (List.mem_cons_of_mem _ hb)).bind fun as _ => pure trivial

/-- A conversion that builds a node. -/
theorem node (x : Build Node) :
    Steady (Coerced.node <$> (liftM x : Coerce Node)) fun _ => True :=
  (lift (Q := fun _ => True) fun _ _ _ _ => trivial).map fun _ _ => trivial

end Steady

namespace Sure

theorem pure (h : Q a) : Sure (pure a : Coerce α) Q := fun i => ⟨a, i, fun _ => rfl, h⟩

theorem bind (hx : Sure x P) (hf : ∀ a, P a → Sure (f a) R) : Sure (x >>= f) R := by
  intro i
  obtain ⟨a, i₁, gives, ha⟩ := hx i
  obtain ⟨b, i₂, gives', hb⟩ := hf a ha i₁
  exact ⟨b, i₂, fun ds => (Build.bind_run_over (gives ds)).trans (gives' ds), hb⟩

theorem mono (hx : Sure x P) (h : ∀ a, P a → Q a) : Sure x Q := by
  intro i
  obtain ⟨a, i', gives, ha⟩ := hx i
  exact ⟨a, i', gives, h a ha⟩

theorem map (hx : Sure x P) {g : α → β} (h : ∀ a, P a → R (g a)) : Sure (g <$> x) R := by
  rw [map_eq_pure_bind]
  exact hx.bind fun a ha => pure (h a ha)

theorem typed (kind : Kind Node) (type : SqlType) :
    Sure (liftM (Build.typed kind type) : Coerce Node) fun n => n.kind = kind :=
  fun i => ⟨⟨i, kind, type, [], []⟩, i + 1, fun _ => rfl, rfl⟩

theorem steady (hx : Sure x Q) : Steady x Q := fun i => .inr (hx i)

end Sure

/-! ## Steps under all policies -/

/-- How a step ends under the policies.  It fails alike, it gives the same without a report, and `Q`
holds of it, or it has one report: what reports and what passes over give the same then, of which
`P` holds, and what refuses fails with the report. -/
inductive Agrees (x : ImplicitPolicy → Coerce α) (Q P : α → Prop) (i : Identity) : Prop
  | fails {e : Error} : (∀ p, Fails (x p) i e) → Agrees x Q P i
  | quiet {a : α} {i' : Identity} : (∀ p, Gives (x p) i a i') → Q a → Agrees x Q P i
  | reports {d : Diagnostic} {a : α} {i' : Identity} :
      (∀ ds, x .warn ds i = .ok ((a, ds ++ [d]), i')) → Gives (x .silent) i a i' →
        Fails (x .error) i (.rejected d) → P a → Agrees x Q P i

namespace Agrees

variable {y z : ImplicitPolicy → Coerce α}

theorem of_steady (h : Steady x Q) : Agrees (fun _ => x) Q P i := by
  obtain ⟨e, fails⟩ | ⟨a, i', gives, ha⟩ := h i
  · exact .fails fun _ => fails
  · exact .quiet (fun _ => gives) ha

theorem throw (e : Error) : Agrees (fun _ => (throw e : Coerce α)) Q P i := of_steady (.throw e)

/-- A step that ends alike under the policies and has no report is steady. -/
theorem steady (h : ∀ i, Agrees (fun _ => x) Q (fun _ => False) i) : Steady x Q := by
  intro i
  cases h i with
  | fails fails => exact .inl ⟨_, fails .silent⟩
  | quiet gives ha => exact .inr ⟨_, _, gives .silent, ha⟩
  | reports _ _ _ none => exact none.elim

/-- What comes after a report is sure to give a result, and reports nothing more. -/
theorem bind {f : ImplicitPolicy → α → Coerce β} (hy : Agrees y Q P i)
    (hf : ∀ a i, Q a → Agrees (fun p => f p a) S R i)
    (after : ∀ a, P a → ∃ x, (∀ p, f p a = x) ∧ Sure x R) :
    Agrees (fun p => y p >>= f p) S R i := by
  cases hy with
  | fails fails => exact .fails fun p ds => Build.bind_run_error_over (fails p ds)
  | @quiet a i₁ gives ha =>
    have run (p : ImplicitPolicy) (ds : List Diagnostic) : (y p >>= f p) ds i = f p a ds i₁ :=
      Build.bind_run_over (gives p ds)
    cases hf a i₁ ha with
    | fails fails => exact .fails fun p ds => (run p ds).trans (fails p ds)
    | quiet gives' hb => exact .quiet (fun p ds => (run p ds).trans (gives' p ds)) hb
    | reports warn silent error hb =>
      exact .reports (fun ds => (run _ ds).trans (warn ds))
        (fun ds => (run _ ds).trans (silent ds)) (fun ds => (run _ ds).trans (error ds)) hb
  | @reports d a i₁ warn silent error ha =>
    obtain ⟨x, same, sure⟩ := after a ha
    obtain ⟨b, i₂, gives, hb⟩ := sure i₁
    have run (p : ImplicitPolicy) {ds ds' : List Diagnostic}
        (h : y p ds i = .ok ((a, ds'), i₁)) : (y p >>= f p) ds i = .ok ((b, ds'), i₂) := by
      rw [Build.bind_run_over h, same]
      exact gives ds'
    have passed : Gives (y .silent >>= f .silent) i b i₂ := fun ds => run .silent (silent ds)
    exact .reports (fun ds => run .warn (warn ds)) passed
      (fun ds => Build.bind_run_error_over (error ds)) hb

theorem mono {P' Q' : α → Prop} (hy : Agrees y Q P i) (hQ : ∀ a, Q a → Q' a)
    (hP : ∀ a, P a → P' a) : Agrees y Q' P' i := by
  cases hy with
  | fails fails => exact .fails fails
  | quiet gives ha => exact .quiet gives (hQ _ ha)
  | reports warn silent error ha => exact .reports warn silent error (hP _ ha)

theorem map {g : α → β} (hy : Agrees y Q P i) (hQ : ∀ a, Q a → S (g a))
    (hP : ∀ a, P a → R (g a)) : Agrees (fun p => g <$> y p) S R i := by
  simp only [map_eq_pure_bind]
  exact hy.bind (fun a _ ha => of_steady (.pure (hQ a ha))) fun a ha =>
    ⟨pure (g a), fun _ => rfl, .pure (hP a ha)⟩

theorem ite {c : Prop} [Decidable c] (hy : c → Agrees y Q P i) (hz : ¬ c → Agrees z Q P i) :
    Agrees (fun p => if c then y p else z p) Q P i := by
  by_cases h : c
  · simp only [if_pos h]
    exact hy h
  · simp only [if_neg h]
    exact hz h

end Agrees

end Coerce

/-- Whether a subquery wraps a SELECT, as whoever builds one makes sure. -/
def Node.WrapsSelect (n : Node) : Prop :=
  ∀ element name, n.kind = .subquery element name → element.isSelectStatement = true

/-- The same, of what an input stands for. -/
def Coerced.WrapsSelect (c : Coerced) : Prop := ∀ n, c = .node n → n.WrapsSelect

/-! ## Places under a policy -/

namespace Site

open Coerce

variable {site : Site} {input given : Input} {resolved : Coerced} {n : Node} {i : Identity}
  {P Q : Coerced → Prop}

/-- A place under a policy. -/
def under (site : Site) (p : ImplicitPolicy) : Site := { site with args.policy := some p }

/-- The error that something else is expected names no policy. -/
theorem agrees_unexpected (given : Input) (resolved : Option Coerced) :
    Agrees (fun p => throw ((site.under p).unexpected given resolved)) Q P i :=
  .throw (site.unexpected given resolved)

/-- A report is passed over, taken down or made an error. -/
theorem agrees_raise {kind : DiagnosticKind} {message : String} {β : Type} {x : Coerce β}
    {R S : β → Prop} (sure : Sure x R) :
    Agrees (fun p => (site.under p).raise kind message >>= fun _ => x) S R i := by
  have raised : Agrees (fun p => (site.under p).raise kind message) (fun _ => False)
      (fun _ => True) i := .reports (fun _ => rfl) (fun _ => rfl) (fun _ => rfl) trivial
  exact raised.bind nofun fun _ _ => ⟨x, fun _ => rfl, sure⟩

/-! ## Plain values -/

/-- What is made of a plain value is no subquery. -/
theorem steady_atom (kind : Kind Node) (type : SqlType)
    (plain : ∀ element name, kind ≠ .subquery element name) :
    Steady (Coerced.node <$> (liftM (Build.typed kind type) : Coerce Node))
      Coerced.WrapsSelect := by
  refine (Sure.typed kind type).steady.map fun n hn m hm => ?_
  cases hm
  intro element name h
  exact absurd (hn.symm.trans h) (plain element name)

theorem steady_plain (h : ∀ n, resolved ≠ .node n) :
    Steady (pure resolved : Coerce Coerced) Coerced.WrapsSelect :=
  .pure fun n hn => absurd hn (h n)

theorem steady_rejectPlain : Steady (site.rejectPlain input) Q := by
  unfold rejectPlain
  split
  · exact .ite (.throw _) (.throw _)
  · exact .throw _

theorem steady_stringKey : Steady (site.stringKey input) Coerced.WrapsSelect := by
  unfold stringKey
  split
  · exact steady_plain (by rintro _ ⟨⟩)
  · exact .throw _

theorem steady_expressionLiteral :
    Steady (site.expressionLiteral input) Coerced.WrapsSelect := by
  unfold expressionLiteral
  split
  · exact steady_atom _ _ (by rintro _ _ ⟨⟩)
  · split
    · exact steady_atom _ _ (by rintro _ _ ⟨⟩)
    · exact .throw _

theorem steady_listClause {whole item : Input} :
    Steady (site.listClause whole item) fun _ => True := by
  unfold listClause
  split
  · exact .lift fun _ _ _ _ => trivial
  · exact .pure trivial
  · split
    · exact .lift fun _ _ _ _ => trivial
    · exact .throw _

theorem steady_listLiteral : Steady (site.listLiteral input) Coerced.WrapsSelect := by
  unfold listLiteral
  split
  · refine .ite (.throw _) (.ite ?_ ?_)
    · split
      · exact steady_atom _ _ (by rintro _ _ ⟨⟩)
      · exact .throw _
    · exact (Steady.mapM fun _ _ => steady_listClause).bind fun _ _ =>
        steady_atom _ _ (by rintro _ _ ⟨⟩)
  · exact .throw _

theorem steady_limitLiteral : Steady (site.limitLiteral input) Coerced.WrapsSelect := by
  unfold limitLiteral
  dsimp only
  split
  · exact steady_plain (by rintro _ ⟨⟩)
  · exact steady_atom _ _ (by rintro _ _ ⟨⟩)
  · exact .throw _

theorem agrees_constant {taken : Constants} {onText : ImplicitPolicy → String → Coerce Coerced}
    (h : ∀ s, Agrees (fun p => onText p s) Coerced.WrapsSelect P i) :
    Agrees (fun p => (site.under p).constant taken (onText p) input) Coerced.WrapsSelect P i := by
  have atom (kind : Kind Node) (type : SqlType)
      (plain : ∀ element name, kind ≠ .subquery element name) :
      Agrees (fun _ => Coerced.node <$> (liftM (Build.typed kind type) : Coerce Node))
        Coerced.WrapsSelect P i := .of_steady (steady_atom kind type plain)
  unfold constant
  cases input with
  | string s =>
    by_cases star : (taken.star && s == "*") = true
    · simp only [if_pos star]
      exact atom _ _ nofun
    · simp only [if_neg star]
      exact h s
  | nothing => exact .ite (fun _ => atom _ _ nofun) fun _ => agrees_unexpected _ _
  | boolean => exact .ite (fun _ => atom _ _ nofun) fun _ => agrees_unexpected _ _
  | integer => exact .ite (fun _ => atom _ _ nofun) fun _ => agrees_unexpected _ _
  | real => exact .ite (fun _ => atom _ _ nofun) fun _ => agrees_unexpected _ _
  | _ => exact agrees_unexpected _ _

theorem steady_constant {taken : Constants} {onText : String → Coerce Coerced}
    (h : ∀ s, Steady (onText s) Coerced.WrapsSelect) :
    Steady (site.constant taken onText input) Coerced.WrapsSelect := by
  have alike (i : Identity) : Agrees (fun p => (site.under p).constant taken onText input)
      Coerced.WrapsSelect (fun _ => False) i := agrees_constant fun s => .of_steady (h s)
  exact Agrees.steady alike

/-- Only two roles report anything about a plain value. -/
theorem steady_literal (on : site.role ≠ .onClause) (statement : site.role ≠ .statement) :
    Steady (site.literal input) Coerced.WrapsSelect := by
  unfold literal
  cases role : site.role with
  | expressionElement | labeledColumnExpr => exact steady_expressionLiteral
  | binaryElement =>
    dsimp only
    split
    · exact steady_atom _ _ (by rintro _ _ ⟨⟩)
    · exact .throw _
  | inElement => exact steady_listLiteral
  | onClause => exact absurd role on
  | statement => exact absurd role statement
  | whereHaving | columnsClause => exact steady_constant fun s => .throw _
  | statementOption | ddlExpression | strAsPlainColumn | byOf | orderBy | groupBy =>
    exact steady_constant fun s => steady_atom _ _ (by rintro _ _ ⟨⟩)
  | columnArgumentOrKey | dmlColumn | truncatedLabel | ddlConstraintColumn | ddlReferredColumn
  | joinTarget => exact steady_stringKey
  | constExpr =>
    dsimp only
    split
    · exact steady_atom _ _ (by rintro _ _ ⟨⟩)
    · exact steady_atom _ _ (by rintro _ _ ⟨⟩)
    · exact .throw _
  | limitOffset => exact steady_limitLiteral
  | returnsRows => exact .throw _
  | columnArgument | selectStatement | fromClause | strictFromClause | anonymizedFromClause
  | dmlTable | dmlSelect | compoundElement => exact steady_rejectPlain
  | literalValue =>
    dsimp only
    split
    · exact steady_plain (by rintro _ ⟨⟩)
    · exact .throw _

theorem literal_under (p : ImplicitPolicy) (on : site.role ≠ .onClause)
    (statement : site.role ≠ .statement) : (site.under p).literal input = site.literal input := by
  rcases site with ⟨role, args⟩
  cases role with
  | onClause => exact absurd rfl on
  | statement => exact absurd rfl statement
  | _ => rfl

/-- What stands beside a report on a plain value: a key for an old caller of an ON clause, or SQL
text for a statement. -/
def Reported (site : Site) (c : Coerced) : Prop :=
  (site.role = .onClause ∧ site.args.legacy = true ∧ ∃ s, c = .key s) ∨
    (site.role = .statement ∧ ∃ n, c = .node n ∧ n.isText = true)

theorem agrees_literal :
    Agrees (fun p => (site.under p).literal input) Coerced.WrapsSelect site.Reported i := by
  by_cases on : site.role = .onClause
  · rcases site with ⟨role, args⟩
    obtain rfl : role = .onClause := on
    show Agrees (fun p => (Site.under ⟨.onClause, args⟩ p).constant ⟨true, false, false⟩ _ input)
      _ _ i
    refine agrees_constant fun s => ?_
    show Agrees (fun p => if args.legacy = true then do
      (Site.under ⟨.onClause, args⟩ p).raise .deprecated plainStringInJoin
      pure (Coerced.key s)
      else throw (Site.undeclaredText ⟨.onClause, args⟩ s)) _ _ i
    refine .ite (fun legacy => ?_) fun _ => .throw _
    exact agrees_raise (.pure (.inl ⟨rfl, legacy, s, rfl⟩))
  · by_cases statement : site.role = .statement
    · rcases site with ⟨role, args⟩
      obtain rfl : role = .statement := statement
      show Agrees
        (fun p => (Site.under ⟨.statement, args⟩ p).constant ⟨false, false, false⟩ _ input) _ _ i
      refine agrees_constant fun s => agrees_raise ?_
      refine (Sure.typed (.text s) .null).map fun n hn => .inr ⟨rfl, n, rfl, ?_⟩
      rw [Node.isText, hn]
    · simp only [literal_under _ on statement]
      exact .of_steady (steady_literal on statement)

/-! ## What an input stands for -/

theorem steady_unwrap (wraps : ∀ n, input.Mentions n → n.WrapsSelect) :
    Steady (site.unwrap input) Coerced.WrapsSelect := by
  unfold unwrap
  split
  · next n found =>
    refine .pure fun m hm => ?_
    cases hm
    exact wraps n (mentions_of_follow found)
  · exact .throw _
  · exact .lift nofun

theorem agrees_resolve (wraps : ∀ n, input.Mentions n → n.WrapsSelect) :
    Agrees (fun p => (site.under p).resolve input) Coerced.WrapsSelect site.Reported i := by
  have given {n : Node} (h : input.Mentions n) :
      Agrees (fun _ => (pure (.node n) : Coerce Coerced)) Coerced.WrapsSelect site.Reported i := by
    refine .of_steady (.pure fun m hm => ?_)
    cases hm
    exact wraps n h
  refine Agrees.ite (c := site.role.isLiteralOnly = true) (fun _ => agrees_literal) fun _ => ?_
  cases input with
  | node n => exact given .node
  | element repr target =>
    have steady : Steady (site.unwrap (.element repr target)) Coerced.WrapsSelect :=
      steady_unwrap wraps
    exact .of_steady steady
  | handle repr inspection =>
    refine .ite (c := site.role.usesInspection = true) (fun _ => ?_) fun _ => agrees_literal
    cases inspection with
    | element n => exact given .handle
    | closed => exact agrees_unexpected _ _
    | notInspectable => exact agrees_literal
  | _ => exact agrees_literal

/-! ## The last step -/

theorem steady_membership : Steady (membership n) fun _ => True := by
  unfold membership
  refine .ite (.node _) ?_
  split
  · exact .ite (.lift fun _ _ _ _ => trivial) (.node _)
  · exact .ite (.pure trivial) (.node _)
  · exact .pure trivial

theorem steady_settle : Steady (site.settle given n) fun _ => True := by
  unfold settle
  cases site.role with
  | binaryElement =>
    dsimp only
    split
    · exact .ite (.node _) (.pure trivial)
    · exact .pure trivial
  | inElement => exact steady_membership
  | orderBy => exact .ite (.node _) (.pure trivial)
  | dmlColumn =>
    refine .ite ?_ (.pure trivial)
    split
    · exact .pure trivial
    · exact .pure trivial
    · exact .throw _
  | ddlExpression | ddlConstraintColumn | ddlReferredColumn | anonymizedFromClause => exact .node _
  | fromClause | strictFromClause => exact .ite (.node _) (.pure trivial)
  | _ => exact .pure trivial

/-! ## What is sure after a report -/

theorem sure_scalarSubquery (h : n.isSelectStatement = true) :
    Sure (Coerced.node <$> (liftM n.scalarSubquery : Coerce Node))
      fun c => ∃ m, c = .node m ∧ m.isColumnElement = true := by
  unfold Node.scalarSubquery
  rw [if_pos h]
  refine (Sure.typed _ _).map fun m hm => ⟨m, rfl, ?_⟩
  rw [Node.isColumnElement, hm]

theorem sure_subquery (h : n.isSelectStatement = true) :
    Sure (liftM (n.subquery none) : Coerce Node) fun m => m.kind = .subquery n none := by
  unfold Node.subquery
  rw [if_pos h]
  exact .typed _ _

theorem sure_selectBehind (h : n.isFromClause = true) :
    Sure (liftM n.selectBehind : Coerce Node) fun m => m.isSelectStatement = true := by
  have all : Sure (liftM n.select : Coerce Node) fun m => m.isSelectStatement = true := by
    unfold Node.select
    rw [if_pos h]
    refine (Sure.typed _ _).mono fun m hm => ?_
    rw [Node.isSelectStatement, hm]
  have wrapped (element : Node) :
      Sure (liftM (if element.isSelectStatement = true then pure element else n.select) :
        Coerce Node) fun m => m.isSelectStatement = true := by
    by_cases select : element.isSelectStatement = true
    · rw [if_pos select]
      exact fun i => ⟨element, i, fun _ => rfl, select⟩
    · rw [if_neg select]
      exact all
  unfold Node.selectBehind
  split
  · exact wrapped _
  · exact wrapped _
  · exact all

theorem sure_membership (h : n.isSelectStatement = true) :
    Sure (membership n) fun _ => True := by
  unfold membership
  rw [if_pos h]
  exact (sure_scalarSubquery h).mono fun _ _ => trivial

/-- An anonymous alias of a subquery is made in any case. -/
theorem sure_anonymize {element : Node} {flat : Bool} {name newName : Option String}
    (h : n.kind = .subquery element name) :
    Sure (Coerced.node <$> (liftM (n.anonymize flat newName) : Coerce Node)) fun _ => True := by
  unfold Node.anonymize Node.aliased
  simp only [h]
  exact (Sure.typed _ _).map fun _ _ => trivial

/-! ## Conversions -/

theorem agrees_scalar (wraps : resolved.WrapsSelect) :
    Agrees (fun p => (site.under p).scalar given resolved) (fun _ => False)
      (fun c => ∃ m, c = .node m ∧ m.isColumnElement = true) i := by
  cases resolved with
  | node n =>
    refine .ite (fun select => agrees_raise (sure_scalarSubquery select)) fun _ => ?_
    cases kind : n.kind with
    | subquery element name =>
      exact agrees_raise (sure_scalarSubquery (wraps n rfl element name kind))
    | _ => exact agrees_unexpected _ _
  | _ => exact agrees_unexpected _ _

theorem agrees_labelled (wraps : resolved.WrapsSelect) :
    Agrees (fun p => (site.under p).labelled given resolved) (fun _ => True)
      (fun _ => True) i := by
  -- a single value is a column expression, which gets its label whatever is done about others
  have single {onValue : ImplicitPolicy → Coerced → Coerce Coerced}
      (label : ∀ m : Node, m.isColumnElement = true → ∀ p,
        onValue p (.node m) = Coerced.node <$> (liftM m.anonymousLabel : Coerce Node)) :
      Agrees (fun p => (site.under p).scalar given resolved >>= onValue p) (fun _ => True)
        (fun _ => True) i := by
    refine (agrees_scalar wraps).bind (fun _ _ none => none.elim) ?_
    rintro _ ⟨m, rfl, column⟩
    exact ⟨_, label m column, (Sure.typed _ _).map fun _ _ => trivial⟩
  cases resolved with
  | node n =>
    exact .ite (c := n.isColumnElement = true) (fun _ => .of_steady (.node _)) fun _ =>
      single fun m column p => if_pos column
  | _ => exact single fun m column p => if_pos column

theorem agrees_implicitSubquery (h : n.isSelectStatement = true) :
    Agrees (fun p => (site.under p).implicitSubquery n) (fun _ => False)
      (fun m => m.kind = .subquery n none) i :=
  agrees_raise (sure_subquery h)

theorem agrees_legacyTarget :
    Agrees (fun p => (site.under p).legacyTarget given resolved) (fun _ => True)
      (fun _ => True) i := by
  cases resolved with
  | key key => exact agrees_raise (.pure trivial)
  | node n =>
    refine .ite (fun _ => .of_steady (.pure trivial)) fun _ => .ite (fun select => ?_) fun _ =>
      agrees_unexpected _ _
    exact (agrees_implicitSubquery select).map nofun fun _ _ => trivial
  | _ => exact agrees_unexpected _ _

theorem agrees_selectInFrom :
    Agrees (fun p => (site.under p).selectInFrom given resolved) (fun _ => True)
      (fun _ => True) i := by
  cases resolved with
  | node n =>
    refine Agrees.ite (c := n.isSelectStatement = true) (fun select => ?_) fun _ =>
      .ite (fun _ => .of_steady (.pure trivial)) fun _ => agrees_unexpected _ _
    refine Agrees.ite (c := site.args.explicitSubquery = true) (fun _ => .of_steady (.node _))
      fun _ => .ite (c := site.args.allowSelect.getD true = true) (fun _ => ?_) fun _ =>
        agrees_unexpected _ _
    exact (agrees_implicitSubquery select).map nofun fun _ _ => trivial
  | _ => exact agrees_unexpected _ _

theorem agrees_selectInStrictFrom :
    Agrees (fun p => (site.under p).selectInStrictFrom given resolved) (fun _ => True)
      (fun _ => True) i := by
  cases resolved with
  | node n =>
    refine Agrees.ite (c := (n.isSelectStatement && site.args.allowSelect.getD false) = true)
      (fun allowed => ?_) fun _ => agrees_unexpected _ _
    have select : n.isSelectStatement = true := (Bool.and_eq_true_iff.1 allowed).1
    refine (agrees_implicitSubquery select).bind nofun fun m hm =>
      ⟨if site.role = .anonymizedFromClause then site.settle given m else pure (.node m),
        fun _ => rfl, ?_⟩
    by_cases anonymous : site.role = .anonymizedFromClause
    · rw [if_pos anonymous]
      unfold settle
      rw [anonymous]
      exact sure_anonymize hm
    · rw [if_neg anonymous]
      exact .pure trivial
  | _ => exact agrees_unexpected _ _

/-- Whether a conversion ends alike under the policies, whatever it gives. -/
abbrev Alike (x : ImplicitPolicy → Coerce Coerced) (i : Identity) : Prop :=
  Agrees x (fun _ => True) (fun _ => True) i

theorem agrees_convert (wraps : resolved.WrapsSelect) :
    Alike (fun p => (site.under p).convert given resolved) i := by
  rcases site with ⟨role, args⟩
  have single {role : Role} : Alike (fun p => (under ⟨role, args⟩ p).scalar given resolved) i :=
    (agrees_scalar wraps).mono nofun fun _ _ => trivial
  have key {role : Role} : Alike (fun _ => givenKey ⟨role, args⟩ given resolved) i := by
    refine .of_steady ?_
    unfold givenKey
    split
    · exact .pure trivial
    · exact .throw _
  cases role with
  | expressionElement | binaryElement | whereHaving | byOf | orderBy => exact single
  | inElement =>
    cases resolved with
    | node n =>
      refine Agrees.ite (c := n.isFromClause = true) (fun source => ?_) fun _ =>
        agrees_unexpected _ _
      exact agrees_raise (x := liftM n.selectBehind >>= settle ⟨.inElement, args⟩ given)
        ((sure_selectBehind source).bind fun m hm => sure_membership hm)
    | _ => exact agrees_unexpected _ _
  | onClause =>
    cases resolved with
    | key s =>
      exact .ite (c := args.legacy = true) (fun _ => .of_steady (.pure trivial)) fun _ => single
    | _ => exact single
  | columnArgumentOrKey | dmlColumn | ddlConstraintColumn | ddlReferredColumn => exact key
  | groupBy =>
    cases resolved with
    | node n =>
      refine .ite (c := n.isFromClause = true) (fun _ => .of_steady ?_) fun _ =>
        .of_steady (.pure trivial)
      exact (Steady.lift (Q := fun _ => True) fun _ _ _ _ => trivial).bind fun _ _ => .node _
    | _ => exact .of_steady (.pure trivial)
  | truncatedLabel =>
    cases given with
    | string s => exact .of_steady (.pure trivial)
    | _ => exact agrees_unexpected _ _
  | limitOffset =>
    cases resolved with
    | empty => exact .of_steady (.pure trivial)
    | _ => exact agrees_unexpected _ _
  | labeledColumnExpr => exact agrees_labelled wraps
  | selectStatement =>
    cases resolved with
    | node n =>
      exact .ite (c := n.isText = true) (fun _ => .of_steady (.node _)) fun _ =>
        agrees_unexpected _ _
    | _ => exact agrees_unexpected _ _
  | joinTarget =>
    exact .ite (c := args.legacy = true) (fun _ => agrees_legacyTarget) fun _ =>
      agrees_unexpected _ _
  | fromClause => exact agrees_selectInFrom
  | strictFromClause | anonymizedFromClause => exact agrees_selectInStrictFrom
  | dmlSelect =>
    cases resolved with
    | node n =>
      exact .ite (c := n.isFromClause = true) (fun _ => .of_steady (.node _)) fun _ =>
        agrees_unexpected _ _
    | _ => exact agrees_unexpected _ _
  | literalValue =>
    cases resolved with
    | literal value =>
      exact .of_steady (.node (Build.uniqueParam none value args.type false false))
    | _ => exact agrees_unexpected _ _
  | _ => exact agrees_unexpected _ _

/-! ## The whole coercion -/

/-- What becomes of an input once it is known what it stands for. -/
def finish (site : Site) (input : Input) (resolved : Coerced) : Coerce Coerced :=
  match resolved with
  | .node n => if site.role.accepts n then site.settle input n else site.convert input resolved
  | _ => site.convert input resolved

theorem agrees_finish (wraps : resolved.WrapsSelect) :
    Alike (fun p => (site.under p).finish input resolved) i := by
  cases resolved with
  | node n =>
    refine .ite (c := site.role.accepts n = true) (fun _ => ?_) fun _ => agrees_convert wraps
    exact .of_steady (x := site.settle input n) steady_settle
  | _ => exact agrees_convert wraps

/-- What stands beside a report on a plain value is taken as it is. -/
theorem finish_reported (h : site.Reported resolved) (p : ImplicitPolicy) :
    (site.under p).finish input resolved = pure resolved := by
  rcases site with ⟨role, args⟩
  obtain ⟨rfl, legacy, s, rfl⟩ | ⟨rfl, n, rfl, text⟩ := h
  · exact if_pos legacy
  · have taken : Role.accepts .statement n = true := by
      rcases n with ⟨id, kind, type, annotations, diagnostics⟩
      cases kind <;> first | rfl | cases text
    exact if_pos taken

theorem agrees_coerce (wraps : ∀ n, input.Mentions n → n.WrapsSelect) :
    Alike (fun p => (site.under p).coerce input) i := by
  have stands : Alike (fun p => (site.under p).resolve input >>= (site.under p).finish input) i :=
    (agrees_resolve wraps).bind (fun _ _ h => agrees_finish h) fun resolved h =>
      ⟨pure resolved, finish_reported h, .pure trivial⟩
  cases input with
  | lambda lambda =>
    have later : Alike (fun _ => Coerced.node <$>
        (liftM (Build.untyped (.deferred lambda site.role)) : Coerce Node)) i :=
      .of_steady (.node _)
    exact .ite (c := site.role.allowsLambda = true) (fun _ => later) fun _ => stands
  | _ => exact stands

end Site

/-- The policies agree on a coercion.  The one that passes conversions over gives what the one that
reports them gives, without the reports, and fails where it fails.  The one that refuses them does
the same if there is no report, and fails with the first one if there is. -/
theorem expect_policies_agree (role : Role) (input : Input) (args : CoercionArgs) (i : Identity)
    (wraps : ∀ n, input.Mentions n → n.WrapsSelect) :
    match expect role input { args with policy := some .warn } i with
    | .error e =>
      expect role input { args with policy := some .silent } i = .error e ∧
        expect role input { args with policy := some .error } i = .error e
    | .ok (⟨value, diagnostics⟩, i') =>
      expect role input { args with policy := some .silent } i = .ok (⟨value, []⟩, i') ∧
        expect role input { args with policy := some .error } i =
          match diagnostics with
          | [] => .ok (⟨value, []⟩, i')
          | d :: _ => .error (.rejected d) := by
  have failed {p : ImplicitPolicy} {e : Error}
      (h : ((⟨role, args⟩ : Site).under p).coerce input [] i = .error e) :
      expect role input { args with policy := some p } i = .error e := by
    show (((⟨role, args⟩ : Site).under p).coerce input [] i >>= fun r => _) = _
    rw [h]
    rfl
  have given {p : ImplicitPolicy} {value : Coerced} {ds : List Diagnostic} {i' : Identity}
      (h : ((⟨role, args⟩ : Site).under p).coerce input [] i = .ok ((value, ds), i')) :
      expect role input { args with policy := some p } i = .ok (⟨value, ds⟩, i') := by
    show (((⟨role, args⟩ : Site).under p).coerce input [] i >>= fun r => _) = _
    rw [h]
    rfl
  have alike : Site.Alike (fun p => ((⟨role, args⟩ : Site).under p).coerce input) i :=
    Site.agrees_coerce wraps
  cases alike with
  | fails fails =>
    rw [failed (fails .warn [])]
    exact ⟨failed (fails .silent []), failed (fails .error [])⟩
  | quiet gives =>
    rw [given (gives .warn [])]
    exact ⟨given (gives .silent []), given (gives .error [])⟩
  | reports warn silent error =>
    rw [given (warn [])]
    exact ⟨given (silent []), failed (error [])⟩

/-- A subquery where a value is expected becomes a scalar one, which is reported. -/
theorem expect_policies_agree_subquery :
    let select : Node := ⟨0, .select .empty, .null, [], []⟩
    let subquery : Node := ⟨1, .subquery select none, .null, [], []⟩
    ∃ value i', ∃ d : Diagnostic, d.message = selectAsScalar ∧
      expect .whereHaving (.node subquery) { policy := some .warn } 2 =
        .ok (⟨value, [d]⟩, i') ∧
      expect .whereHaving (.node subquery) { policy := some .silent } 2 =
        .ok (⟨value, []⟩, i') ∧
      expect .whereHaving (.node subquery) { policy := some .error } 2 =
        .error (.rejected d) := by
  intro select subquery
  have wraps : ∀ n, (Input.node subquery).Mentions n → n.WrapsSelect := by
    intro n h
    cases h
    intro element name kind
    cases kind
    rfl
  have agree := expect_policies_agree .whereHaving (.node subquery) {} 2 wraps
  exact ⟨_, _, _, rfl, rfl, agree.1, agree.2⟩

end SqlAlgebra
