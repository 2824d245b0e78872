import SqlAlgebra.Coercion.Expect
import SqlAlgebra.Proofs.Tree.Outcome

/-!
# What a coercion gives

A role takes some nodes as they are, and converts others or refuses them.  What a coercion gives is
a node that the role takes, with two exceptions: the list of an IN expression comes out in
parentheses, which the role does not take, and GROUP BY lets statements through that it neither
takes nor converts.  A coercion fails with an error of construction, about its argument, or of the
policy, never with one of rendering.
-/

namespace SqlAlgebra

open Build (Ends EndsOver ends_typed ends_copy)

/-- Whether an error is found while a tree is put together, before any of it is rendered. -/
def Error.IsEarly : Error → Prop
  | .compile _ => False
  | _ => True

/-- Whether an error is found in what is at hand: before any of it is rendered, and without that
something is followed for too long. -/
def Error.IsPrompt : Error → Prop
  | .compile _ | .construction (.endlessElement _) | .construction .endlessDeferred => False
  | _ => True

theorem Error.IsPrompt.isEarly {e : Error} (h : e.IsPrompt) : e.IsEarly := by
  cases e with
  | compile => exact h
  | _ => trivial

theorem Build.Ends.early {α : Type} {x : Build α} {Q : α → Prop} (h : Ends x Q Error.IsPrompt) :
    Ends x Q Error.IsEarly :=
  h.weaken fun _ he => he.isEarly

theorem Build.EndsOver.early {σ α : Type} {x : StateT σ Build α} {Q : α → Prop}
    (h : EndsOver x Q Error.IsPrompt) : EndsOver x Q Error.IsEarly :=
  h.weaken fun _ he => he.isEarly

namespace Role

variable {role : Role} {n m : Node}

/-- The nodes that a coercion gives although the role does not take them. -/
def Overlooks (role : Role) (n : Node) : Prop :=
  match role with
  | .inElement => ∃ element, n.kind = .grouping element
  | .groupBy => n.isSelectStatement ∨ n.isModification
  | _ => False

theorem Overlooks.not_accepts (h : role.Overlooks n) : role.accepts n = false := by
  rcases n with ⟨id, kind, type, annotations, diagnostics⟩
  cases role <;> try exact h.elim
  case inElement =>
    obtain ⟨element, rfl⟩ := h
    rfl
  case groupBy =>
    cases kind <;> first | rfl | (rcases h with h | h <;> cases h)

theorem accepts_iff_not_overlooks (h : role.accepts n = true ∨ role.Overlooks n) :
    role.accepts n = true ↔ ¬role.Overlooks n := by
  constructor
  · intro taken overlooked
    rw [overlooked.not_accepts] at taken
    cases taken
  · exact fun h' => h.resolve_right h'

/-- What a role takes depends on the shape of a node only. -/
theorem accepts_congr (role : Role) (h : m.kind = n.kind) : role.accepts m = role.accepts n := by
  unfold accepts Node.isDeferred Node.isColumnElement Node.isText Node.isFromClause
    Node.isSelectStatement Node.isModification
  rw [h]

/-- A role takes a node with whatever children. -/
theorem accepts_refill (role : Role) {news : List Node} (h : m.kind = n.kind.refill news) :
    role.accepts m = role.accepts n := by
  rcases n with ⟨id, kind, type, annotations, diagnostics⟩
  unfold accepts Node.isDeferred Node.isColumnElement Node.isText Node.isFromClause
    Node.isSelectStatement Node.isModification
  rw [h]
  cases kind <;> rfl

end Role

namespace Node

variable {n : Node} {E : Error → Prop}

/-! ## Row sources -/

/-- A node that has a kind of which a property is known. -/
theorem ends_kind {kind : Kind Node} {type : SqlType} {P : Node → Prop}
    (h : ∀ n : Node, n.kind = kind → P n) : Ends (Build.typed kind type) P E :=
  (ends_typed kind type).imp h

theorem ends_subquery (n : Node) (name : Option String) :
    Ends (n.subquery name) (fun m => m.kind = .subquery n name) Error.IsPrompt :=
  .ite (fun _ => ends_typed _ _) fun _ => .throw trivial

theorem isFromClause_of_subquery {name : Option String} {m : Node} (h : m.kind = .subquery n name) :
    m.isFromClause = true := by
  rw [isFromClause, h]

theorem ends_scalarSubquery (n : Node) :
    Ends n.scalarSubquery (fun m => m.kind = .scalarSubquery n) Error.IsPrompt :=
  .ite (fun _ => ends_typed _ _) fun _ => .throw trivial

/-- The SELECT behind a FROM element is that of a wrapper, or one that has the element below it. -/
theorem ends_selectBehind (n : Node) :
    Ends n.selectBehind
      (fun m => m.isSelectStatement = true ∧
        ((∃ name, n.kind = .alias m name ∨ n.kind = .subquery m name) ∨ n ∈ m.children))
      Error.IsPrompt := by
  have all : Ends n.select
      (fun m => m.isSelectStatement = true ∧
        ((∃ name, n.kind = .alias m name ∨ n.kind = .subquery m name) ∨ n ∈ m.children))
      Error.IsPrompt := by
    refine .ite (fun _ => ends_kind fun m hm => ⟨?_, .inr ?_⟩) fun _ => .throw trivial
    · rw [isSelectStatement, hm]
    · rw [children, hm]
      exact List.mem_append_left _ (by simp [Select.empty])
  unfold selectBehind
  split
  · next element name kind =>
    exact .ite (fun h => .pure ⟨h, .inl ⟨name, .inl kind⟩⟩) fun _ => all
  · next element name kind =>
    exact .ite (fun h => .pure ⟨h, .inl ⟨name, .inr kind⟩⟩) fun _ => all
  · exact all

theorem ends_aliased (n : Node) (name : Option String) :
    Ends (n.aliased name) (fun m => m.isFromClause = true) Error.IsPrompt := by
  have made {kind : Kind Node} (h : (⟨0, kind, .null, [], []⟩ : Node).isFromClause = true) :
      Ends (Build.untyped kind) (fun m => m.isFromClause = true) Error.IsPrompt :=
    ends_kind fun m hm => by
      rw [isFromClause, hm]
      exact h
  unfold aliased
  split
  · exact made rfl
  · exact made rfl
  · exact made rfl
  · exact (ends_kind (P := fun _ => True) fun _ _ => trivial).bind fun _ _ => made rfl
  · exact .ite (fun _ => made rfl) fun _ => .throw trivial

/-- Each declared column of a row source has the element that it belongs to below it. -/
theorem ends_columns (n : Node) :
    Ends n.columns (fun cs => ∀ entry ∈ n.declaredColumns, ∃ c ∈ cs, entry.1 ∈ c.children) E := by
  refine .mapM_exists fun entry _ => ends_kind fun c hc => ?_
  rw [children, hc]
  exact List.mem_singleton_self _

theorem ends_repointColumns (replaced : List (Node × Node)) (n : Node) :
    Ends (repointColumns replaced n) (fun _ => True) E := by
  unfold repointColumns
  refine (endsOver_substitute (fun x => ?_) n ()).bind fun _ _ => .pure trivial
  split
  · split
    · exact .map (.lift (ends_kind (P := fun _ => True) fun _ _ => trivial)) fun _ _ => trivial
    · exact .pure trivial
  · exact .pure trivial

theorem ends_anonymizeSides (n : Node) :
    Ends n.anonymizeSides (fun p => p.1.isFromClause = true) Error.IsPrompt := by
  induction n using Node.induct with
  | step n ih =>
    rw [anonymizeSides]
    split
    · next j kind =>
      refine (ih j.left (by simp [children, kind, Kind.children])).bind fun _ _ => ?_
      refine (ih j.right (by simp [children, kind, Kind.children])).bind fun _ _ => ?_
      refine (ends_repointColumns _ _).bind fun _ _ => ?_
      refine (ends_kind (P := fun m => m.isFromClause = true) fun m hm => ?_).bind
        fun _ hm => .pure hm
      rw [isFromClause, hm]
    · exact (ends_aliased n none).bind fun _ hm => .pure hm

theorem ends_anonymize (n : Node) (flat : Bool) (name : Option String) :
    Ends (n.anonymize flat name) (fun m => m.isFromClause = true) Error.IsPrompt := by
  unfold anonymize
  split
  · exact .ite (fun _ => (ends_anonymizeSides n).bind fun _ hm => .pure hm)
      fun _ => ends_aliased n name
  · exact ends_aliased n name

theorem ends_deannotate (n : Node) :
    Ends n.deannotate (fun m => m.kind = n.kind ∧ m.diagnostics = n.diagnostics) E :=
  .ite (fun _ => .pure ⟨rfl, rfl⟩) fun _ => ends_copy _

theorem ends_retyped (n : Node) (type : SqlType) :
    Ends (Build.retyped n type) (fun m => m.kind = n.kind ∧ m.diagnostics = n.diagnostics) E :=
  .ite (fun _ => .pure ⟨rfl, rfl⟩) fun _ => ends_copy _

/-- A node of a deep copy is one without annotations, with new children if there are any. -/
theorem endsOver_stripped (n : Node) (news : List Node) :
    EndsOver
      (match n.withChildren? news with
        | none => liftM n.deannotate
        | some changed => liftM (Build.copy { changed with annotations := [] }) :
        StateT Unit Build Node)
      (fun m => m.kind = n.kind ∨ ∃ news, m.kind = n.kind.refill news) E := by
  unfold withChildren?
  split
  · exact .lift ((ends_deannotate n).imp fun _ h => .inl h.1)
  · next changed made =>
    split at made
    · cases made
    · cases made
      exact .lift ((ends_copy _).imp fun _ h => .inr ⟨news, h.1⟩)

/-- Only the children of a node change when notes are taken from it and from all below it. -/
theorem ends_deepDeannotate (n : Node) :
    Ends n.deepDeannotate (fun m => m.kind = n.kind ∨ ∃ news, m.kind = n.kind.refill news) E := by
  unfold deepDeannotate
  constructor
  · intro i m i' ran
    obtain ⟨⟨⟨out, memo⟩, s⟩, i₁, ran, last⟩ := Build.bind_ok ran
    cases last
    cases transforms_of_transform ran with
    | rebuilt unknown offered below finished rest =>
      cases rest
      exact (endsOver_stripped (E := E) n _ _).result finished
    | replaced unknown offered rest => cases offered
    | known known rest => cases known
  · intro i e ran
    obtain failed | ⟨a, i₁, -, last⟩ := Build.bind_error ran
    · exact (endsOver_transform (fun _ => .pure trivial) (fun n news =>
        (endsOver_stripped n news).imp fun _ _ => trivial) n [] ()).error failed
    · cases last

end Node

namespace Site

variable {site : Site} {input given : Input} {resolved : Coerced} {n : Node} {P : Coerced → Prop}

/-- A conversion that builds a node. -/
theorem ends_node {x : Build Node} {Q : Node → Prop} {E : Error → Prop} (h : Ends x Q E)
    (hQ : ∀ n, Q n → P (.node n)) : EndsOver (Coerced.node <$> (liftM x : Coerce Node)) P E :=
  .map (.lift h) hQ

theorem ends_raise {kind : DiagnosticKind} {message : String} :
    EndsOver (site.raise kind message) (fun _ => True) Error.IsPrompt := by
  unfold raise
  split
  · exact .pure trivial
  · exact .throw trivial
  · exact .modify _

/-! ## Plain values -/

/-- A conversion of a plain value. -/
abbrev Early (x : Coerce Coerced) : Prop := EndsOver x (fun _ => True) Error.IsEarly

theorem early_atom (kind : Kind Node) (type : SqlType) :
    Early (Coerced.node <$> (liftM (Build.typed kind type) : Coerce Node)) :=
  ends_node (ends_typed kind type) fun _ _ => trivial

theorem early_rejectPlain : Early (site.rejectPlain input) := by
  unfold rejectPlain
  split
  · exact .ite (fun _ => .throw trivial) fun _ => .throw trivial
  · exact .throw trivial

theorem ends_stringKey :
    EndsOver (site.stringKey input) (fun c => ∀ n, c ≠ .node n) Error.IsEarly := by
  unfold stringKey
  split
  · exact .pure nofun
  · exact .throw trivial

theorem early_expressionLiteral : Early (site.expressionLiteral input) := by
  unfold expressionLiteral
  split
  · exact early_atom _ _
  · split
    · exact early_atom _ _
    · exact .throw trivial

theorem early_constant {taken : Constants} {onText : String → Coerce Coerced}
    (h : ∀ s, Early (onText s)) : Early (site.constant taken onText input) := by
  unfold constant
  split
  · exact .ite (fun _ => early_atom _ _) fun _ => h _
  · exact .ite (fun _ => early_atom _ _) fun _ => .throw trivial
  · exact .ite (fun _ => early_atom _ _) fun _ => .throw trivial
  · exact .ite (fun _ => early_atom _ _) fun _ => .throw trivial
  · exact .ite (fun _ => early_atom _ _) fun _ => .throw trivial
  · exact .throw trivial

theorem early_listClause {whole item : Input} :
    EndsOver (site.listClause whole item) (fun _ => True) Error.IsEarly := by
  have atom (kind : Kind Node) (type : SqlType) :
      EndsOver (liftM (Build.typed kind type) : Coerce Node) (fun _ => True) Error.IsEarly :=
    .lift ((ends_typed kind type).imp fun _ _ => trivial)
  unfold listClause
  split
  · exact atom _ _
  · exact .pure trivial
  · split
    · exact atom _ _
    · exact .throw trivial

theorem early_listLiteral : Early (site.listLiteral input) := by
  unfold listLiteral
  split
  · refine .ite (fun _ => .throw trivial) fun _ => .ite (fun _ => ?_) fun _ => ?_
    · split
      · exact early_atom _ _
      · exact .throw trivial
    · exact (EndsOver.mapM fun _ _ => early_listClause).bind fun _ _ => early_atom _ _
  · exact .throw trivial

theorem early_limitLiteral : Early (site.limitLiteral input) := by
  unfold limitLiteral
  dsimp only
  split
  · exact .pure trivial
  · exact early_atom _ _
  · exact .throw trivial

theorem early_literal : Early (site.literal input) := by
  unfold literal
  cases site.role with
  | expressionElement | labeledColumnExpr => exact early_expressionLiteral
  | binaryElement =>
    dsimp only
    split
    · exact early_atom _ _
    · exact .throw trivial
  | inElement => exact early_listLiteral
  | onClause =>
    refine early_constant fun s => .ite (fun _ => ?_) fun _ => .throw trivial
    exact ends_raise.early.bind fun _ _ => .pure trivial
  | whereHaving | columnsClause => exact early_constant fun s => .throw trivial
  | statementOption | ddlExpression | strAsPlainColumn | byOf | orderBy | groupBy =>
    exact early_constant fun s => early_atom _ _
  | columnArgumentOrKey | dmlColumn | truncatedLabel | ddlConstraintColumn | ddlReferredColumn
  | joinTarget => exact ends_stringKey.imp fun _ _ => trivial
  | constExpr =>
    dsimp only
    split
    · exact early_atom _ _
    · exact early_atom _ _
    · exact .throw trivial
  | limitOffset => exact early_limitLiteral
  | returnsRows => exact .throw trivial
  | statement => exact early_constant fun s => ends_raise.early.bind fun _ _ => early_atom _ _
  | columnArgument | selectStatement | fromClause | strictFromClause | anonymizedFromClause
  | dmlTable | dmlSelect | compoundElement => exact early_rejectPlain
  | literalValue =>
    dsimp only
    split
    · exact .pure trivial
    · exact .throw trivial

theorem early_unwrap : Early (site.unwrap input) := by
  unfold unwrap
  split
  · exact .pure trivial
  · exact .throw trivial
  · exact .lift (.throw trivial)

theorem early_resolve : Early (site.resolve input) := by
  unfold resolve
  refine .ite (fun _ => early_literal) fun _ => ?_
  split
  · exact .pure trivial
  · exact early_unwrap
  · refine .ite (fun _ => ?_) fun _ => early_literal
    split
    · exact .pure trivial
    · exact .throw trivial
    · exact early_literal
  · exact early_literal

/-- A role that takes strings for names makes no node of one. -/
theorem ends_resolve :
    EndsOver (site.resolve input)
      (fun c => site.role = .truncatedLabel → ∀ n, c ≠ .node n) Error.IsEarly := by
  by_cases hs : site.role = .truncatedLabel
  · have key : site.resolve input = site.stringKey input := by
      unfold resolve literal
      rw [hs]
      rfl
    rw [key]
    exact ends_stringKey.imp fun _ h _ => h
  · exact early_resolve.imp fun _ _ hs' => absurd hs' hs

/-! ## Nodes -/

/-- Whether a result is a node that the role takes or overlooks, if it is a node.  Nothing is said
of plain values that are wrapped, nor of what is done for old callers. -/
def Fits (site : Site) (resolved : Coerced) : Prop :=
  site.role ≠ .literalValue → site.args.legacy = false → ∀ n, resolved = .node n →
    site.role.accepts n = true ∨ site.role.Overlooks n

theorem fits_of_not_node (h : ∀ n, resolved ≠ .node n) : site.Fits resolved :=
  fun _ _ n hn => absurd hn (h n)

theorem fits_of_accepts (h : site.role.accepts n = true) : site.Fits (.node n) := by
  rintro - - m ⟨⟩
  exact .inl h

theorem fits_of_overlooks (h : site.role.Overlooks n) : site.Fits (.node n) := by
  rintro - - m ⟨⟩
  exact .inr h

theorem fits_key {key : String} : site.Fits (.key key) :=
  fits_of_not_node fun n hn => by cases hn

/-- A node of a class that a role takes fits. -/
theorem accepts_of_kind {role : Role} {kind : Kind Node} (hn : n.kind = kind)
    (h : role.accepts ⟨0, kind, .null, [], []⟩ = true) : role.accepts n = true := by
  rw [role.accepts_congr (n := ⟨0, kind, .null, [], []⟩) hn]
  exact h

/-- The roles that take FROM elements. -/
theorem accepts_of_isFromClause {role : Role}
    (hr : role = .fromClause ∨ role = .strictFromClause ∨ role = .anonymizedFromClause)
    (h : n.isFromClause = true) : role.accepts n = true := by
  rcases n with ⟨id, kind, type, annotations, diagnostics⟩
  rcases hr with rfl | rfl | rfl <;> cases kind <;> first | rfl | cases h

/-- The roles that take a SELECT that stands behind a FROM element. -/
theorem accepts_of_isSelectStatement {role : Role} (hr : role = .inElement ∨ role = .dmlSelect)
    (h : n.isSelectStatement = true) : role.accepts n = true := by
  rcases n with ⟨id, kind, type, annotations, diagnostics⟩
  rcases hr with rfl | rfl <;> cases kind <;> first | rfl | cases h

theorem accepts_of_isText (h : n.isText = true) : Role.accepts .fromClause n = true := by
  rcases n with ⟨id, kind, type, annotations, diagnostics⟩
  cases kind <;> first | rfl | cases h

theorem fits_membership (hs : site.role = .inElement) (h : Role.accepts .inElement n = true) :
    EndsOver (membership n) site.Fits Error.IsPrompt := by
  have taken {m : Node} (hm : Role.accepts .inElement m = true) : site.Fits (.node m) :=
    fits_of_accepts (hs ▸ hm)
  unfold membership
  refine .ite (fun _ => ?_) fun _ => ?_
  · exact ends_node n.ends_scalarSubquery fun m hm => taken (accepts_of_kind hm rfl)
  · split
    · refine .ite (fun _ => .lift (.throw trivial)) fun _ => ?_
      exact ends_node (ends_typed _ _) fun m hm => fits_of_overlooks (by rw [hs]; exact ⟨n, hm⟩)
    · refine .ite (fun _ => .pure (taken h)) fun _ => ?_
      exact ends_node (ends_typed _ _) fun m hm => taken (accepts_of_kind hm rfl)
    · exact .pure (taken h)

/-- The last step for a node that the role takes gives a node that fits. -/
theorem fits_settle (h : site.role.accepts n = true) :
    EndsOver (site.settle given n) site.Fits Error.IsPrompt := by
  rcases site with ⟨role, args⟩
  have same {m : Node} (hm : m.kind = n.kind) : (⟨role, args⟩ : Site).Fits (.node m) :=
    fits_of_accepts ((role.accepts_congr hm).trans h)
  have itself : EndsOver (pure (.node n) : Coerce Coerced) (⟨role, args⟩ : Site).Fits
      Error.IsPrompt := .pure (same rfl)
  have stripped : EndsOver (Coerced.node <$> (liftM n.deepDeannotate : Coerce Node))
      (⟨role, args⟩ : Site).Fits Error.IsPrompt :=
    ends_node n.ends_deepDeannotate fun m hm =>
      hm.elim same fun ⟨_, hm⟩ => fits_of_accepts ((role.accepts_refill hm).trans h)
  have unnoted : EndsOver (Coerced.node <$> (liftM n.deannotate : Coerce Node))
      (⟨role, args⟩ : Site).Fits Error.IsPrompt := ends_node n.ends_deannotate fun _ hm => same hm.1
  unfold settle
  cases role with
  | binaryElement =>
    dsimp only
    split
    · exact .ite (fun _ => ends_node (Node.ends_retyped n _) fun _ hm => same hm.1) fun _ => itself
    · exact itself
  | inElement => exact fits_membership rfl h
  | orderBy =>
    refine .ite (fun _ => ?_) fun _ => itself
    exact ends_node (ends_typed _ _) fun m hm => fits_of_accepts (accepts_of_kind hm rfl)
  | dmlColumn =>
    refine .ite (fun _ => ?_) fun _ => itself
    split
    · exact .pure fits_key
    · exact .pure fits_key
    · exact .throw trivial
  | ddlExpression | ddlConstraintColumn | ddlReferredColumn => exact stripped
  | fromClause | strictFromClause => exact .ite (fun _ => unnoted) fun _ => itself
  | anonymizedFromClause =>
    exact ends_node (n.ends_anonymize _ _) fun m hm =>
      fits_of_accepts (accepts_of_isFromClause (.inr (.inr rfl)) hm)
  | _ => exact itself

/-! ## Nodes that a role does not take -/

theorem ends_scalar :
    EndsOver (site.scalar given resolved)
      (fun c => ∃ m e, c = .node m ∧ m.kind = .scalarSubquery e) Error.IsPrompt := by
  have made (n : Node) : EndsOver (Coerced.node <$> (liftM n.scalarSubquery : Coerce Node))
      (fun c => ∃ m e, c = .node m ∧ m.kind = .scalarSubquery e) Error.IsPrompt :=
    ends_node n.ends_scalarSubquery fun m hm => ⟨m, n, rfl, hm⟩
  unfold scalar
  split
  · refine .ite (fun _ => ends_raise.bind fun _ _ => made _) fun _ => ?_
    split
    · exact ends_raise.bind fun _ _ => made _
    · exact .throw trivial
  · exact .throw trivial

/-- A single value fits every role that makes one of a SELECT. -/
theorem fits_scalar (h : ∀ n : Node, (∃ e, n.kind = .scalarSubquery e) →
      site.role.accepts n = true) :
    EndsOver (site.scalar given resolved) site.Fits Error.IsPrompt :=
  ends_scalar.imp fun _ ⟨m, e, eq, hm⟩ => eq ▸ fits_of_accepts (h m ⟨e, hm⟩)

theorem fits_givenKey : EndsOver (site.givenKey given resolved) site.Fits Error.IsPrompt := by
  unfold givenKey
  split
  · exact .pure fits_key
  · exact .throw trivial

theorem ends_implicitSubquery (n : Node) :
    EndsOver (site.implicitSubquery n) (fun m => m.kind = .subquery n none) Error.IsPrompt :=
  ends_raise.bind fun _ _ => .lift (n.ends_subquery none)

theorem fits_anonymousLabel (hs : site.role = .labeledColumnExpr) (n : Node) :
    EndsOver (Coerced.node <$> (liftM n.anonymousLabel : Coerce Node)) site.Fits Error.IsPrompt :=
  ends_node (ends_typed _ _) fun m hm =>
    fits_of_accepts (by rw [hs]; exact accepts_of_kind hm rfl)

/-- A single value of a SELECT where a labelled column is expected, under a label of its own. -/
theorem fits_scalarLabel (hs : site.role = .labeledColumnExpr) :
    EndsOver (do
      let converted ← site.scalar given resolved
      match converted with
      | .node n =>
        if n.isColumnElement then .node <$> n.anonymousLabel
        else throw (site.unexpected given (some converted))
      | _ => throw (site.unexpected given (some converted))) site.Fits Error.IsPrompt := by
  refine ends_scalar.bind fun converted _ => ?_
  split
  · exact .ite (fun _ => fits_anonymousLabel hs _) fun _ => .throw trivial
  · exact .throw trivial

theorem fits_labelled (hs : site.role = .labeledColumnExpr) :
    EndsOver (site.labelled given resolved) site.Fits Error.IsPrompt := by
  unfold labelled
  dsimp only
  split
  · exact .ite (fun _ => fits_anonymousLabel hs _) fun _ => fits_scalarLabel hs
  · exact fits_scalarLabel hs

theorem fits_legacyTarget (legacy : site.args.legacy = true) :
    EndsOver (site.legacyTarget given resolved) site.Fits Error.IsPrompt := by
  have old (resolved : Coerced) : site.Fits resolved := fun _ h => by
    rw [legacy] at h
    cases h
  unfold legacyTarget
  split
  · exact ends_raise.bind fun _ _ => .pure (old _)
  · refine .ite (fun _ => .pure (old _)) fun _ => .ite (fun _ => ?_) fun _ => .throw trivial
    exact .map (ends_implicitSubquery _) fun _ _ => old _
  · exact .throw trivial

theorem fits_selectInFrom (hs : site.role = .fromClause) :
    EndsOver (site.selectInFrom given resolved) site.Fits Error.IsPrompt := by
  have taken {n : Node} (m : Node) (h : m.kind = .subquery n none) : site.Fits (.node m) :=
    fits_of_accepts (accepts_of_isFromClause (.inl hs) (Node.isFromClause_of_subquery h))
  unfold selectInFrom
  split
  · refine .ite (fun _ => .ite (fun _ => ends_node (Node.ends_subquery _ _) taken) fun _ =>
      .ite (fun _ => .map (ends_implicitSubquery _) taken) fun _ => .throw trivial) fun _ => ?_
    refine .ite (fun text => .pure (fits_of_accepts ?_)) fun _ => .throw trivial
    rw [hs]
    exact accepts_of_isText text
  · exact .throw trivial

theorem fits_selectInStrictFrom
    (hs : site.role = .strictFromClause ∨ site.role = .anonymizedFromClause) :
    EndsOver (site.selectInStrictFrom given resolved) site.Fits Error.IsPrompt := by
  unfold selectInStrictFrom
  split
  · refine .ite (fun _ => (ends_implicitSubquery _).bind fun m hm => ?_) fun _ => .throw trivial
    have taken := accepts_of_isFromClause (.inr hs) (Node.isFromClause_of_subquery hm)
    exact .ite (fun _ => fits_settle taken) fun _ => .pure (fits_of_accepts taken)
  · exact .throw trivial

/-- What a role makes of something that it does not take fits. -/
theorem fits_convert (h : ∀ n, resolved = .node n → site.role.accepts n = false)
    (names : site.role = .truncatedLabel → ∀ n, resolved ≠ .node n) :
    EndsOver (site.convert given resolved) site.Fits Error.IsPrompt := by
  rcases site with ⟨role, args⟩
  unfold convert
  dsimp only
  cases role with
  | expressionElement | binaryElement | whereHaving | byOf | orderBy =>
    exact fits_scalar fun n ⟨_, hn⟩ => accepts_of_kind hn rfl
  | inElement =>
    dsimp only
    split
    · refine .ite (fun _ => ends_raise.bind fun _ _ => ?_) fun _ => .throw trivial
      exact (EndsOver.lift (Node.ends_selectBehind _)).bind fun m hm =>
        fits_settle (accepts_of_isSelectStatement (.inl rfl) hm.1)
    · exact .throw trivial
  | onClause =>
    have single : EndsOver ((⟨.onClause, args⟩ : Site).scalar given resolved)
        (Fits ⟨.onClause, args⟩) Error.IsPrompt :=
      fits_scalar fun n ⟨_, hn⟩ => accepts_of_kind hn rfl
    dsimp only
    split
    · exact .ite (fun _ => .pure fits_key) fun _ => single
    · exact single
  | columnArgumentOrKey | dmlColumn | ddlConstraintColumn | ddlReferredColumn =>
    exact fits_givenKey
  | groupBy =>
    dsimp only
    split
    · next n =>
      refine .ite (fun _ => ?_) fun plain => .pure (fits_of_overlooks ?_)
      · refine (EndsOver.lift (Node.ends_columns _)).bind fun _ _ => ?_
        exact ends_node (ends_typed _ _) fun m hm => fits_of_accepts (accepts_of_kind hm rfl)
      · -- what is neither a value nor a row source nor text is a statement
        have untaken := h n rfl
        rcases n with ⟨id, kind, type, annotations, diagnostics⟩
        cases kind <;>
          first | exact .inl rfl | exact .inr rfl | exact absurd rfl plain | exact nomatch untaken
    · next plain => exact .pure (fits_of_not_node plain)
  | truncatedLabel =>
    dsimp only
    split
    · exact .pure (fits_of_not_node (names rfl))
    · exact .throw trivial
  | limitOffset =>
    dsimp only
    split
    · exact .pure (fits_of_not_node fun n hn => by cases hn)
    · exact .throw trivial
  | labeledColumnExpr => exact fits_labelled rfl
  | selectStatement =>
    dsimp only
    split
    · refine .ite (fun _ => ?_) fun _ => .throw trivial
      exact ends_node (ends_typed _ _) fun m hm => fits_of_accepts (accepts_of_kind hm rfl)
    · exact .throw trivial
  | joinTarget => exact .ite (fun legacy => fits_legacyTarget legacy) fun _ => .throw trivial
  | fromClause => exact fits_selectInFrom rfl
  | strictFromClause => exact fits_selectInStrictFrom (.inl rfl)
  | anonymizedFromClause => exact fits_selectInStrictFrom (.inr rfl)
  | dmlSelect =>
    dsimp only
    split
    · refine .ite (fun _ => ?_) fun _ => .throw trivial
      exact ends_node (Node.ends_selectBehind _) fun m hm =>
        fits_of_accepts (accepts_of_isSelectStatement (.inr rfl) hm.1)
    · exact .throw trivial
  | literalValue =>
    dsimp only
    split
    · exact ends_node (ends_typed _ _) fun _ _ => fun h => absurd rfl h
    · exact .throw trivial
  | _ => exact .throw trivial

/-- A coercion is put off until a statement is compiled, or else what the input stands for is
settled or converted. -/
theorem endsOver_coerce {Q : Coerced → Prop}
    (stands : EndsOver (site.resolve input) P Error.IsEarly)
    (later : ∀ (m : Node) (lambda : Lambda), site.role.allowsLambda = true →
      m.kind = .deferred lambda site.role → m.diagnostics = [] → Q (.node m))
    (settled : ∀ n, P (.node n) → site.role.accepts n = true →
      EndsOver (site.settle input n) Q Error.IsEarly)
    (converted : ∀ resolved, P resolved →
      (∀ n, resolved = .node n → site.role.accepts n = false) →
        EndsOver (site.convert input resolved) Q Error.IsEarly) :
    EndsOver (site.coerce input) Q Error.IsEarly := by
  unfold coerce
  split
  case' h_1 lambda =>
    refine .ite (fun allowed => ends_node (Build.ends_reported _ _ []) fun m hm =>
      later m lambda allowed hm.1 hm.2.2) fun _ => ?_
  all_goals
    refine stands.bind fun resolved h => ?_
    cases resolved with
    | node n =>
      refine .ite (fun taken => settled n h taken) fun untaken => converted _ h fun m hm => ?_
      cases hm
      exact Bool.eq_false_iff.2 untaken
    | _ => exact converted _ h fun n hn => by cases hn

/-- What a coercion gives fits, and it fails before anything is rendered. -/
theorem fits_coerce : EndsOver (site.coerce input) site.Fits Error.IsEarly := by
  refine endsOver_coerce ends_resolve (fun m lambda allowed hm _ => fits_of_accepts ?_)
    (fun n _ taken => (fits_settle taken).early)
    fun resolved names untaken => (fits_convert untaken names).early
  unfold Role.accepts Node.isDeferred
  rw [hm]
  exact allowed

end Site

theorem fits_expect (role : Role) (input : Input) (args : CoercionArgs) :
    Ends (expect role input args) (fun c => (⟨role, args⟩ : Site).Fits c.value) Error.IsEarly :=
  (Site.fits_coerce []).bind fun _ h => .pure h

theorem ends_coerceNode (role : Role) (input : Input) (args : CoercionArgs) :
    Ends (coerceNode role input args) (fun _ => True) Error.IsEarly := by
  refine (fits_expect role input args).bind fun coercion _ => ?_
  split
  · exact .pure trivial
  · exact .throw trivial

namespace Site

variable {site : Site} {n : Node}

/-- A node that the role takes is not converted. -/
theorem coerce_of_accepts (h : site.role.accepts n = true) :
    site.coerce (.node n) = site.settle (.node n) n := by
  have plain : site.role.isLiteralOnly = false := by
    rcases site with ⟨role, args⟩
    cases role <;> first | rfl | skip
    all_goals
      unfold Role.accepts at h
      split at h <;> cases h
  unfold coerce resolve
  rw [plain]
  show (if site.role.accepts n then _ else _) = _
  rw [if_pos h]

/-- Parentheses are refused where the list of an IN expression is expected. -/
theorem coerce_grouping (args : CoercionArgs) {element : Node} (h : n.kind = .grouping element) :
    (⟨.inElement, args⟩ : Site).coerce (.node n) =
      throw ((⟨.inElement, args⟩ : Site).unexpected (.node n) (some (.node n))) := by
  have overlooked : Role.Overlooks .inElement n := ⟨element, h⟩
  have untaken : Role.accepts .inElement n = false := overlooked.not_accepts
  have source : n.isFromClause = false := by rw [Node.isFromClause, h]
  show (if Role.accepts .inElement n then _ else _) = _
  rw [untaken]
  show (if n.isFromClause then _ else _) = _
  rw [source]
  rfl

end Site

variable {role : Role} {input : Input} {args : CoercionArgs} {n : Node}
  {diagnostics : List Diagnostic} {next next' : Identity}

/-- A node that a coercion gives is taken by the role, unless it is the list of an IN expression in
parentheses or a statement in GROUP BY.  At another place of the role a node that is taken goes
straight to the last step, and the list in parentheses is refused. -/
theorem accepts_iff_of_expect (plain : role ≠ .literalValue) (legacy : args.legacy = false)
    (h : expect role input args next = .ok (⟨.node n, diagnostics⟩, next')) :
    (role.accepts n = true ↔ ¬role.Overlooks n) ∧
      (role.accepts n = true → ∀ args' : CoercionArgs,
        (⟨role, args'⟩ : Site).coerce (.node n) = (⟨role, args'⟩ : Site).settle (.node n) n) ∧
      (role = .inElement → role.Overlooks n → ∀ (args' : CoercionArgs) (next : Identity),
        expect role (.node n) args' next =
          .error ((⟨role, args'⟩ : Site).unexpected (.node n) (some (.node n)))) := by
  have fits := (fits_expect role input args).result h plain legacy n rfl
  refine ⟨Role.accepts_iff_not_overlooks fits, fun taken args' => ?_, ?_⟩
  · exact Site.coerce_of_accepts taken
  · rintro rfl ⟨element, hn⟩ args' next
    unfold expect
    rw [Site.coerce_grouping args' hn]
    rfl

/-- A list of plain values is one parameter, which is taken. -/
theorem accepts_of_expect_values :
    ∃ n next',
      expect .inElement (.list [.integer 1, .integer 2]) {} 0 = .ok (⟨.node n, []⟩, next') ∧
      (Role.accepts .inElement n = true ↔ ¬Role.Overlooks .inElement n) := by
  have plain : Role.inElement ≠ .literalValue := by decide
  have taken := @accepts_iff_of_expect .inElement (.list [.integer 1, .integer 2]) {} _ [] 0 1
    plain rfl rfl
  exact ⟨_, _, rfl, taken.1⟩

/-- A list with NULL comes out in parentheses and a SELECT in GROUP BY as it is, and neither is
taken by its role.  Where the list goes a second time it is refused. -/
theorem not_accepts_of_expect :
    (∃ n next', expect .inElement (.list [.integer 1, .nothing]) {} 0 = .ok (⟨.node n, []⟩, next') ∧
      Role.accepts .inElement n = false ∧
      ∃ e, expect .inElement (.node n) {} next' = .error e) ∧
    ∃ n next', expect .groupBy (.node ⟨0, .select .empty, .null, [], []⟩) {} 1 =
        .ok (⟨.node n, []⟩, next') ∧ Role.accepts .groupBy n = false :=
  ⟨⟨_, _, rfl, rfl, _, rfl⟩, _, _, rfl, rfl⟩

end SqlAlgebra
