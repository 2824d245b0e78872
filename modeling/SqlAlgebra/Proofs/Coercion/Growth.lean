import SqlAlgebra.Coercion.Expect
import SqlAlgebra.Proofs.Tree.Transform

/-!
# What a coercion builds

A coercion puts nodes together from the nodes that its input mentions and from new ones.  So what a
place in a statement takes is made of nodes that exist, and it is coherent if these are.
-/

namespace SqlAlgebra

open Build (Grows GrowsOver Made grows_typed grows_untyped grows_copy)

variable {K : Heap} {n : Node}

namespace Node

/-! ## Row sources -/

theorem grows_boundColumn {name : String} {type : SqlType} (h : K n) :
    Grows K (n.boundColumn name type) Made := by
  refine grows_typed fun c hc => ?_
  obtain rfl : c = n := by simpa [Kind.children] using hc
  exact h

/-- The FROM elements whose columns a row source declares are among its nodes. -/
theorem occurs_of_mem_declaredColumns {source : Node} {column : ColumnShape}
    (h : (source, column) ∈ n.declaredColumns) : Occurs source n := by
  induction n using Node.induct with
  | step n ih =>
    rw [declaredColumns] at h
    split at h
    · next j kind =>
      rcases List.mem_append.1 h with h | h
      · have hc : j.left ∈ n.children := by simp [children, kind, Kind.children]
        exact .deeper hc (ih _ hc h)
      · have hc : j.right ∈ n.children := by simp [children, kind, Kind.children]
        exact .deeper hc (ih _ hc h)
    · split at h
      · obtain ⟨_, -, eq⟩ := List.mem_map.1 h
        obtain ⟨rfl, -⟩ := Prod.mk.inj eq
        exact .root
      · cases h

theorem grows_columns (h : K n) : Grows K n.columns fun K' ns => ∀ c ∈ ns, K' c := by
  refine .of_closed fun closed => Grows.mapM (fun _ _ _ keeps => keeps _)
    fun K' keeps entry hentry => ?_
  rcases entry with ⟨source, name, type⟩
  have inside {x y : Node} (hxy : Occurs x y) (hy : K y) : K x := by
    induction hxy with
    | root => exact hy
    | deeper hc _ ih => exact ih (closed hy _ hc)
  exact grows_boundColumn (keeps _ (inside (occurs_of_mem_declaredColumns hentry) h))

theorem grows_selectAll (h : K n) : Grows K n.selectAll Made := by
  refine grows_untyped fun c hc => ?_
  obtain rfl : c = n := by simpa [Kind.children, Select.children, Select.empty] using hc
  exact h

theorem grows_select (h : K n) : Grows K n.select Made :=
  .ite (grows_selectAll h) (.fail _)

theorem grows_single {kind : Kind Node} {type : SqlType} (hk : kind.children = [n]) (h : K n) :
    Grows K (Build.typed kind type) Made := by
  refine grows_typed fun c hc => ?_
  rw [hk, List.mem_singleton] at hc
  exact hc ▸ h

theorem grows_subquery {name : Option String} (h : K n) : Grows K (n.subquery name) Made :=
  .ite (grows_single rfl h) (.fail _)

theorem grows_scalarSubquery (h : K n) : Grows K n.scalarSubquery Made :=
  .ite (grows_single rfl h) (.fail _)

theorem grows_anonymousLabel (h : K n) : Grows K n.anonymousLabel Made := grows_single rfl h

theorem grows_aliased {name : Option String} (h : K n) : Grows K (n.aliased name) Made := by
  refine .of_closed fun closed => ?_
  unfold aliased
  split
  · exact grows_single rfl h
  · next element _ kind =>
    exact grows_single rfl (closed h element (by simp [children, kind, Kind.children]))
  · next element _ kind =>
    exact grows_single rfl (closed h element (by simp [children, kind, Kind.children]))
  · exact (grows_selectAll h).bind fun _ _ _ hall => grows_single rfl hall
  · exact .ite (grows_single rfl h) (.fail _)

theorem grows_selectBehind (h : K n) : Grows K n.selectBehind Made := by
  refine .of_closed fun closed => ?_
  unfold selectBehind
  split
  · next element _ kind =>
    exact .ite (.pure (closed h element (by simp [children, kind, Kind.children]))) (grows_select h)
  · next element _ kind =>
    exact .ite (.pure (closed h element (by simp [children, kind, Kind.children]))) (grows_select h)
  · exact grows_select h

theorem grows_retyped {type : SqlType} (h : K n) : Grows K (Build.retyped n type) Made :=
  .of_closed fun closed => .ite (.pure h) (grows_copy fun c hc => closed h c hc)

theorem grows_deannotate (h : K n) : Grows K n.deannotate Made :=
  .of_closed fun closed => .ite (.pure h) (grows_copy fun c hc => closed h c hc)

theorem grows_deepDeannotate (h : K n) : Grows K n.deepDeannotate Made := by
  unfold deepDeannotate
  refine Grows.bind (growsOver_transform (P := fun _ => True) ?_ ?_ h ()) fun _ _ _ hout =>
    .pure hout.1
  · exact fun _ _ _ _ => .pure fun r hr => by cases hr
  · intro K n news _ hn _ hnews length
    refine GrowsOver.mono (P := Made) ?_ fun _ _ hout => ⟨hout, trivial⟩
    split
    · exact .lift (grows_deannotate hn)
    · next changed made =>
      unfold withChildren? at made
      split at made
      · cases made
      · cases made
        refine .lift (grows_copy fun c hc => (hnews c ?_).1)
        have : (n.kind.refill news).children = news := Kind.children_refill length
        rwa [← this]

/-! ## Anonymous FROM elements -/

theorem grows_repointColumns {replaced : List (Node × Node)} (hreplaced : ∀ p ∈ replaced, K p.2)
    (h : K n) : Grows K (repointColumns replaced n) Made := by
  unfold repointColumns
  refine Grows.bind (growsOver_substitute (P := fun _ => True) ?_ (fun _ _ _ _ _ _ => trivial) h ())
    fun _ _ _ hout => .pure hout.1
  intro K' n keeps hn
  split
  · split
    · next new found =>
      have hnew : K' new := keeps _ (hreplaced _ (List.mem_of_find?_eq_some found))
      refine GrowsOver.map (.lift (grows_single (n := new) rfl hnew)) fun _ _ hout r hr => ?_
      cases hr
      exact ⟨hout, trivial⟩
    · exact .pure fun r hr => by cases hr
  · exact .pure fun r hr => by cases hr

theorem grows_anonymizeSides (h : K n) :
    Grows K n.anonymizeSides fun K' p => K' p.1 ∧ ∀ q ∈ p.2, K' q.2 := by
  induction n using Node.induct generalizing K with
  | step n ih =>
    refine .of_closed fun closed => ?_
    rw [anonymizeSides]
    split
    · next j kind =>
      have hl : j.left ∈ n.children := by simp [children, kind, Kind.children]
      have hr : j.right ∈ n.children := by simp [children, kind, Kind.children]
      have ho : j.on ∈ n.children := by simp [children, kind, Kind.children]
      refine (ih _ hl (closed h _ hl)).bind fun K₁ left keeps₁ hleft => ?_
      refine (ih _ hr (keeps₁ _ (closed h _ hr))).bind fun K₂ right keeps₂ hright => ?_
      have hboth : ∀ q ∈ left.2 ++ right.2, K₂ q.2 := fun q hq =>
        (List.mem_append.1 hq).elim (fun hq => keeps₂ _ (hleft.2 q hq)) (hright.2 q)
      refine (grows_repointColumns hboth (keeps₂ _ (keeps₁ _ (closed h _ ho)))).bind
        fun K₃ on keeps₃ hon => ?_
      refine (grows_untyped fun c hc => ?_).bind fun K₄ joined keeps₄ hjoined =>
        .pure ⟨hjoined, fun q hq => keeps₄ _ (keeps₃ _ (hboth q hq))⟩
      obtain rfl | rfl | rfl : c = left.1 ∨ c = right.1 ∨ c = on := by
        simpa [Kind.children] using hc
      · exact keeps₃ _ (keeps₂ _ hleft.1)
      · exact keeps₃ _ hright.1
      · exact hon
    · refine (grows_aliased h).bind fun K' new _ hnew => .pure ⟨hnew, fun q hq => ?_⟩
      rw [List.mem_singleton.1 hq]
      exact hnew

theorem grows_anonymize {flat : Bool} {name : Option String} (h : K n) :
    Grows K (n.anonymize flat name) Made := by
  unfold anonymize
  split
  · exact .ite ((grows_anonymizeSides h).bind fun _ _ _ hp => .pure hp.1) (grows_aliased h)
  · exact grows_aliased h

end Node

/-! ## Inputs -/

/-- The nodes that an input mentions. -/
inductive Input.Mentions (n : Node) : Input → Prop where
  | node : Mentions n (.node n)
  | item {item : Input} {items : List Input} :
      item ∈ items → Mentions n item → Mentions n (.list items)
  | entry {key : String} {value : Input} {entries : List (String × Input)} :
      (key, value) ∈ entries → Mentions n value → Mentions n (.mapping entries)
  | target {repr : String} {target : Input} :
      Mentions n target → Mentions n (.element repr (some target))
  | handle {repr : String} : Mentions n (.handle repr (.element n))

/-- Whether all nodes that an input mentions exist. -/
def Input.Within (K : Heap) (input : Input) : Prop := ∀ ⦃n : Node⦄, input.Mentions n → K n

/-- Whether a node that a coercion gave exists. -/
def Coerced.Within (K : Heap) : Coerced → Prop
  | .node n => K n
  | _ => True

namespace Site

variable {site : Site} {input given : Input} {resolved : Coerced}

/-- A conversion that builds a node. -/
theorem grows_node {x : Build Node} (h : Grows K x Made) :
    GrowsOver K (Coerced.node <$> (liftM x : Coerce Node)) (Coerced.Within ·) :=
  .map (.lift h) fun _ _ h => h

theorem grows_atom {kind : Kind Node} {type : SqlType} (h : kind.children = []) :
    Grows K (Build.typed kind type) Made :=
  grows_typed fun c hc => by rw [h] at hc; cases hc

theorem grows_raise {kind : DiagnosticKind} {message : String} :
    GrowsOver K (site.raise kind message) fun _ _ => True := by
  unfold raise
  split
  · exact .pure trivial
  · exact .throw _
  · exact .modify _ trivial

/-! ## Plain values -/

theorem grows_paramAgainst {left : Option Node} {value : Value} {isExpanding : Bool} :
    Grows K (Build.paramAgainst left value isExpanding) Made := grows_atom rfl

theorem grows_rejectPlain : GrowsOver K (site.rejectPlain input) (Coerced.Within ·) := by
  unfold rejectPlain
  split
  · exact .ite (.throw _) (.throw _)
  · exact .throw _

theorem grows_stringKey : GrowsOver K (site.stringKey input) (Coerced.Within ·) := by
  unfold stringKey
  split
  · exact .pure trivial
  · exact .throw _

theorem grows_expressionLiteral :
    GrowsOver K (site.expressionLiteral input) (Coerced.Within ·) := by
  unfold expressionLiteral
  split
  · exact grows_node (grows_atom rfl)
  · split
    · exact grows_node (grows_atom rfl)
    · exact .throw _

theorem grows_constant {taken : Constants} {onText : String → Coerce Coerced}
    (h : ∀ s, GrowsOver K (onText s) (Coerced.Within ·)) :
    GrowsOver K (site.constant taken onText input) (Coerced.Within ·) := by
  unfold constant
  split
  · exact .ite (grows_node (grows_atom rfl)) (h _)
  · exact .ite (grows_node (grows_atom rfl)) (.throw _)
  · exact .ite (grows_node (grows_atom rfl)) (.throw _)
  · exact .ite (grows_node (grows_atom rfl)) (.throw _)
  · exact .ite (grows_node (grows_atom rfl)) (.throw _)
  · exact .throw _

theorem grows_listClause {whole item : Input} (h : item.Within K) :
    GrowsOver K (site.listClause whole item) Made := by
  unfold listClause
  split
  · exact .lift (grows_atom rfl)
  · exact .pure (h .node)
  · split
    · exact .lift grows_paramAgainst
    · exact .throw _

theorem grows_listLiteral (h : input.Within K) :
    GrowsOver K (site.listLiteral input) (Coerced.Within ·) := by
  unfold listLiteral
  split
  · next items =>
    refine .ite (.throw _) (.ite ?_ ?_)
    · split
      · exact grows_node grows_paramAgainst
      · exact .throw _
    · refine (GrowsOver.mapM (Q := Made) (fun _ _ n keeps => keeps n) fun K' keeps item hitem =>
        grows_listClause fun n hn => keeps n (h (.item hitem hn))).bind
          fun K' clauses _ hclauses => ?_
      exact grows_node (grows_untyped hclauses)
  · exact .throw _

theorem grows_limitLiteral : GrowsOver K (site.limitLiteral input) (Coerced.Within ·) := by
  unfold limitLiteral
  dsimp only
  split
  · exact .pure trivial
  · exact grows_node (grows_atom rfl)
  · exact .throw _

theorem grows_literal (h : input.Within K) :
    GrowsOver K (site.literal input) (Coerced.Within ·) := by
  unfold literal
  cases site.role with
  | expressionElement | labeledColumnExpr => exact grows_expressionLiteral
  | binaryElement =>
    dsimp only
    split
    · exact grows_node grows_paramAgainst
    · exact .throw _
  | inElement => exact grows_listLiteral h
  | onClause =>
    refine grows_constant fun s => .ite ?_ (.throw _)
    exact grows_raise.bind fun _ _ _ _ => .pure trivial
  | whereHaving | columnsClause => exact grows_constant fun s => .throw _
  | statementOption | ddlExpression | strAsPlainColumn | byOf | orderBy | groupBy =>
    exact grows_constant fun s => grows_node (grows_atom rfl)
  | columnArgumentOrKey | dmlColumn | truncatedLabel | ddlConstraintColumn | ddlReferredColumn
  | joinTarget => exact grows_stringKey
  | constExpr =>
    dsimp only
    split
    · exact grows_node (grows_atom rfl)
    · exact grows_node (grows_atom rfl)
    · exact .throw _
  | limitOffset => exact grows_limitLiteral
  | returnsRows => exact .throw _
  | statement =>
    exact grows_constant fun s => grows_raise.bind fun _ _ _ _ => grows_node (grows_atom rfl)
  | columnArgument | selectStatement | fromClause | strictFromClause | anonymizedFromClause
  | dmlTable | dmlSelect | compoundElement => exact grows_rejectPlain
  | literalValue =>
    dsimp only
    split
    · exact .pure trivial
    · exact .throw _

/-! ## Nodes -/

theorem grows_membership (h : K n) : GrowsOver K (membership n) (Coerced.Within ·) := by
  unfold membership
  refine .ite (grows_node (Node.grows_scalarSubquery h)) ?_
  split
  · exact .ite (.lift (.fail _)) (grows_node (Node.grows_single rfl h))
  · exact .ite (.pure h) (grows_node (grows_atom rfl))
  · exact .pure h

theorem grows_settle (h : K n) : GrowsOver K (site.settle given n) (Coerced.Within ·) := by
  have itself : GrowsOver K (pure (.node n) : Coerce Coerced) (Coerced.Within ·) := .pure h
  unfold settle
  cases site.role with
  | binaryElement =>
    dsimp only
    split
    · exact .ite (grows_node (Node.grows_retyped h)) itself
    · exact itself
  | inElement => exact grows_membership h
  | orderBy => exact .ite (grows_node (Node.grows_single rfl h)) itself
  | dmlColumn =>
    refine .ite ?_ itself
    split
    · exact .pure trivial
    · exact .pure trivial
    · exact .throw _
  | ddlExpression | ddlConstraintColumn | ddlReferredColumn =>
    exact grows_node (Node.grows_deepDeannotate h)
  | fromClause | strictFromClause => exact .ite (grows_node (Node.grows_deannotate h)) itself
  | anonymizedFromClause => exact grows_node (Node.grows_anonymize h)
  | _ => exact itself

theorem grows_scalar (h : resolved.Within K) :
    GrowsOver K (site.scalar given resolved) (Coerced.Within ·) := by
  unfold scalar
  split
  · next n =>
    refine .ite (grows_raise.bind fun _ _ keeps _ =>
      grows_node (Node.grows_scalarSubquery (keeps n h))) ?_
    split
    · next element _ kind =>
      refine grows_raise.bind fun K' _ keeps _ => grows_node (.of_closed fun closed => ?_)
      exact Node.grows_scalarSubquery
        (closed (keeps n h) element (by simp [Node.children, kind, Kind.children]))
    · exact .throw _
  · exact .throw _

theorem grows_givenKey : GrowsOver K (site.givenKey given resolved) (Coerced.Within ·) := by
  unfold givenKey
  split
  · exact .pure trivial
  · exact .throw _

theorem grows_implicitSubquery (h : K n) : GrowsOver K (site.implicitSubquery n) Made :=
  grows_raise.bind fun _ _ keeps _ => .lift (Node.grows_subquery (keeps n h))

theorem grows_labelled (h : resolved.Within K) :
    GrowsOver K (site.labelled given resolved) (Coerced.Within ·) := by
  have scalarLabel : GrowsOver K (do
      let converted ← site.scalar given resolved
      match converted with
      | .node n =>
        if n.isColumnElement then .node <$> n.anonymousLabel
        else throw (site.unexpected given (some converted))
      | _ => throw (site.unexpected given (some converted))) (Coerced.Within ·) := by
    refine (grows_scalar h).bind fun K' converted _ hconverted => ?_
    split
    · exact .ite (grows_node (Node.grows_anonymousLabel hconverted)) (.throw _)
    · exact .throw _
  unfold labelled
  dsimp only
  split
  · exact .ite (grows_node (Node.grows_anonymousLabel h)) scalarLabel
  · exact scalarLabel

theorem grows_legacyTarget (h : resolved.Within K) :
    GrowsOver K (site.legacyTarget given resolved) (Coerced.Within ·) := by
  unfold legacyTarget
  split
  · exact grows_raise.bind fun _ _ _ _ => .pure trivial
  · exact .ite (.pure h) (.ite (.map (grows_implicitSubquery h) fun _ _ h => h) (.throw _))
  · exact .throw _

theorem grows_selectInFrom (h : resolved.Within K) :
    GrowsOver K (site.selectInFrom given resolved) (Coerced.Within ·) := by
  unfold selectInFrom
  split
  · refine .ite (.ite (grows_node (Node.grows_subquery h)) (.ite ?_ (.throw _)))
      (.ite (.pure h) (.throw _))
    exact .map (grows_implicitSubquery h) fun _ _ h => h
  · exact .throw _

theorem grows_selectInStrictFrom (h : resolved.Within K) :
    GrowsOver K (site.selectInStrictFrom given resolved) (Coerced.Within ·) := by
  unfold selectInStrictFrom
  split
  · refine .ite ((grows_implicitSubquery h).bind fun _ _ _ hsub => ?_) (.throw _)
    exact .ite (grows_settle hsub) (.pure hsub)
  · exact .throw _

theorem grows_convert (h : resolved.Within K) :
    GrowsOver K (site.convert given resolved) (Coerced.Within ·) := by
  unfold convert
  dsimp only
  cases site.role with
  | expressionElement | binaryElement | whereHaving | byOf | orderBy => exact grows_scalar h
  | inElement =>
    dsimp only
    split
    · refine .ite (grows_raise.bind fun _ _ keeps _ => ?_) (.throw _)
      exact (GrowsOver.lift (Node.grows_selectBehind (keeps _ h))).bind fun _ _ _ hselect =>
        grows_settle hselect
    · exact .throw _
  | onClause =>
    dsimp only
    split
    · exact .ite (.pure trivial) (grows_scalar h)
    · exact grows_scalar h
  | columnArgumentOrKey | dmlColumn | ddlConstraintColumn | ddlReferredColumn =>
    exact grows_givenKey
  | groupBy =>
    dsimp only
    split
    · refine .ite ?_ (.pure h)
      exact (GrowsOver.lift (Node.grows_columns h)).bind fun _ _ _ hcolumns =>
        grows_node (grows_untyped hcolumns)
    · exact .pure h
  | truncatedLabel =>
    dsimp only
    split
    · exact .pure h
    · exact .throw _
  | limitOffset =>
    dsimp only
    split
    · exact .pure trivial
    · exact .throw _
  | labeledColumnExpr => exact grows_labelled h
  | selectStatement =>
    dsimp only
    split
    · exact .ite (grows_node (Node.grows_single rfl h)) (.throw _)
    · exact .throw _
  | joinTarget => exact .ite (grows_legacyTarget h) (.throw _)
  | fromClause => exact grows_selectInFrom h
  | strictFromClause | anonymizedFromClause => exact grows_selectInStrictFrom h
  | dmlSelect =>
    dsimp only
    split
    · exact .ite (grows_node (Node.grows_selectBehind h)) (.throw _)
    · exact .throw _
  | literalValue =>
    dsimp only
    split
    · exact grows_node (grows_atom rfl)
    · exact .throw _
  | _ => exact .throw _

/-! ## The whole coercion -/

theorem mentions_of_follow {steps : Nat} {input : Input} (h : input.follow steps = some (.node n)) :
    input.Mentions n := by
  induction steps generalizing input with
  | zero =>
    cases input <;> simp only [Input.follow, Option.some.injEq, reduceCtorEq, Input.node.injEq] at h
    exact h ▸ .node
  | succ steps ih =>
    cases input with
    | element repr target =>
      cases target with
      | none => exact nomatch ih h
      | some target => exact .target (ih h)
    | node m =>
      cases h
      exact .node
    | _ => cases h

theorem grows_unwrap (h : input.Within K) :
    GrowsOver K (site.unwrap input) (Coerced.Within ·) := by
  unfold unwrap
  split
  · next found => exact .pure (h (mentions_of_follow found))
  · exact .throw _
  · exact .lift (.fail _)

theorem grows_resolve (h : input.Within K) :
    GrowsOver K (site.resolve input) (Coerced.Within ·) := by
  unfold resolve
  refine .ite (grows_literal h) ?_
  split
  · exact .pure (h .node)
  · exact grows_unwrap h
  · refine .ite ?_ (grows_literal h)
    split
    · exact .pure (h .handle)
    · exact .throw _
    · exact grows_literal h
  · exact grows_literal h

theorem grows_coerce (h : input.Within K) :
    GrowsOver K (site.coerce input) (Coerced.Within ·) := by
  have convert : GrowsOver K (do
      let resolved ← site.resolve input
      match resolved with
      | .node n => if site.role.accepts n then site.settle input n else site.convert input resolved
      | _ => site.convert input resolved) (Coerced.Within ·) := by
    refine (grows_resolve h).bind fun K' resolved _ hresolved => ?_
    split
    · exact .ite (grows_settle hresolved) (grows_convert hresolved)
    · exact grows_convert hresolved
  unfold coerce
  split
  · exact .ite (grows_node (grows_atom rfl)) convert
  · exact convert

end Site

theorem grows_expect {role : Role} {input : Input} {args : CoercionArgs} (h : input.Within K) :
    Grows K (expect role input args) fun K' coercion => coercion.value.Within K' :=
  Grows.bind (Site.grows_coerce h []) fun _ _ _ hvalue => .pure hvalue

/-- What an input is coerced to is put together from the nodes that the input mentions and new
ones. -/
theorem grows_coerceNode {role : Role} {input : Input} {args : CoercionArgs} (h : input.Within K) :
    Grows K (coerceNode role input args) fun K' made => K' made.1 := by
  refine (grows_expect h).bind fun K' coercion _ hvalue => ?_
  split
  · next made =>
    rw [made] at hvalue
    exact .pure hvalue
  · exact .fail _

end SqlAlgebra
