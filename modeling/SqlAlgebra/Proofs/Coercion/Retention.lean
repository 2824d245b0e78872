import SqlAlgebra.Proofs.Coercion.Acceptance

/-!
# What a coercion keeps of its operand

What is reported while a node is built stays on it, so a tree reports what its nodes do.  Where an
operand is coerced, its node stands as it is in what comes out, or below a node that wraps it, and
all that it reports is kept.  A few conversions take a wrapper off: the subquery of a SELECT that
becomes a single value, the alias of one that goes into IN or INSERT, the parameter that is made an
expanding one.  What was reported about such a wrapper itself is not passed on.
-/

namespace SqlAlgebra

open Build (Ends EndsOver ends_typed)

namespace Node

variable {m n : Node} {d : Diagnostic}

/-- Whether something was reported about a node of a tree. -/
def Reports (n : Node) (d : Diagnostic) : Prop := ∃ x, Occurs x n ∧ d ∈ x.diagnostics

theorem Reports.of_child (h : n.Reports d) (hn : n ∈ m.children) : m.Reports d := by
  obtain ⟨x, hx, hd⟩ := h
  exact ⟨x, .deeper hn hx, hd⟩

theorem reports_iff : n.Reports d ↔ d ∈ n.diagnostics ∨ ∃ c ∈ n.children, c.Reports d := by
  constructor
  · rintro ⟨x, hx, hd⟩
    cases hx with
    | root => exact .inl hd
    | deeper hc hx => exact .inr ⟨_, hc, x, hx, hd⟩
  · rintro (hd | ⟨c, hc, hd⟩)
    · exact ⟨n, .root, hd⟩
    · exact hd.of_child hc

/-- The report of a tree depends on its children and on what is said about its root. -/
theorem Reports.congr (h : n.Reports d) (hk : m.kind = n.kind)
    (hm : m.diagnostics = n.diagnostics) : m.Reports d := by
  rw [reports_iff] at h ⊢
  rwa [hm, children, hk]

end Node

/-! ## Operands -/

/-- The nodes that an input hands over: itself, the node behind it, or those in a list. -/
def Input.operands (input : Input) : List Node :=
  match input with
  | .node n => [n]
  | .element _ _ =>
    match input.follow maxSteps with
    | some (.node n) => [n]
    | _ => []
  | .handle _ (.element n) => [n]
  | .list items => items.filterMap asNode?
  | _ => []

namespace Role

/-- The roles under which expressions and statements take their operands.  The others are asked for
keys and plain values, or by callers of the coercion itself. -/
def takesOperand : Role → Bool
  | .expressionElement | .binaryElement | .inElement | .onClause | .whereHaving | .orderBy
  | .groupBy | .limitOffset | .columnsClause | .joinTarget | .fromClause | .dmlTable | .dmlSelect
  | .compoundElement => true
  | _ => false

/-- The nodes that go into the tree for an operand: GROUP BY takes a FROM element for the columns
that it declares, and so the elements that these belong to. -/
def standIns (role : Role) (n : Node) : List Node :=
  if role = .groupBy ∧ n.isFromClause = true then n.declaredColumns.map Prod.fst else [n]

/-- Whether a role takes something out of a node and leaves the node itself: the columns of a FROM
element in GROUP BY, and the key of a column. -/
def dissolves (role : Role) (n : Node) : Bool :=
  !role.takesOperand || (role = .groupBy && n.isFromClause)

/-- Whether a role takes a wrapper off a node, so that only what is below it goes into the tree. -/
def unwraps (role : Role) (n : Node) : Bool :=
  match role, n.kind with
  | .expressionElement, .subquery _ _ | .binaryElement, .subquery _ _ | .onClause, .subquery _ _
  | .whereHaving, .subquery _ _ | .orderBy, .subquery _ _ => true
  | .inElement, .bind b => !b.isExpanding
  | .inElement, .alias element _ | .inElement, .subquery element _ | .dmlSelect, .alias element _
  | .dmlSelect, .subquery element _ => element.isSelectStatement
  | _, _ => false

end Role

/-- The nodes that an input hands over to a place with a role. -/
def Input.operandsAt (input : Input) (role : Role) : List Node :=
  if role.takesOperand then input.operands.flatMap role.standIns else []

namespace Site

variable {site : Site} {input given : Input} {resolved : Coerced} {m n x : Node} {d : Diagnostic}
  {P : Coerced → Prop}

/-- Whether a result is a node that reports all that another one does, but for what was reported
about the other one itself where the role takes it for a wrapper. -/
def Retains (site : Site) (n : Node) (resolved : Coerced) : Prop :=
  ∃ m, resolved = .node m ∧ ∀ d, n.Reports d →
    m.Reports d ∨ (site.role.unwraps n = true ∧ d ∈ n.diagnostics)

/-- A step whose results are of a kind. -/
abbrev Gives (x : Coerce Coerced) (P : Coerced → Prop) : Prop := EndsOver x P Error.IsEarly

theorem retains_of_reports (h : ∀ d, n.Reports d → m.Reports d) : site.Retains n (.node m) :=
  ⟨m, rfl, fun d hd => .inl (h d hd)⟩

theorem retains_self : site.Retains n (.node n) := retains_of_reports fun _ h => h

theorem retains_of_child (h : n ∈ m.children) : site.Retains n (.node m) :=
  retains_of_reports fun _ hd => hd.of_child h

theorem retains_of_congr (hk : m.kind = n.kind) (hd : m.diagnostics = n.diagnostics) :
    site.Retains n (.node m) :=
  retains_of_reports fun _ h => h.congr hk hd

/-- A wrapper whose children are kept. -/
theorem retains_of_unwraps (h : site.role.unwraps n = true)
    (hc : ∀ c ∈ n.children, ∀ d, c.Reports d → m.Reports d) : site.Retains n (.node m) := by
  refine ⟨m, rfl, fun d hd => ?_⟩
  rcases Node.reports_iff.1 hd with hd | ⟨c, hmem, hd⟩
  · exact .inr ⟨h, hd⟩
  · exact .inl (hc c hmem d hd)

theorem Retains.trans {c : Node} (h : site.Retains n (.node c)) (h' : site.Retains c resolved)
    (hc : site.role.unwraps c = false) : site.Retains n resolved := by
  obtain ⟨_, ⟨⟩, h⟩ := h
  obtain ⟨m, rfl, h'⟩ := h'
  refine ⟨m, rfl, fun d hd => ?_⟩
  rcases h d hd with hd | lost
  · refine (h' d hd).imp_right fun hu => ?_
    rw [hc] at hu
    exact absurd hu.1 Bool.false_ne_true
  · exact .inr lost

/-- No role takes a SELECT for a wrapper. -/
theorem unwraps_of_isSelectStatement {role : Role} (h : n.isSelectStatement = true) :
    role.unwraps n = false := by
  rcases n with ⟨id, kind, type, annotations, diagnostics⟩
  cases kind <;> first | (cases role <;> rfl) | cases h

/-! ## Conversions -/

/-- A conversion to a node of a kind. -/
theorem gives_typed {kind : Kind Node} {type : SqlType}
    (h : ∀ m : Node, m.kind = kind → P (.node m)) :
    Gives (Coerced.node <$> (liftM (Build.typed kind type) : Coerce Node)) P :=
  ends_node (ends_typed kind type) h

/-- A conversion to a node that wraps another one. -/
theorem retains_typed {kind : Kind Node} {type : SqlType} (h : kind.children = [n]) :
    Gives (Coerced.node <$> (liftM (Build.typed kind type) : Coerce Node)) (site.Retains n) := by
  refine gives_typed fun m hm => retains_of_child ?_
  rw [Node.children, hm, h]
  exact List.mem_singleton_self n

theorem retains_membership (hs : site.role = .inElement) :
    Gives (membership n) (site.Retains n) := by
  unfold membership
  refine .ite (fun _ => ?_) fun _ => ?_
  · refine ends_node n.ends_scalarSubquery.early fun m hm => retains_of_child ?_
    rw [Node.children, hm]
    exact List.mem_singleton_self n
  · split
    · exact .ite (fun _ => .lift (.throw trivial)) fun _ => retains_typed rfl
    · next b kind =>
      refine .ite (fun _ => .pure retains_self) fun h => gives_typed fun m _ => ?_
      refine retains_of_unwraps ?_ fun c hc => ?_
      · simpa [hs, Role.unwraps, kind] using h
      · rw [Node.children, kind] at hc
        cases hc
    · exact .pure retains_self

/-- The last step for a node that the role takes keeps what the node reports. -/
theorem retains_settle (hs : site.role.takesOperand = true) :
    Gives (site.settle given n) (site.Retains n) := by
  have itself : Gives (pure (.node n) : Coerce Coerced) (site.Retains n) := .pure retains_self
  rcases site with ⟨role, args⟩
  unfold settle
  cases role with
  | binaryElement =>
    dsimp only
    split
    · refine .ite (fun _ => ?_) fun _ => itself
      exact ends_node (n.ends_retyped _) fun m hm => retains_of_congr hm.1 hm.2
    · exact itself
  | inElement => exact retains_membership rfl
  | orderBy => exact .ite (fun _ => retains_typed rfl) fun _ => itself
  | fromClause =>
    refine .ite (fun _ => ?_) fun _ => itself
    exact ends_node n.ends_deannotate fun m hm => retains_of_congr hm.1 hm.2
  | expressionElement | onClause | whereHaving | groupBy | limitOffset | columnsClause | joinTarget
  | dmlTable | dmlSelect | compoundElement => exact itself
  | _ => cases hs

theorem retains_scalar
    (hs : ∀ n : Node, site.role.unwraps n = true ↔ ∃ e name, n.kind = .subquery e name) :
    Gives (site.scalar given (.node n)) (site.Retains n) := by
  unfold scalar
  dsimp only
  refine .ite (fun _ => ends_raise.early.bind fun _ _ => ?_) fun _ => ?_
  · refine ends_node n.ends_scalarSubquery.early fun m hm => retains_of_child ?_
    rw [Node.children, hm]
    exact List.mem_singleton_self n
  · split
    · next element name kind =>
      refine ends_raise.early.bind fun _ _ => ends_node element.ends_scalarSubquery.early fun m hm => ?_
      refine retains_of_unwraps ((hs n).2 ⟨element, name, kind⟩) fun c hc d hd => hd.of_child ?_
      rw [Node.children, kind] at hc
      rw [Node.children, hm]
      exact hc
    · exact .throw trivial

theorem retains_selectBehind
    (hs : ∀ n e : Node, ∀ name, (n.kind = .alias e name ∨ n.kind = .subquery e name) →
      e.isSelectStatement = true → site.role.unwraps n = true) :
    Ends n.selectBehind (fun m => m.isSelectStatement = true ∧ site.Retains n (.node m))
      Error.IsEarly := by
  refine n.ends_selectBehind.early.imp fun m hm => ⟨hm.1, ?_⟩
  rcases hm with ⟨select, ⟨name, kind⟩ | hm⟩
  · refine retains_of_unwraps (hs n m name kind select) fun c hc d hd => ?_
    have : c = m := by
      rcases kind with kind | kind <;>
      · rw [Node.children, kind] at hc
        exact List.mem_singleton.1 hc
    exact this ▸ hd
  · exact retains_of_child hm

theorem retains_implicitSubquery (n : Node) :
    EndsOver (site.implicitSubquery n) (fun m => site.Retains n (.node m)) Error.IsEarly := by
  refine ends_raise.early.bind fun _ _ => .lift ((n.ends_subquery none).early.imp fun m hm => ?_)
  refine retains_of_child ?_
  rw [Node.children, hm]
  exact List.mem_singleton_self n

theorem retains_legacyTarget :
    Gives (site.legacyTarget given (.node n)) (site.Retains n) := by
  unfold legacyTarget
  dsimp only
  refine .ite (fun _ => .pure retains_self) fun _ => .ite (fun _ => ?_) fun _ => .throw trivial
  exact .map (retains_implicitSubquery n) fun _ h => h

theorem retains_selectInFrom :
    Gives (site.selectInFrom given (.node n)) (site.Retains n) := by
  unfold selectInFrom
  dsimp only
  refine .ite (fun _ => .ite (fun _ => ?_) fun _ => .ite (fun _ => ?_) fun _ => .throw trivial)
    fun _ => .ite (fun _ => .pure retains_self) fun _ => .throw trivial
  · refine ends_node (n.ends_subquery none).early fun m hm => retains_of_child ?_
    rw [Node.children, hm]
    exact List.mem_singleton_self n
  · exact .map (retains_implicitSubquery n) fun _ h => h

/-! ## The whole coercion -/

theorem standIns_of_ne {role : Role} (h : role ≠ .groupBy) : role.standIns n = [n] :=
  if_neg fun hc => h hc.1

/-- What a role makes of a node that it does not take keeps what the node reports, or in GROUP BY
what the elements report whose columns stand for it. -/
theorem retains_convert (hs : site.role.takesOperand = true) (hx : x ∈ site.role.standIns n) :
    Gives (site.convert given (.node n)) (site.Retains x) := by
  rcases site with ⟨role, args⟩
  have same (h : role ≠ .groupBy) : x = n := by
    rw [standIns_of_ne h] at hx
    exact List.mem_singleton.1 hx
  unfold convert
  dsimp only
  cases role with
  | expressionElement | binaryElement | whereHaving | orderBy | onClause =>
    obtain rfl := same (by decide)
    refine retains_scalar fun n => ?_
    rcases n with ⟨id, kind, type, annotations, diagnostics⟩
    cases kind <;> simp [Role.unwraps]
  | inElement =>
    obtain rfl := same (by decide)
    refine .ite (fun _ => ends_raise.early.bind fun _ _ => ?_) fun _ => .throw trivial
    have behind : Ends x.selectBehind (fun m => m.isSelectStatement = true ∧
        (⟨.inElement, args⟩ : Site).Retains x (.node m)) Error.IsEarly :=
      retains_selectBehind fun n e name kind h => by
        rcases kind with kind | kind <;> simpa [Role.unwraps, kind] using h
    refine (EndsOver.lift behind).bind fun select hselect => ?_
    refine (retains_settle rfl).imp fun resolved h => hselect.2.trans h ?_
    exact unwraps_of_isSelectStatement hselect.1
  | groupBy =>
    dsimp only
    refine .ite (fun h => ?_) fun h => ?_
    · refine (EndsOver.lift n.ends_columns).bind fun columns hcolumns => ?_
      refine gives_typed fun m hm => ?_
      rw [Role.standIns, if_pos ⟨rfl, h⟩] at hx
      obtain ⟨entry, hentry, rfl⟩ := List.mem_map.1 hx
      obtain ⟨c, hc, hentry⟩ := hcolumns entry hentry
      refine retains_of_reports fun d hd => (hd.of_child hentry).of_child ?_
      rwa [Node.children, hm]
    · rw [Role.standIns, if_neg fun hc => h hc.2] at hx
      obtain rfl := List.mem_singleton.1 hx
      exact .pure retains_self
  | joinTarget =>
    obtain rfl := same (by decide)
    exact .ite (fun _ => retains_legacyTarget) fun _ => .throw trivial
  | fromClause =>
    obtain rfl := same (by decide)
    exact retains_selectInFrom
  | dmlSelect =>
    obtain rfl := same (by decide)
    refine .ite (fun _ => ?_) fun _ => .throw trivial
    refine ends_node (Q := fun m => m.isSelectStatement = true ∧
      (⟨.dmlSelect, args⟩ : Site).Retains x (.node m)) ?_ fun _ h => h.2
    refine retains_selectBehind fun n e name kind h => ?_
    rcases kind with kind | kind <;> simpa [Role.unwraps, kind] using h
  | limitOffset | columnsClause | dmlTable | compoundElement => exact .throw trivial
  | _ => cases hs

/-- A list of values is one parameter only if there is no node among them. -/
theorem toValue?_list_eq_none {items : List Input} (h : n ∈ (Input.list items).operands) :
    (Input.list items).toValue? = none := by
  suffices Input.itemsToValue? items = none by rw [Input.toValue?, this]; rfl
  induction items with
  | nil => cases h
  | cons item items ih =>
    rw [Input.itemsToValue?]
    cases item with
    | node m => rfl
    | _ =>
      rw [ih h]
      split <;> rfl

/-- Outside of IN, a list with nodes and a handle that is not looked into are refused. -/
theorem literal_refuses (hs : site.role.takesOperand = true) (hr : site.role ≠ .inElement)
    (hi : (∃ items, input = .list items) ∨ ∃ repr inspection, input = .handle repr inspection)
    (hv : input.toValue? = none) : Gives (site.literal input) fun _ => False := by
  have refused {taken : Constants} {onText : String → Coerce Coerced} :
      Gives (site.constant taken onText input) fun _ => False := by
    rcases hi with ⟨items, rfl⟩ | ⟨repr, inspection, rfl⟩ <;> exact .throw trivial
  unfold literal
  cases role : site.role with
  | inElement => exact absurd role hr
  | expressionElement =>
    dsimp only
    unfold expressionLiteral
    rcases hi with ⟨items, rfl⟩ | ⟨repr, inspection, rfl⟩ <;>
    · dsimp only
      rw [hv]
      exact .throw trivial
  | binaryElement =>
    dsimp only
    rw [hv]
    exact .throw trivial
  | onClause | whereHaving | orderBy | groupBy | columnsClause => exact refused
  | limitOffset | joinTarget | fromClause | dmlTable | dmlSelect | compoundElement =>
    rcases hi with ⟨items, rfl⟩ | ⟨repr, inspection, rfl⟩ <;> exact .throw trivial
  | _ =>
    rw [role] at hs
    cases hs

/-- A node of an IN list is among the clauses that are made of the list. -/
theorem gives_listLiteral (hn : n ∈ input.operands) :
    Gives (site.listLiteral input)
      fun c => ∃ m, c = .node m ∧ n ∈ m.children ∧ Role.unwraps .inElement m = false := by
  unfold listLiteral
  split
  · next items =>
    refine .ite (fun _ => .throw trivial) fun hplaces => .ite (fun plain => ?_) fun _ => ?_
    · rw [toValue?_list_eq_none hn]
      exact .throw trivial
    · refine (EndsOver.mapM_exists (R := fun item c => ∀ m, item = .node m → c = m)
        fun item _ => ?_).bind fun clauses hclauses => ?_
      · unfold listClause
        split
        · exact .lift ((ends_typed _ _).imp fun _ _ => nofun)
        · exact .pure fun m hm => Input.node.inj hm
        · next hne =>
          have none : ∀ m, item ≠ .node m := fun m hm => hne m hm
          split
          · exact .lift ((ends_typed _ _).imp fun _ _ m hm => absurd hm (none m))
          · exact .throw trivial
      · refine gives_typed fun m hm => ⟨m, rfl, ?_, by simp only [Role.unwraps, hm]⟩
        obtain ⟨item, hitem, node⟩ := List.mem_filterMap.1 hn
        obtain ⟨c, hc, same⟩ := hclauses item hitem
        obtain rfl : item = .node n := by
          cases item <;> simp only [Input.asNode?, Option.some.injEq, reduceCtorEq] at node
          rw [node]
        rw [Node.children, hm, ← same n rfl]
        exact hc
  · exact .throw trivial

/-- An operand is what the input resolves to, or in IN below it. -/
theorem gives_resolve (hs : site.role.takesOperand = true) (hn : n ∈ input.operands) :
    Gives (site.resolve input) fun c => c = .node n ∨
      (site.role = .inElement ∧
        ∃ m, c = .node m ∧ n ∈ m.children ∧ Role.unwraps .inElement m = false) := by
  have literalOnly : site.role.isLiteralOnly = false := by
    cases role : site.role <;> first | rfl | (rw [role] at hs; cases hs)
  have literal (hi : (∃ items, input = .list items) ∨
      ∃ repr inspection, input = .handle repr inspection) (hv : input.toValue? = none) :
      Gives (site.literal input) fun c => c = .node n ∨
        (site.role = .inElement ∧
          ∃ m, c = .node m ∧ n ∈ m.children ∧ Role.unwraps .inElement m = false) := by
    by_cases hr : site.role = .inElement
    · have : site.literal input = site.listLiteral input := by
        unfold Site.literal
        rw [hr]
      rw [this]
      exact (gives_listLiteral hn).imp fun _ h => .inr ⟨hr, h⟩
    · exact (literal_refuses hs hr hi hv).imp fun _ h => h.elim
  unfold resolve
  rw [literalOnly, if_neg Bool.false_ne_true]
  cases input with
  | node m =>
    obtain rfl := List.mem_singleton.1 hn
    exact .pure (.inl rfl)
  | element repr target =>
    dsimp only
    unfold unwrap
    split
    · next m found =>
      simp only [Input.operands, found, List.mem_singleton] at hn
      exact .pure (.inl (by rw [hn]))
    · exact .throw trivial
    · exact .lift (.throw trivial)
  | handle repr inspection =>
    dsimp only
    refine .ite (fun _ => ?_) fun _ => literal (.inr ⟨repr, inspection, rfl⟩) rfl
    cases inspection with
    | element m =>
      obtain rfl := List.mem_singleton.1 hn
      exact .pure (.inl rfl)
    | closed => exact .throw trivial
    | notInspectable => exact literal (.inr ⟨repr, _, rfl⟩) rfl
  | list items => exact literal (.inl ⟨items, rfl⟩) (toValue?_list_eq_none hn)
  | _ => cases hn

/-- A role keeps what a node reports that it takes or converts. -/
theorem retains_taken_or_converted (hs : site.role.takesOperand = true)
    (hx : x ∈ site.role.standIns n) :
    Gives (if site.role.accepts n then site.settle given n else site.convert given (.node n))
      (site.Retains x) := by
  refine .ite (fun taken => ?_) fun _ => retains_convert hs hx
  have : x = n := by
    rw [Role.standIns, if_neg] at hx
    · exact List.mem_singleton.1 hx
    · rintro ⟨role, source⟩
      rw [role] at taken
      rcases n with ⟨id, kind, type, annotations, diagnostics⟩
      cases kind <;> first | (cases taken; done) | cases source
  exact this ▸ retains_settle hs

/-- A coercion keeps what the nodes report that are handed over. -/
theorem retains_coerce (hx : x ∈ input.operandsAt site.role) :
    Gives (site.coerce input) (site.Retains x) := by
  by_cases hs : site.role.takesOperand = true
  · rw [Input.operandsAt, if_pos hs, List.mem_flatMap] at hx
    obtain ⟨n, hn, hx⟩ := hx
    unfold coerce
    split
    · cases hn
    · refine (gives_resolve hs hn).bind fun resolved hresolved => ?_
      rcases hresolved with rfl | ⟨hr, m, rfl, hm, plain⟩
      · exact retains_taken_or_converted hs hx
      · -- The operand stands in the list that is made for IN, and the list is what is taken.
        have alone (n : Node) : site.role.standIns n = [n] := standIns_of_ne (hr ▸ nofun)
        rw [alone] at hx
        obtain rfl := List.mem_singleton.1 hx
        refine (retains_taken_or_converted hs (n := m) ?_).imp
          fun _ h => (retains_of_child hm).trans h (hr ▸ plain)
        rw [alone]
        exact List.mem_singleton_self m
  · rw [Input.operandsAt, if_neg hs] at hx
    cases hx

/-! ## Criteria -/

/-- A criterion is the node that is handed over, or a new one about which nothing was reported. -/
def IsCriterion (input : Input) (resolved : Coerced) : Prop :=
  ∀ m, resolved = .node m → m ∈ input.operandsAt .whereHaving ∨ m.diagnostics = []

theorem isCriterion_of_mem (h : n ∈ input.operands) : IsCriterion input (.node n) := by
  rintro _ ⟨⟩
  exact .inl (List.mem_flatMap.2 ⟨n, h, List.mem_singleton_self n⟩)

theorem criterion_typed {kind : Kind Node} {type : SqlType} :
    Gives (Coerced.node <$> (liftM (Build.typed kind type) : Coerce Node)) (IsCriterion input) := by
  refine ends_node (Build.ends_reported kind type []) fun m hm => ?_
  rintro _ ⟨⟩
  exact .inr hm.2.2

theorem criterion_literal (hr : site.role = .whereHaving) :
    Gives (site.literal input) (IsCriterion input) := by
  unfold literal constant
  rw [hr]
  dsimp only
  split
  · exact .ite (fun _ => criterion_typed) fun _ => .throw trivial
  · exact .ite (fun _ => criterion_typed) fun _ => .throw trivial
  · exact .ite (fun _ => criterion_typed) fun _ => .throw trivial
  · exact .ite (fun _ => criterion_typed) fun _ => .throw trivial
  · exact .ite (fun _ => criterion_typed) fun _ => .throw trivial
  · exact .throw trivial

theorem criterion_resolve (hr : site.role = .whereHaving) :
    Gives (site.resolve input) (IsCriterion input) := by
  unfold resolve
  rw [hr]
  refine .ite (fun h => absurd h Bool.false_ne_true) fun _ => ?_
  split
  · exact .pure (isCriterion_of_mem (List.mem_singleton_self _))
  · unfold unwrap
    split
    · next found =>
      refine .pure (isCriterion_of_mem ?_)
      simp only [Input.operands, found, List.mem_singleton]
    · exact .throw trivial
    · exact .lift (.throw trivial)
  · exact .ite (fun h => absurd h Bool.false_ne_true) fun _ => criterion_literal hr
  · exact criterion_literal hr

theorem criterion_scalar : Gives (site.scalar given resolved) (IsCriterion input) := by
  have single (n : Node) : Gives (Coerced.node <$> (liftM n.scalarSubquery : Coerce Node))
      (IsCriterion input) := by
    refine ends_node (Q := fun m => m.diagnostics = []) ?_ fun m hm => ?_
    · refine .ite (fun _ => ?_) fun _ => .throw trivial
      exact (Build.ends_reported _ _ []).imp fun _ h => h.2.2
    · rintro _ ⟨⟩
      exact .inr hm
  unfold scalar
  split
  · refine .ite (fun _ => ends_raise.early.bind fun _ _ => single _) fun _ => ?_
    split
    · exact ends_raise.early.bind fun _ _ => single _
    · exact .throw trivial
  · exact .throw trivial

theorem criterion_coerce (hr : site.role = .whereHaving) :
    Gives (site.coerce input) (IsCriterion input) := by
  have convert (resolved : Coerced) : Gives (site.convert input resolved) (IsCriterion input) := by
    unfold Site.convert
    rw [hr]
    exact criterion_scalar
  refine endsOver_coerce (criterion_resolve hr) (fun m lambda _ _ hd => ?_) (fun n hn _ => ?_)
    fun resolved _ _ => convert resolved
  · rintro _ ⟨⟩
    exact .inr hd
  · unfold settle
    rw [hr]
    exact .pure hn

end Site

/-! ## What is left on the way -/

namespace Build

/-- The diagnostics that some coercions leave, one coercion after the other. -/
def raised : List (Site × Input) → Build (List Diagnostic)
  | [] => pure []
  | (site, input) :: rest => do
    let coercion ← expect site.role input site.args
    let others ← raised rest
    pure (coercion.diagnostics ++ others)

variable {role : Role} {input : Input} {args : CoercionArgs} {i i' : Identity} {m n : Node}
  {ds : List Diagnostic} {d : Diagnostic}

theorem expect_of_coerceNode (run : coerceNode role input args i = .ok ((m, ds), i')) :
    expect role input args i = .ok (⟨.node m, ds⟩, i') := by
  obtain ⟨⟨value, diagnostics⟩, i₁, first, last⟩ := bind_ok run
  cases value with
  | node n =>
    cases last
    exact first
  | _ => cases last

/-- A node that is handed over becomes a node that reports what it does, but for what was reported
about a wrapper. -/
theorem reports_of_expect {coercion : Coercion}
    (run : expect role input args i = .ok (coercion, i')) (hn : n ∈ input.operandsAt role) :
    ∃ m, coercion.value = .node m ∧
      ∀ d, n.Reports d → m.Reports d ∨ (role.unwraps n = true ∧ d ∈ n.diagnostics) := by
  obtain ⟨⟨value, diagnostics⟩, i₁, first, last⟩ := bind_ok run
  cases last
  have retains : Site.Gives ((⟨role, args⟩ : Site).coerce input) (Site.Retains ⟨role, args⟩ n) :=
    Site.retains_coerce hn
  exact (retains []).result first

theorem reports_of_coerceNode (run : coerceNode role input args i = .ok ((m, ds), i'))
    (hn : n ∈ input.operandsAt role) (hd : n.Reports d) :
    m.Reports d ∨ (role.unwraps n = true ∧ d ∈ n.diagnostics) := by
  obtain ⟨_, ⟨⟩, h⟩ := reports_of_expect (expect_of_coerceNode run) hn
  exact h d hd

/-- A criterion about which something was reported is a node that was handed over. -/
theorem mem_operandsAt_of_coerceNode
    (run : coerceNode .whereHaving input args i = .ok ((m, ds), i')) (hd : d ∈ m.diagnostics) :
    m ∈ input.operandsAt .whereHaving := by
  obtain ⟨⟨value, diagnostics⟩, i₁, first, last⟩ := bind_ok (expect_of_coerceNode run)
  cases last
  have criterion : Site.Gives ((⟨.whereHaving, args⟩ : Site).coerce input)
      (Site.IsCriterion input) := Site.criterion_coerce rfl
  refine ((criterion []).result first m rfl).resolve_right fun none => ?_
  rw [none] at hd
  cases hd

theorem raised_cons {rest : List (Site × Input)} {coercion : Coercion} {j : Identity}
    (run : expect role input args i = .ok (coercion, j)) (h : raised rest j = .ok (ds, i')) :
    raised ((⟨role, args⟩, input) :: rest) i = .ok (coercion.diagnostics ++ ds, i') := by
  rw [raised, bind_run run, bind_run h]
  rfl

theorem raised_single {coercion : Coercion} (run : expect role input args i = .ok (coercion, i')) :
    raised [(⟨role, args⟩, input)] i = .ok (coercion.diagnostics, i') := by
  rw [← List.append_nil coercion.diagnostics]
  exact raised_cons run rfl

theorem raised_append {first rest : List (Site × Input)} {es : List Diagnostic} {j : Identity}
    (h : raised first i = .ok (ds, j)) (h' : raised rest j = .ok (es, i')) :
    raised (first ++ rest) i = .ok (ds ++ es, i') := by
  induction first generalizing i ds with
  | nil =>
    cases h
    exact h'
  | cons entry first ih =>
    obtain ⟨⟨role, args⟩, input⟩ := entry
    obtain ⟨coercion, i₁, run, h⟩ := bind_ok h
    obtain ⟨others, i₂, h, last⟩ := bind_ok h
    cases last
    rw [List.cons_append, List.append_assoc]
    exact raised_cons run (ih h)

theorem raised_of_coerceNode (run : coerceNode role input args i = .ok ((m, ds), i')) :
    raised [(⟨role, args⟩, input)] i = .ok (ds, i') :=
  raised_single (expect_of_coerceNode run)

theorem raised_of_coerceKey {key : String}
    (run : coerceKey role input args i = .ok ((key, ds), i')) :
    raised [(⟨role, args⟩, input)] i = .ok (ds, i') := by
  obtain ⟨⟨value, diagnostics⟩, i₁, first, last⟩ := bind_ok run
  cases value with
  | key key =>
    cases last
    exact raised_single first
  | _ => cases last

end Build

end SqlAlgebra
