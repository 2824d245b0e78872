import SqlAlgebra.Proofs.Build.Construction

/-!
# What a construction keeps of its operands

The result of a step has what its coercions leave, and the nodes that it works on stand below it.
So it reports what they report, but for what was said about a node that the step opens, or anywhere
in one that it dissolves or replaces.
-/

namespace SqlAlgebra

open Build (bind_ok raised_of_coerceNode raised_of_coerceKey raised_append reports_of_coerceNode)

namespace Construction

variable {c : Construction} {out w : Workpiece} {m n x : Node} {d : Diagnostic}
  {ds : List Diagnostic} {i i' j : Identity} {role : Role} {args : CoercionArgs} {input : Input}

/-- Whether all that a workpiece reports is reported of a result, but for what is on a node that is
opened or in one that is dissolved or replaced. -/
def Passes (c : Construction) (out w : Workpiece) : Prop :=
  ∀ d, w.Reports d → out.Reports d ∨ c.Exposes d ∨ ∃ v ∈ c.replaced, v.Reports d

/-- Whether a result reports what the coercions of a step leave and what its operands report. -/
structure Retained (c : Construction) (start : Identity) (out : Workpiece) : Prop where
  raised : ∃ ds next, Build.raised c.coercions start = .ok (ds, next) ∧ ∀ d ∈ ds, out.Reports d
  operands : ∀ w ∈ c.operands, c.Passes out w

/-- Coercions one after the other: what they leave, and which one gives which node. -/
theorem cases_of_coerceNodes {inputs : List Input} {ns : List Node}
    (run : Build.coerceNodes role args inputs i = .ok ((ns, ds), j)) :
    Build.raised (inputs.map fun input => (⟨role, args⟩, input)) i = .ok (ds, j) ∧
      ∀ input ∈ inputs, ∃ m ∈ ns, ∃ i₁ ds₁ j₁,
        coerceNode role input args i₁ = .ok ((m, ds₁), j₁) := by
  induction inputs generalizing i ns ds with
  | nil =>
    cases run
    exact ⟨rfl, fun _ h => nomatch h⟩
  | cons input inputs ih =>
    obtain ⟨⟨n, first⟩, i₁, here, run⟩ := bind_ok run
    obtain ⟨⟨ns, others⟩, i₂, there, last⟩ := bind_ok run
    cases last
    obtain ⟨raised, each⟩ := ih there
    refine ⟨raised_append (raised_of_coerceNode here) raised, fun input' hinput => ?_⟩
    rcases List.mem_cons.1 hinput with rfl | hinput
    · exact ⟨n, List.mem_cons_self, i, first, i₁, here⟩
    · obtain ⟨m, hm, rest⟩ := each input' hinput
      exact ⟨m, List.mem_cons_of_mem _ hm, rest⟩

/-! ## Ways to pass -/

theorem passes_child (h : n ∈ out.children) : c.Passes out (.node n) := by
  intro d hd
  exact .inl (.inr ⟨n, h, Workpiece.reports_node.1 hd⟩)

/-- What was reported about a workpiece and what its children report is looked at separately. -/
theorem passes_of_children (own : w.diagnostics ⊆ out.diagnostics)
    (h : ∀ x ∈ w.children, c.Passes out (.node x)) : c.Passes out w := by
  rintro d (hd | ⟨x, hx, hd⟩)
  · exact .inl (.inl (own hd))
  · exact h x hx d (Workpiece.reports_node.2 hd)

theorem passes_replaced (h : n ∈ c.replaced) : c.Passes out (.node n) := by
  intro d hd
  exact .inr (.inr ⟨n, h, Workpiece.reports_node.1 hd⟩)

/-- A node of which a step keeps what it holds. -/
theorem passes_split (h : ∀ d, n.Reports d → out.Reports d ∨ ∃ a ∈ c.split, d ∈ a.diagnostics) :
    c.Passes out (.node n) := by
  intro d hd
  rcases h d (Workpiece.reports_node.1 hd) with hd | ⟨a, ha, hd⟩
  · exact .inl hd
  · exact .inr (.inl (.inl ⟨a, List.mem_append_left _ ha, hd⟩))

/-- A node that a step takes apart, where its children stand in the result. -/
theorem passes_apart (own : ∀ d ∈ n.diagnostics, n ∈ c.split)
    (children : n.children ⊆ out.children) : c.Passes out (.node n) := by
  refine passes_split fun d hd => ?_
  rcases Node.reports_iff.1 hd with hd | ⟨x, hx, hd⟩
  · exact .inr ⟨n, own d hd, hd⟩
  · exact .inl (.inr ⟨x, children hx, hd⟩)

/-- A node that stands below a child of the result. -/
theorem passes_below (h : n ∈ out.children) (hm : m ∈ n.children) : c.Passes out (.node m) := by
  intro d hd
  exact .inl (.inr ⟨n, h, (Workpiece.reports_node.1 hd).of_child hm⟩)

/-- The only piece that a step works on. -/
theorem passes_alone (hp : c.pieces = [w]) (h : c.Passes out w) :
    ∀ w' ∈ c.pieces, c.Passes out w' := by
  rw [hp]
  intro w' hw'
  exact List.mem_singleton.1 hw' ▸ h

/-- An operand passes if what it is coerced to does. -/
theorem passes_coerced (place : (⟨role, args⟩, input) ∈ c.coercions)
    (run : coerceNode role input args i = .ok ((m, ds), j)) (hm : c.Passes out (.node m))
    (hn : n ∈ input.operandsAt role) : c.Passes out (.node n) := by
  intro d hd
  rcases reports_of_coerceNode run hn (Workpiece.reports_node.1 hd) with hd | ⟨wrapper, hd⟩
  · exact hm d (Workpiece.reports_node.2 hd)
  · refine .inr (.inl (.inl ⟨n, List.mem_append_right _ ?_, hd⟩))
    exact List.mem_flatMap.2 ⟨_, place, List.mem_filter.2 ⟨hn, wrapper⟩⟩

/-! ## Shapes of steps -/

theorem retained_of (run : Build.raised c.coercions i = .ok (ds, j)) (hds : ∀ d ∈ ds, out.Reports d)
    (coerced : ∀ place ∈ c.coercions, ∀ n ∈ place.2.operandsAt place.1.role, c.Passes out (.node n))
    (pieces : ∀ w ∈ c.pieces, c.Passes out w) : c.Retained i out where
  raised := ⟨ds, j, run, hds⟩
  operands w hw := by
    rcases List.mem_append.1 hw with hw | hw
    · exact pieces w hw
    · obtain ⟨n, hn, rfl⟩ := List.mem_map.1 hw
      rcases List.mem_append.1 hn with hn | dissolved
      · obtain ⟨place, hplace, hn⟩ := List.mem_flatMap.1 hn
        exact coerced place hplace n hn
      · exact fun d hd => .inr (.inl (.inr ⟨n, dissolved, Workpiece.reports_node.1 hd⟩))

/-- A step without coercions. -/
theorem retained_of_none (hc : c.coercions = []) (pieces : ∀ w ∈ c.pieces, c.Passes out w) :
    c.Retained i out := by
  have nothing : Build.raised c.coercions i = .ok ([], i) := by
    rw [hc]
    rfl
  refine retained_of nothing (fun _ h => nomatch h) ?_ pieces
  rw [hc]
  exact fun _ h => nomatch h

/-- A step with one coercion. -/
theorem retained_of_one (hc : c.coercions = [(⟨role, args⟩, input)])
    (run : coerceNode role input args i = .ok ((m, ds), j)) (hds : ∀ d ∈ ds, out.Reports d)
    (hm : c.Passes out (.node m)) (pieces : ∀ w ∈ c.pieces, c.Passes out w) : c.Retained i out := by
  refine retained_of (hc ▸ raised_of_coerceNode run) hds (fun place hplace n hn => ?_) pieces
  have alone := hplace
  rw [hc, List.mem_singleton] at alone
  subst alone
  exact passes_coerced hplace run hm hn

/-- A step with two coercions. -/
theorem retained_of_two {role' : Role} {args' : CoercionArgs} {input' : Input} {m' : Node}
    {ds' : List Diagnostic} {j' : Identity}
    (hc : c.coercions = [(⟨role, args⟩, input), (⟨role', args'⟩, input')])
    (run : coerceNode role input args i = .ok ((m, ds), j))
    (run' : coerceNode role' input' args' j = .ok ((m', ds'), j'))
    (hds : ∀ d ∈ ds ++ ds', out.Reports d) (hm : c.Passes out (.node m))
    (hm' : c.Passes out (.node m')) (pieces : ∀ w ∈ c.pieces, c.Passes out w) :
    c.Retained i out := by
  have raised : Build.raised c.coercions i = .ok (ds ++ ds', j') := by
    rw [hc]
    exact raised_append (raised_of_coerceNode run) (raised_of_coerceNode run')
  refine retained_of raised hds (fun place hplace n hn => ?_) pieces
  have either := hplace
  rw [hc, List.mem_cons, List.mem_singleton] at either
  rcases either with rfl | rfl
  · exact passes_coerced hplace run hm hn
  · exact passes_coerced hplace run' hm' hn

/-- A step that coerces one input after the other. -/
theorem retained_of_list {inputs : List Input} {ns : List Node}
    (hc : c.coercions = inputs.map fun input => (⟨role, args⟩, input))
    (run : Build.coerceNodes role args inputs i = .ok ((ns, ds), j))
    (hds : ∀ d ∈ ds, out.Reports d)
    (hns : ∀ input ∈ inputs, ∀ m ∈ ns,
      (∃ i₁ ds₁ j₁, coerceNode role input args i₁ = .ok ((m, ds₁), j₁)) → c.Passes out (.node m))
    (pieces : ∀ w ∈ c.pieces, c.Passes out w) : c.Retained i out := by
  obtain ⟨raised, each⟩ := cases_of_coerceNodes run
  refine retained_of (hc ▸ raised) hds (fun place hplace n hn => ?_) pieces
  have among := hplace
  rw [hc] at among
  obtain ⟨input, hinput, rfl⟩ := List.mem_map.1 among
  obtain ⟨m, hm, i₁, ds₁, j₁, run⟩ := each input hinput
  exact passes_coerced hplace run (hns input hinput m hm ⟨i₁, ds₁, j₁, run⟩) hn

/-! ## Expressions -/

variable {inputs : List Input} {left right : Node}

theorem reports_clausesUnder {op : ListOp} (h : m.Reports d) :
    (∃ x ∈ Build.clausesUnder op m, x.Reports d) ∨ (m.isListOf op = true ∧ d ∈ m.diagnostics) := by
  unfold Build.clausesUnder Node.isListOf
  split
  · next inner clauses kind =>
    by_cases same : inner = op
    · rw [if_pos same]
      rcases Node.reports_iff.1 h with own | ⟨x, hx, hd⟩
      · exact .inr ⟨by simpa [kind] using same, own⟩
      · rw [Node.children, kind] at hx
        exact .inl ⟨x, hx, hd⟩
    · rw [if_neg same]
      exact .inl ⟨m, List.mem_singleton_self m, h⟩
  · exact .inl ⟨m, List.mem_singleton_self m, h⟩

theorem retained_junction {op : ListOp} {function : String}
    (run : Build.junction op function inputs i = .ok (n, i')) :
    (junction op function inputs).Retained i (.node n) := by
  obtain ⟨⟨nodes, ds⟩, i₁, coerced, rest⟩ := bind_ok run
  by_cases empty : (nodes.flatMap (Build.clausesUnder op)).isEmpty = true
  · simp only [empty] at rest
    cases rest
  · rw [Bool.not_eq_true] at empty
    simp only [empty] at rest
    cases rest
    refine retained_of_list rfl coerced (fun d hd => .inl hd) ?_ (fun _ h => nomatch h)
    rintro input hinput m hm ⟨i₂, ds₂, j₂, run⟩
    refine passes_split fun d hd => ?_
    rcases reports_clausesUnder hd with ⟨x, hx, hd⟩ | ⟨list, own⟩
    · exact .inl (.inr ⟨x, List.mem_flatMap.2 ⟨m, hm, hx⟩, hd⟩)
    · refine .inr ⟨m, List.mem_filter.2 ⟨?_, list⟩, own⟩
      exact List.mem_flatMap.2 ⟨input, hinput, Build.mem_operandsAt_of_coerceNode run own⟩

theorem retained_negation (run : Build.negation input i = .ok (n, i')) :
    (negation input).Retained i (.node n) := by
  obtain ⟨⟨m, ds⟩, i₁, coerced, rest⟩ := bind_ok run
  dsimp only at rest
  have above (h : Build.reported (.unary .not m) .boolean ds i₁ = .ok (n, i')) :
      (negation input).Retained i (.node n) := by
    cases h
    exact retained_of_one rfl coerced (fun d hd => .inl hd)
      (passes_child (List.mem_singleton_self m)) (fun _ h => nomatch h)
  cases kind : m.kind with
  | binary left op right =>
    rw [kind] at rest
    dsimp only at rest
    cases opposite : op.negate with
    | none =>
      rw [opposite] at rest
      exact above rest
    | some negated =>
      rw [opposite] at rest
      cases rest
      have opposable : m.isOpposable = true := by
        rw [Node.isOpposable, kind]
        exact Option.isSome_of_mem opposite
      refine retained_of_one rfl coerced (fun d hd => .inl hd) (passes_apart (fun d own => ?_) ?_)
        (fun _ h => nomatch h)
      · exact List.mem_filter.2 ⟨Build.mem_operandsAt_of_coerceNode coerced own, opposable⟩
      · rw [Node.children, kind]
        exact fun _ h => h
  | _ =>
    rw [kind] at rest
    exact above rest

theorem retained_call {name : String} (run : Build.call name inputs i = .ok (n, i')) :
    (call name inputs).Retained i (.node n) := by
  obtain ⟨⟨nodes, ds⟩, i₁, coerced, rest⟩ := bind_ok run
  cases rest
  exact retained_of_list rfl coerced (fun d hd => .inl hd) (fun _ _ m hm _ => passes_child hm)
    (fun _ h => nomatch h)

theorem cases_of_castNode {type : SqlType} (run : Build.castNode m type ds i = .ok (n, i')) :
    n.kind = .cast m type ∧ n.diagnostics = ds := by
  unfold Build.castNode at run
  split at run
  · cases run
  · cases run
    exact ⟨rfl, rfl⟩

theorem retained_cast {type : SqlType} (run : Build.cast input type i = .ok (n, i')) :
    (cast input type).Retained i (.node n) := by
  obtain ⟨⟨m, ds⟩, i₁, coerced, rest⟩ := bind_ok run
  obtain ⟨kind, rfl⟩ := cases_of_castNode rest
  refine retained_of_one rfl coerced (fun d hd => .inl hd) (passes_child ?_) (fun _ h => nomatch h)
  rw [Workpiece.children, Node.children, kind]
  exact List.mem_singleton_self m

/-- A step that puts one node below a new one. -/
theorem retained_above (hc : c.coercions = []) (hp : c.pieces = [.node m]) (hn : m ∈ n.children) :
    c.Retained i (.node n) :=
  retained_of_none hc (passes_alone hp (passes_child hn))

theorem retained_castNode {type : SqlType} (run : Build.castNode m type [] i = .ok (n, i')) :
    (castNode m type).Retained i (.node n) := by
  refine retained_above rfl rfl ?_
  rw [Node.children, (cases_of_castNode run).1]
  exact List.mem_singleton_self m

theorem retained_anyRow (run : Build.exists m i = .ok (n, i')) :
    (anyRow m).Retained i (.node n) := by
  obtain ⟨s, i₁, scalar, rest⟩ := bind_ok run
  cases rest
  refine retained_of_none rfl (passes_alone rfl (passes_below (List.mem_singleton_self s) ?_))
  rw [Node.children, m.ends_scalarSubquery.result scalar]
  exact List.mem_singleton_self m

/-- The left operand of an operator stands below the new node. -/
theorem passes_left {op : BinaryOp} {type : SqlType} :
    c.Passes (.node ⟨i, .binary left op right, type, [], ds⟩) (.node left) :=
  passes_child List.mem_cons_self

theorem passes_right {op : BinaryOp} {type : SqlType} :
    c.Passes (.node ⟨i, .binary left op right, type, [], ds⟩) (.node right) :=
  passes_child (List.mem_cons_of_mem _ (List.mem_singleton_self right))

theorem retained_compare {op : BinaryOp} (run : left.compare op input i = .ok (n, i')) :
    (compare left op input).Retained i (.node n) := by
  unfold Node.compare at run
  by_cases none : input.isNone = true
  · rw [if_pos none] at run
    refine retained_of_none (by rw [coercions, if_pos none]) (passes_alone rfl ?_)
    cases known : Node.operatorAgainstNone op with
    | none =>
      rw [known] at run
      cases run
    | some op =>
      rw [known] at run
      obtain ⟨null, i₁, -, rest⟩ := bind_ok run
      cases rest
      exact passes_left
  · rw [if_neg none] at run
    obtain ⟨⟨right, ds⟩, i₁, coerced, rest⟩ := bind_ok run
    cases rest
    exact retained_of_one (by rw [coercions, if_neg none]) coerced (fun d hd => .inl hd)
      passes_right (passes_alone rfl passes_left)

theorem retained_arithmetic {op : BinaryOp} (run : left.arithmetic op input i = .ok (n, i')) :
    (arithmetic left op input).Retained i (.node n) := by
  obtain ⟨⟨right, ds⟩, i₁, coerced, rest⟩ := bind_ok run
  cases rest
  exact retained_of_one rfl coerced (fun d hd => .inl hd) passes_right
    (passes_alone rfl passes_left)

theorem retained_membership {op : BinaryOp} (run : left.membership op input i = .ok (n, i')) :
    (membership left op input).Retained i (.node n) := by
  obtain ⟨⟨right, ds⟩, i₁, coerced, rest⟩ := bind_ok run
  cases rest
  exact retained_of_one rfl coerced (fun d hd => .inl hd) passes_right
    (passes_alone rfl passes_left)

theorem retained_between {low high : Input} (run : left.between low high i = .ok (n, i')) :
    (between left low high).Retained i (.node n) := by
  obtain ⟨⟨a, first⟩, i₁, coerced, rest⟩ := bind_ok run
  obtain ⟨⟨b, second⟩, i₂, coerced', rest⟩ := bind_ok rest
  obtain ⟨bounds, i₃, made, rest⟩ := bind_ok rest
  have below : bounds.children = [a, b] := by
    cases made
    rfl
  cases rest
  have right (x : Node) (hx : x ∈ [a, b]) : (between left low high).Passes
      (.node ⟨i₃, .binary left .between bounds, .boolean, [], first ++ second⟩) (.node x) :=
    passes_below (List.mem_cons_of_mem _ (List.mem_singleton_self bounds)) (below ▸ hx)
  exact retained_of_two rfl coerced coerced' (fun d hd => .inl hd) (right a (by simp))
    (right b (by simp)) (passes_alone rfl passes_left)

theorem retained_againstNull {op : BinaryOp} (run : left.againstNull op i = .ok (n, i')) :
    (againstNull left op).Retained i (.node n) := by
  obtain ⟨null, i₁, -, rest⟩ := bind_ok run
  cases rest
  exact retained_above rfl rfl List.mem_cons_self

theorem retained_unary {op : UnaryOp} (run : m.unary op i = .ok (n, i')) :
    (unary m op).Retained i (.node n) := by
  cases run
  exact retained_above rfl rfl (List.mem_singleton_self m)

theorem retained_anonymousLabel (run : m.anonymousLabel i = .ok (n, i')) :
    (anonymousLabel m).Retained i (.node n) := by
  cases run
  exact retained_above rfl rfl (List.mem_singleton_self m)

theorem retained_label (run : m.label input i = .ok (n, i')) :
    (label m input).Retained i (.node n) := by
  obtain ⟨⟨key, ds⟩, i₁, coerced, rest⟩ := bind_ok run
  cases rest
  refine retained_of (raised_of_coerceKey coerced) (fun d hd => .inl hd) ?_
    (passes_alone rfl (passes_child (List.mem_singleton_self m)))
  intro place hplace n hn
  obtain rfl := List.mem_singleton.1 hplace
  cases hn

theorem retained_ordered {isDescending : Option Bool} {nulls : Option NullsOrder}
    (run : m.ordered isDescending nulls i = .ok (n, i')) :
    (ordered m isDescending nulls).Retained i (.node n) := by
  unfold Node.ordered at run
  cases kind : m.kind with
  | ordering element wasDescending wasNulls =>
    rw [kind] at run
    cases run
    refine retained_of_none rfl (passes_alone rfl (passes_apart (fun d _ => ?_) ?_))
    · rw [split, Node.isOrdering, kind]
      exact List.mem_singleton_self m
    · rw [Node.children, kind]
      exact fun _ h => h
  | _ =>
    rw [kind] at run
    cases run
    exact retained_above rfl rfl (List.mem_singleton_self m)

/-! ## Row sources -/

variable {name : Option String}

theorem retained_boundColumn {name : String} {type : SqlType}
    (run : m.boundColumn name type i = .ok (n, i')) :
    (boundColumn m name type).Retained i (.node n) := by
  cases run
  exact retained_above rfl rfl (List.mem_singleton_self m)

/-- A guarded step that puts one node below a new one. -/
theorem retained_guarded {q : Bool} {kind : Kind Node} {type : SqlType} {fault : ConstructionFault}
    (hc : c.coercions = []) (hp : c.pieces = [.node m])
    (run : (if q then Build.typed kind type else Build.fail fault : Build Node) i = .ok (n, i'))
    (hk : m ∈ kind.children) : c.Retained i (.node n) := by
  cases q with
  | false => cases run
  | true =>
    cases run
    exact retained_above hc hp hk

theorem retained_selectFrom (run : m.select i = .ok (n, i')) :
    (selectFrom m).Retained i (.node n) :=
  retained_guarded rfl rfl run (by simp [Kind.children, Select.children, Select.empty])

theorem retained_subquery (run : m.subquery name i = .ok (n, i')) :
    (subquery m name).Retained i (.node n) :=
  retained_guarded rfl rfl run (List.mem_singleton_self m)

theorem retained_scalarSubquery (run : m.scalarSubquery i = .ok (n, i')) :
    (scalarSubquery m).Retained i (.node n) :=
  retained_guarded rfl rfl run (List.mem_singleton_self m)

theorem retained_tableValued (run : m.tableValued i = .ok (n, i')) :
    (tableValued m).Retained i (.node n) :=
  retained_guarded rfl rfl run (List.mem_singleton_self m)

theorem retained_aliased (run : m.aliased name i = .ok (n, i')) :
    (aliased m name).Retained i (.node n) := by
  have renamed {element : Node} (below : m.children = [element]) (wrapper : m.isAliased = true)
      (hn : element ∈ n.children) : (aliased m name).Retained i (.node n) := by
    refine retained_of_none rfl (passes_alone rfl (passes_apart (fun d _ => ?_) ?_))
    · rw [split, if_pos wrapper]
      exact List.mem_singleton_self m
    · rw [below]
      exact List.cons_subset.2 ⟨hn, List.nil_subset _⟩
  have wrapped (h : (if m.isSelectStatement then Build.untyped (.subquery m name)
      else Build.fail (.notAliasable m.repr) : Build Node) i = .ok (n, i')) :
      (aliased m name).Retained i (.node n) :=
    retained_guarded rfl rfl h (List.mem_singleton_self m)
  unfold Node.aliased at run
  cases kind : m.kind with
  | table t =>
    rw [kind] at run
    cases run
    exact retained_above rfl rfl (List.mem_singleton_self m)
  | «alias» element _ =>
    rw [kind] at run
    cases run
    exact renamed (by rw [Node.children, kind]; rfl) (by rw [Node.isAliased, kind])
      (List.mem_singleton_self element)
  | subquery element _ =>
    rw [kind] at run
    cases run
    exact renamed (by rw [Node.children, kind]; rfl) (by rw [Node.isAliased, kind])
      (List.mem_singleton_self element)
  | join j =>
    rw [kind] at run
    obtain ⟨all, i₁, first, rest⟩ := bind_ok run
    cases first
    cases rest
    refine retained_of_none rfl (passes_alone rfl (passes_below (List.mem_singleton_self _) ?_))
    simp [Node.children, Kind.children, Select.children, Select.empty]
  | _ =>
    rw [kind] at run
    exact wrapped run

/-- A join has its sides and its criterion below it, and what was reported about them on it. -/
theorem cases_of_joined {target on : Input} {kind : JoinKind}
    (run : left.joined target on kind i = .ok (n, i')) :
    ∃ right first j on' second,
      coerceNode .joinTarget target { argname := some "target" } i = .ok ((right, first), j) ∧
      coerceNode .onClause on { argname := some "onclause" } j = .ok ((on', second), n.id) ∧
        n.kind = .join ⟨left, right, on', kind⟩ ∧ n.diagnostics = first ++ second := by
  unfold Node.joined at run
  split at run
  · obtain ⟨⟨right, first⟩, j, coerced, rest⟩ := bind_ok run
    obtain ⟨⟨on', second⟩, j', coerced', rest⟩ := bind_ok rest
    cases rest
    exact ⟨right, first, j, on', second, coerced, coerced', rfl, rfl⟩
  · cases run

theorem retained_joined {target on : Input} {kind : JoinKind}
    (run : left.joined target on kind i = .ok (n, i')) :
    (joined left target on kind).Retained i (.node n) := by
  obtain ⟨right, first, j, on', second, coerced, coerced', hk, hd⟩ := cases_of_joined run
  have children : n.children = [left, right, on'] := by rw [Node.children, hk]; rfl
  have below {x : Node} (hx : x ∈ [left, right, on']) :
      (joined left target on kind).Passes (.node n) (.node x) :=
    passes_child (show x ∈ n.children from children ▸ hx)
  exact retained_of_two rfl coerced coerced' (fun d h => .inl (show d ∈ n.diagnostics from hd ▸ h))
    (below (by simp)) (below (by simp)) (passes_alone rfl (below (by simp)))

theorem retained_compound {op : SetOp} (run : Build.compound op inputs i = .ok (n, i')) :
    (compound op inputs).Retained i (.node n) := by
  obtain ⟨⟨nodes, ds⟩, i₁, coerced, rest⟩ := bind_ok run
  cases nodes with
  | nil => cases rest
  | cons m nodes =>
    cases rest
    exact retained_of_list rfl coerced (fun d hd => .inl hd) (fun _ _ m hm _ => passes_child hm)
      (fun _ h => nomatch h)

end Construction

end SqlAlgebra
