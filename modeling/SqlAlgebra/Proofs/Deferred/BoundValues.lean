import SqlAlgebra.Build.Expression
import SqlAlgebra.Proofs.Coercion.Acceptance
import SqlAlgebra.Proofs.Deferred.Substitution
import SqlAlgebra.Proofs.Value.Inputs

/-!
# Comparisons with values of the scope

A deferred expression that compares with a name of the scope becomes a comparison with a parameter.
The parameter carries the value that is bound to the name as an input gives it back.  If this is no
value at all there is no parameter: the comparison is one with NULL by identity, or it fails.
-/

namespace SqlAlgebra

namespace Node

variable {σ : Type} {K : Heap} {next : Identity} {n : Node} {s : σ}
  {replace : Node → StateT σ Build (Option Node)}

/-- A tree in which nothing is replaced is left as it is.  Whatever was met before it was left as it
is too, and so is what is met on the way. -/
theorem transform_of_none (hK : K.Valid next) (hn : K n)
    (none : ∀ x, Occurs x n → replace x s next = .ok ((none, s), next)) {memo : Memo}
    (known : ∀ x, K x → ∀ y, memo.lookup x.id = some y → y = x) :
    ∃ memo', transform replace (fun n news => liftM (n.rebuild news)) n memo s next =
        .ok (((n, memo'), s), next) ∧ ∀ x, K x → ∀ y, memo'.lookup x.id = some y → y = x := by
  induction n using Node.induct generalizing memo with
  | step n ih =>
    rw [transform]
    cases found : memo.lookup n.id with
    | some y =>
      have same : y = n := known n hn y found
      exact ⟨memo, same ▸ rfl, known⟩
    | none =>
      have each (l : List { c // c ∈ n.children }) (news : List Node) {memo : Memo}
          (known : ∀ x, K x → ∀ y, memo.lookup x.id = some y → y = x) :
          ∃ memo', (l.foldlM (fun (done : List Node × Memo) child => do
            let new ← transform replace (fun n news => liftM (n.rebuild news)) child.1 done.2
            pure (done.1 ++ [new.1], new.2)) (news, memo) : StateT σ Build (List Node × Memo)) s next =
              .ok (((news ++ l.map (·.1), memo'), s), next) ∧
            ∀ x, K x → ∀ y, memo'.lookup x.id = some y → y = x := by
        induction l generalizing news memo with
        | nil =>
          refine ⟨memo, ?_, known⟩
          rw [List.map_nil, List.append_nil]
          rfl
        | cons c l ihl =>
          obtain ⟨mid, run, known⟩ := ih c.1 c.2 (hK.closed hn _ c.2)
            (fun x hx => none x (.deeper c.2 hx)) known
          obtain ⟨memo', rest, known⟩ := ihl (news ++ [c.1]) known
          refine ⟨memo', ?_, known⟩
          rw [List.map_cons, List.append_cons, ← rest, List.foldlM_cons]
          exact Build.bind_run_over (Build.bind_run_over run)
      obtain ⟨memo', run, known⟩ := each n.children.attach [] known
      rw [List.nil_append, List.attach_map_subtype_val] at run
      have same : sameAll n.children n.children = true := beq_self_eq_true _
      have kept : (liftM (n.rebuild n.children) : StateT σ Build Node) s next =
          .ok ((n, s), next) := by
        rw [rebuild, withChildren?, if_pos same]
        rfl
      refine ⟨(n.id, n) :: memo', ?_, ?_⟩
      · refine (Build.bind_run_over (none n .root)).trans ?_
        exact (Build.bind_run_over run).trans (Build.bind_run_over kept)
      · intro x hx y hy
        obtain ⟨id, rfl⟩ | hy := eq_or_of_lookup_cons hy
        · exact (hK.unique hx hn id).symm
        · exact known x hx y hy

theorem substitute_of_none (hK : K.Valid next) (hn : K n)
    (none : ∀ x, Occurs x n → replace x s next = .ok ((none, s), next)) :
    substitute replace n s next = .ok ((n, s), next) := by
  have unknown : ∀ x, K x → ∀ y, List.lookup x.id ([] : Memo) = some y → y = x :=
    fun _ _ _ h => nomatch h
  obtain ⟨memo, run, -⟩ := transform_of_none hK hn none unknown
  exact Build.bind_run_over run

variable {factories : Factories} {scope : Scope} {diagnostics : List Diagnostic}

/-- A tree without deferred expressions is left as it is, however many steps may be taken. -/
theorem resolveWithin_of_plain (hK : K.Valid next) (hn : K n)
    (plain : ∀ x, Occurs x n → x.isDeferred = false) (steps : Nat) :
    resolveWithin factories scope steps n diagnostics next = .ok ((n, diagnostics), next) := by
  have none (resolve : Option (Node → StateT (List Diagnostic) Build Node)) (x : Node)
      (hx : Occurs x n) : resolveStep factories scope resolve x diagnostics next =
        .ok ((none, diagnostics), next) := by
    have other := plain x hx
    rcases x with ⟨id, kind, type, annotations, reports⟩
    cases kind <;> first | rfl | cases other
  cases steps with
  | zero => exact substitute_of_none hK hn (none _)
  | succ steps => exact substitute_of_none hK hn (none _)

end Node

/-! ## Comparisons -/

section Comparison

variable {b : Value} {left : Node} {op : BinaryOp} {i : Identity}

namespace Site

variable {input : Input} {value : Value} (site : Site)

theorem resolve_of_plain (plain : input.toValue? = some value) :
    site.resolve input = site.literal input := by
  unfold resolve
  by_cases only : site.role.isLiteralOnly = true
  · rw [if_pos only]
  · rw [if_neg only]
    cases input <;> first | rfl | cases plain

/-- A plain value is coerced as what it stands for at its place. -/
theorem coerce_of_plain (plain : input.toValue? = some value) :
    site.coerce input = (site.literal input >>= fun resolved =>
      match resolved with
      | .node n => if site.role.accepts n then site.settle input n else site.convert input resolved
      | _ => site.convert input resolved) := by
  rw [← site.resolve_of_plain plain]
  cases input <;> first | rfl | cases plain

/-- A parameter on the right of an operator stays as it is, unless only the left side has a type. -/
theorem settle_binaryElement {n : Node} {bind : BindParam} (hn : n.kind = .bind bind)
    (typed : n.type.isNull = true → left.type.isNull = true) :
    (⟨.binaryElement, { left := some left, operator := some op }⟩ : Site).settle input n =
      pure (.node n) := by
  have same : (n.type.isNull && !left.type.isNull) = false := by
    rw [Bool.and_eq_false_iff, Bool.not_eq_false']
    by_cases unknown : n.type.isNull = true
    · exact .inr (typed unknown)
    · exact .inl (by rwa [Bool.not_eq_true] at unknown)
  simp only [settle, hn, Option.map_some, Option.getD_some, same, Bool.false_eq_true, if_false]

end Site

/-- A parameter compared with an expression has a type if the expression has one. -/
theorem exists_paramAgainst (left : Node) (value : Value) (i : Identity) :
    ∃ key type, (type.isNull = true → left.type.isNull = true) ∧
      Build.paramAgainst (some left) value false i =
        .ok (⟨i, .bind ⟨key, value, true, false, false⟩, type, [], []⟩, i + 1) := by
  refine ⟨_, _, ?_, rfl⟩
  show (if (SqlType.ofValue value).isNull then left.type else SqlType.ofValue value).isNull = true →
    left.type.isNull = true
  by_cases unknown : (SqlType.ofValue value).isNull = true
  · rw [if_pos unknown]
    exact id
  · rw [if_neg unknown]
    exact fun known => absurd known unknown

/-- A plain value on the right of an operator becomes a parameter that carries it. -/
theorem coerceNode_binaryElement {input : Input} {value : Value}
    (plain : input.toValue? = some value) (left : Node) (op : BinaryOp) (i : Identity) :
    ∃ key type, coerceNode .binaryElement input { left := some left, operator := some op } i =
      .ok ((⟨i, .bind ⟨key, value, true, false, false⟩, type, [], []⟩, []), i + 1) := by
  let site : Site := ⟨.binaryElement, { left := some left, operator := some op }⟩
  obtain ⟨key, type, typed, made⟩ := exists_paramAgainst left value i
  have literal : site.literal input = .node <$> liftM (Build.paramAgainst (some left) value false) := by
    show Site.literal ⟨.binaryElement, _⟩ input = _
    simp only [Site.literal, plain]
  refine ⟨key, type, ?_⟩
  have run : site.coerce input [] i = .ok ((.node
      ⟨i, .bind ⟨key, value, true, false, false⟩, type, [], []⟩, []), i + 1) := by
    have node : site.literal input [] i = .ok ((.node
        ⟨i, .bind ⟨key, value, true, false, false⟩, type, [], []⟩, []), i + 1) := by
      rw [literal, map_eq_pure_bind]
      exact Build.bind_run_over (Build.lift_run made)
    have accepted : Role.accepts .binaryElement
        ⟨i, .bind ⟨key, value, true, false, false⟩, type, [], []⟩ = true := rfl
    rw [site.coerce_of_plain plain, Build.bind_run_over node]
    show (if Role.accepts .binaryElement _ then _ else _ : Coerce Coerced) [] (i + 1) = _
    rw [if_pos accepted, Site.settle_binaryElement rfl typed]
    rfl
  have expected : expect .binaryElement input { left := some left, operator := some op } i =
      .ok (⟨.node ⟨i, .bind ⟨key, value, true, false, false⟩, type, [], []⟩, []⟩, i + 1) :=
    Build.bind_run run
  exact Build.bind_run expected

/-- A comparison with a value that was an input: its right side is a parameter with the value that is
given back. -/
theorem compare_ofValue (proper : ∀ v ∈ b.jsons, v.IsProper) (present : b.received.isNull = false)
    (left : Node) (op : BinaryOp) (i : Identity) :
    ∃ key type, left.compare op (.ofValue b) i = .ok (⟨i + 1,
      .binary left op ⟨i, .bind ⟨key, b.received, true, false, false⟩, type, [], []⟩, .boolean, [], []⟩,
        i + 2) := by
  have plain : (Input.ofValue b).toValue? = some b.received := Value.toValue?_ofValue proper
  have some : (Input.ofValue b).isNone = false := by
    generalize Input.ofValue b = input at plain
    cases input with
    | nothing =>
      rw [← Option.some.inj plain] at present
      cases present
    | _ => rfl
  obtain ⟨key, type, run⟩ := coerceNode_binaryElement plain left op i
  refine ⟨key, type, ?_⟩
  rw [Node.compare, if_neg (by rw [some]; exact Bool.false_ne_true)]
  exact Build.bind_run run

/-- A comparison with no value at all is one by identity, if the operator has such a form. -/
theorem compare_nothing {op' : BinaryOp} (against : Node.operatorAgainstNone op = some op')
    (left : Node) (i : Identity) :
    left.compare op .nothing i =
      .ok (⟨i + 1, .binary left op' ⟨i, .null, .null, [], []⟩, .boolean, [], []⟩, i + 2) := by
  unfold Node.compare
  rw [if_pos (show Input.nothing.isNone = true from rfl), against]
  rfl

theorem compare_nothing_error (against : Node.operatorAgainstNone op = none) (left : Node)
    (i : Identity) :
    left.compare op .nothing i = .error (.construction .comparisonWithNone) := by
  unfold Node.compare
  rw [if_pos (show Input.nothing.isNone = true from rfl), against]
  rfl

/-- The factory of a deferred comparison with a name of the scope. -/
def comparing (left : Node) (op : BinaryOp) (name : String) (scope : Scope) : Build Input :=
  .node <$> left.compare op (scope.input name)

variable {K : Heap} {next : Identity} {n : Node} {lambda : Lambda} {factories : Factories}
  {scope : Scope} {name : String}

/-- A predicate is taken as it is wherever a deferred expression may stand, unless it stands for a
statement. -/
theorem coerceNode_predicate {m right : Node} {role : Role} (allows : role.allowsLambda = true)
    (expression : role ≠ .statement) (hm : m.kind = .binary left op right) (i : Identity) :
    coerceNode role (.node m) {} i = .ok ((m, []), i) := by
  let site : Site := ⟨role, {}⟩
  have taken : role.accepts m = true ∧
      site.settle (.node m) m [] i = .ok ((.node m, []), i) := by
    rcases m with ⟨id, kind, type, annotations, diagnostics⟩
    cases hm
    cases role with
    | columnsClause | onClause | whereHaving | orderBy | groupBy => exact ⟨rfl, rfl⟩
    | statement => exact absurd rfl expression
    | _ => cases allows
  have run : site.coerce (.node m) [] i = .ok ((.node m, []), i) :=
    (congrArg (fun step => step [] i) (@Site.coerce_of_accepts site m taken.1)).trans taken.2
  have expected : expect role (.node m) {} i = .ok (⟨.node m, []⟩, i) := Build.bind_run run
  exact Build.bind_run expected

theorem containsDeferred_of_deferred {role : Role} (deferred : n.kind = .deferred lambda role) :
    n.containsDeferred = true := by
  have found : n.isDeferred = true := by rw [Node.isDeferred, deferred]
  rw [Node.containsDeferred, Node.lookForDeferred, found]
  rfl

/-- A deferred expression is replaced by the node that its factory makes, if its role takes the node
as it is and nothing in it is deferred. -/
theorem resolved_of_makes {m : Node} {role : Role} {next' : Identity} (hK : K.Valid next') (hm : K m)
    (plain : ∀ x, Node.Occurs x m → x.isDeferred = false)
    (makes : factories lambda.factory scope next = .ok (.node m, next'))
    (taken : coerceNode role (.node m) {} next' = .ok ((m, []), next'))
    (deferred : n.kind = .deferred lambda role) :
    n.resolved factories scope next = .ok ((m, []), next') := by
  obtain ⟨steps, max⟩ : ∃ steps, maxSteps = steps + 1 := ⟨99, rfl⟩
  have left : Node.resolveWithin factories scope steps m [] next' = .ok ((m, []), next') :=
    Node.resolveWithin_of_plain hK hm plain steps
  have offered : Node.resolveStep factories scope
      (some (Node.resolveWithin factories scope steps)) n [] next = .ok ((some m, []), next') := by
    unfold Node.resolveStep
    rw [deferred]
    refine (Build.bind_run_over (Build.lift_run makes)).trans ?_
    refine (Build.bind_run_over (Build.lift_run taken)).trans ?_
    show (Node.resolveWithin factories scope steps m >>= fun out => pure (some out)) [] next' = _
    rw [Build.bind_run_over left]
    rfl
  have replaced : Node.transform (Node.resolveStep factories scope
      (some (Node.resolveWithin factories scope steps))) (fun n news => liftM (n.rebuild news)) n []
        [] next = .ok (((m, [(n.id, m)]), []), next') := by
    rw [Node.transform]
    exact Build.bind_run_over offered
  rw [Node.resolved, if_pos (containsDeferred_of_deferred deferred), max]
  exact Build.bind_run_over replaced

/-- A deferred expression whose factory fails cannot be replaced. -/
theorem resolved_of_fails {role : Role} {e : Error}
    (fails : factories lambda.factory scope next = .error e)
    (deferred : n.kind = .deferred lambda role) : n.resolved factories scope next = .error e := by
  obtain ⟨steps, max⟩ : ∃ steps, maxSteps = steps + 1 := ⟨99, rfl⟩
  have offered : Node.resolveStep factories scope
      (some (Node.resolveWithin factories scope steps)) n [] next = .error e := by
    unfold Node.resolveStep
    rw [deferred]
    exact Build.bind_run_error_over (Build.lift_run_error fails)
  have failed : Node.transform (Node.resolveStep factories scope
      (some (Node.resolveWithin factories scope steps))) (fun n news => liftM (n.rebuild news)) n []
        [] next = .error e := by
    rw [Node.transform]
    exact Build.bind_run_error_over offered
  rw [Node.resolved, if_pos (containsDeferred_of_deferred deferred), max]
  exact Build.bind_run_error_over failed

/-- A deferred comparison with a name of the scope is replaced by the comparison that its factory
makes of an expression and a new node with nothing below it. -/
theorem resolved_of_compares {op' : BinaryOp} {kind : Kind Node} {type : SqlType} {role : Role}
    (hK : K.Valid next) (hleft : K left) (plain : ∀ x, Node.Occurs x left → x.isDeferred = false)
    (makes : factories lambda.factory = comparing left op name)
    (allows : role.allowsLambda = true) (expression : role ≠ .statement)
    (deferred : n.kind = .deferred lambda role)
    (compared : left.compare op (scope.input name) next = .ok (⟨next + 1,
      .binary left op' ⟨next, kind, type, [], []⟩, .boolean, [], []⟩, next + 2))
    (childless : kind.children = [])
    (undeferred : Node.isDeferred ⟨next, kind, type, [], []⟩ = false) :
    ∃ m right next', n.resolved factories scope next = .ok ((m, []), next') ∧
      m.kind = .binary left op' right ∧ right.kind = kind := by
  generalize hright : (⟨next, kind, type, [], []⟩ : Node) = right at compared undeferred
  generalize hm : (⟨next + 1, .binary left op' right, .boolean, [], []⟩ : Node) = m at compared
  have predicate : m.kind = .binary left op' right := hm ▸ rfl
  have operands (c : Node) (hc : c ∈ m.children) : c = left ∨ c = right := by
    rw [Node.children, predicate] at hc
    exact List.mem_pair.1 hc
  have below : right.children = [] := hright ▸ childless
  have valid : ((K.insert right).insert m).Valid (next + 2) := by
    refine (hK.insert (hright ▸ rfl) fun c hc => ?_).insert (hm ▸ rfl) fun c hc => ?_
    · rw [below] at hc
      cases hc
    · obtain same | same := operands c hc
      · exact .inl (same ▸ hleft)
      · exact .inr same
  have done (x : Node) (hx : Node.Occurs x m) : x.isDeferred = false := by
    cases hx with
    | root => exact hm ▸ rfl
    | deeper hc hx =>
      obtain same | same := operands _ hc
      · exact plain x (same ▸ hx)
      · rw [same] at hx
        cases hx with
        | root => exact undeferred
        | deeper hc _ =>
          rw [below] at hc
          cases hc
  have made : factories lambda.factory scope next = .ok (.node m, next + 2) := by
    rw [makes, comparing, map_eq_pure_bind]
    exact Build.bind_run compared
  exact ⟨m, right, next + 2, resolved_of_makes valid (.inr rfl) done made
    (coerceNode_predicate allows expression predicate _) deferred, predicate, hright ▸ rfl⟩

/-- Every value comes back from an input, as itself unless there is JSON in it that is no object or
has an integer that 64 bits with a sign do not hold.  A deferred comparison with a name of the scope
that is bound to it, wherever an expression may be deferred, becomes a comparison with a parameter that
carries what comes back.  If this is no value at all, the name reads as none and makes no parameter:
the comparison becomes one with NULL by identity, and it fails where its operator has no such form. -/
theorem toValue?_ofValue_and_resolved (proper : ∀ v ∈ b.jsons, v.IsProper) :
    (Input.ofValue b).toValue? = some b.received ∧
      (b.received = b ↔ ∀ v ∈ b.jsons, Value.IsKept v) ∧
      ∀ (scope : Scope) (name : String), scope.get? name = some b →
        (b.received.isNull = true → scope.input name = .nothing) ∧
        ∀ (factories : Factories) (lambda : Lambda) (role : Role) (left : Node) (op : BinaryOp)
          (n : Node) (K : Heap) (next : Identity), K.Valid next → K left →
          (∀ x, Node.Occurs x left → x.isDeferred = false) →
          factories lambda.factory = comparing left op name →
          role.allowsLambda = true → role ≠ .statement → n.kind = .deferred lambda role →
          (b.received.isNull = false →
            ∃ m right key next', n.resolved factories scope next = .ok ((m, []), next') ∧
              m.kind = .binary left op right ∧
                right.kind = .bind ⟨key, b.received, true, false, false⟩) ∧
          (b.received.isNull = true →
            (∀ op', Node.operatorAgainstNone op = some op' →
              ∃ m right next', n.resolved factories scope next = .ok ((m, []), next') ∧
                m.kind = .binary left op' right ∧ right.kind = .null) ∧
            (Node.operatorAgainstNone op = none →
              n.resolved factories scope next = .error (.construction .comparisonWithNone))) := by
  have back : (Input.ofValue b).toValue? = some b.received := Value.toValue?_ofValue proper
  refine ⟨back, Value.received_eq_iff, fun scope name bound => ?_⟩
  have read : scope.input name = .ofValue b := by rw [Scope.input, bound]
  have nothing (null : b.received.isNull = true) : scope.input name = .nothing :=
    read.trans (Value.ofValue_of_isNull null)
  refine ⟨nothing, ?_⟩
  intro factories lambda role left op n K next hK hleft plain makes allows expression deferred
  refine ⟨fun present => ?_, fun null => ⟨fun op' against => ?_, fun against => ?_⟩⟩
  · obtain ⟨key, type, compared⟩ := compare_ofValue proper present left op next
    rw [← read] at compared
    obtain ⟨m, right, next', run, kinds⟩ :=
      resolved_of_compares hK hleft plain makes allows expression deferred compared rfl rfl
    exact ⟨m, right, key, next', run, kinds⟩
  · have compared := compare_nothing against left next
    rw [← nothing null] at compared
    exact resolved_of_compares hK hleft plain makes allows expression deferred compared rfl rfl
  · refine resolved_of_fails ?_ deferred
    rw [makes, comparing, nothing null, map_eq_pure_bind]
    exact Build.bind_run_error (compare_nothing_error against left next)

/-! ### An object in a list beside an array -/

section Sample

/-- A list with an object, which is kept, and an array, which is not. -/
def sampleBound : Value :=
  .list [.json (.object [("a", .array [.number (.integer 1), .null]), ("b", .string "x")]),
    .json (.array [.number (.integer 2)])]

/-- A comparison with the list has it as a parameter, and one with the null of JSON has none. -/
theorem resolved_sampleBound :
    (∀ v ∈ sampleBound.jsons, v.IsProper) ∧
      (Input.ofValue sampleBound).toValue? = some sampleBound.received ∧
      (∃ m right key next',
        (Node.sampleDeferred 4 0).resolved (fun _ => comparing (Node.sampleColumn 0) .eq "k")
          ⟨[("k", sampleBound)]⟩ 10 = .ok ((m, []), next') ∧
        m.kind = .binary (Node.sampleColumn 0) .eq right ∧
          right.kind = .bind ⟨key, sampleBound.received, true, false, false⟩) ∧
      ∃ m right next',
        (Node.sampleDeferred 4 0).resolved (fun _ => comparing (Node.sampleColumn 0) .eq "k")
          ⟨[("k", .json .null)]⟩ 10 = .ok ((m, []), next') ∧
        m.kind = .binary (Node.sampleColumn 0) .is right ∧ right.kind = .null := by
  have proper : ∀ v ∈ sampleBound.jsons, v.IsProper := by
    intro v hv
    obtain same | same := List.mem_pair.1 hv
    · rw [same]
      exact ⟨by decide, ⟨⟨by decide, by decide⟩, trivial, trivial⟩, trivial, trivial⟩
    · rw [same]
      exact ⟨⟨by decide, by decide⟩, trivial⟩
  have proper' : ∀ v ∈ (Value.json .null).jsons, v.IsProper := by
    intro v hv
    rw [List.mem_singleton.1 hv]
    trivial
  have valid : Heap.Valid (· ∈ [Node.sampleColumn 0, Node.sampleTable 0]) 10 := by
    refine Heap.valid_of_list ?_ (by decide) (by decide)
    simp [Node.sampleColumn, Node.sampleTable, Node.children, Kind.children]
  have plain (x : Node) (hx : Node.Occurs x (Node.sampleColumn 0)) : x.isDeferred = false := by
    cases hx with
    | root => rfl
    | deeper hc hx =>
      rw [List.mem_singleton.1 hc] at hx
      cases hx with
      | root => rfl
      | deeper hc _ => cases hc
  obtain ⟨back, -, read⟩ := toValue?_ofValue_and_resolved proper
  obtain ⟨-, -, read'⟩ := toValue?_ofValue_and_resolved proper'
  obtain ⟨-, compared⟩ := read ⟨[("k", sampleBound)]⟩ "k" rfl
  obtain ⟨-, compared'⟩ := read' ⟨[("k", .json .null)]⟩ "k" rfl
  refine ⟨proper, back, ?_, ?_⟩
  · exact (compared _ ⟨5, 0⟩ .whereHaving _ _ _ _ _ valid List.mem_cons_self plain rfl rfl
      (by decide) rfl).1 rfl
  · exact ((compared' _ ⟨5, 0⟩ .whereHaving _ _ _ _ _ valid List.mem_cons_self plain rfl rfl
      (by decide) rfl).2 rfl).1 _ rfl

/-- An array of JSON comes back as a list, and the largest integer of 64 bits as a real. -/
theorem toValue?_ofValue_ne : ∃ array large : Json,
    array.IsProper ∧ large.IsProper ∧
      (Input.ofValue (.json array)).toValue? = some (.list [.integer 1, .integer 2]) ∧
      (Input.ofValue (.json array)).toValue? ≠ some (.json array) ∧
      (Input.ofValue (.json large)).toValue? =
        some (.json (.object [("a", .number (.real (.ofInt 18446744073709551615)))])) ∧
      (Input.ofValue (.json large)).toValue? ≠ some (.json large) := by
  refine ⟨.array [.number (.integer 1), .number (.integer 2)],
    .object [("a", .number (.integer 18446744073709551615))],
    ⟨⟨by decide, by decide⟩, ⟨by decide, by decide⟩, trivial⟩,
    ⟨by decide, ⟨by decide, by decide⟩, trivial⟩, rfl, nofun, rfl, nofun⟩

end Sample

end Comparison

end SqlAlgebra
