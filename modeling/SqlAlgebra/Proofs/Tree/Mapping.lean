import SqlAlgebra.Proofs.Tree.Heap
import SqlAlgebra.Proofs.Tree.Refill

/-!
# Calling back for each child

A shape can be gone over place by place, with a callback for every child and everything else copied.
That is the same as calling back for the list of its children and filling the shape with the
results, so the list and the places agree on which children there are and in which order.  A node of
which every child is handed back itself is left alone, and `transform` goes over a tree in this way.
-/

namespace SqlAlgebra

section Traversal

variable {m : Type → Type} [Monad m] {α β κ : Type}

namespace Kind

/-- Calls back for the values under some keys. -/
def traversePairs (f : α → m β) (values : List (κ × α)) : m (List (κ × β)) :=
  values.mapM fun value => do
    let new ← f value.2
    pure (value.1, new)

/-- Calls back for every child of a shape, place by place. -/
def traverse (f : α → m β) : Kind α → m (Kind β)
  | .null => pure .null
  | .truth value => pure (.truth value)
  | .bind b => pure (.bind b)
  | .column name source isLiteral => do pure (.column name (← source.mapM f) isLiteral)
  | .text sql => pure (.text sql)
  | .textualSelect sql columns => do pure (.textualSelect (← f sql) columns)
  | .unary op operand => do pure (.unary op (← f operand))
  | .binary left op right => do pure (.binary (← f left) op (← f right))
  | .clauseList op clauses => do pure (.clauseList op (← clauses.mapM f))
  | .grouping e => do pure (.grouping (← f e))
  | .function name args => do pure (.function name (← args.mapM f))
  | .cast e type => do pure (.cast (← f e) type)
  | .label name e => do pure (.label name (← f e))
  | .labelReference e => do pure (.labelReference (← f e))
  | .textualLabelReference name => pure (.textualLabelReference name)
  | .ordering e isDescending nulls => do pure (.ordering (← f e) isDescending nulls)
  | .table t => pure (.table t)
  | .alias e name => do pure (.alias (← f e) name)
  | .subquery e name => do pure (.subquery (← f e) name)
  | .scalarSubquery e => do pure (.scalarSubquery (← f e))
  | .tableValued e => do pure (.tableValued (← f e))
  | .join j => do pure (.join ⟨← f j.left, ← f j.right, ← f j.on, j.kind⟩)
  | .select s => do
    pure (.select ⟨← s.columns.mapM f, ← s.froms.mapM f, ← s.criteria.mapM f, ← s.groupBy.mapM f,
      ← s.having.mapM f, ← s.orderBy.mapM f, ← s.limit.mapM f, ← s.offset.mapM f, s.isDistinct,
      s.autoCorrelate⟩)
  | .compound op selects => do pure (.compound op (← selects.mapM f))
  | .insert i => do
    let target ← f i.table
    let values ← traversePairs f i.values
    let source ← i.source.mapM fun source => do
      let query ← f source.2
      pure (source.1, query)
    pure (.insert ⟨target, values, source, ← i.returning.mapM f⟩)
  | .update u => do
    pure (.update ⟨← f u.table, ← traversePairs f u.values, ← u.criteria.mapM f,
      ← u.returning.mapM f⟩)
  | .delete d => do
    pure (.delete ⟨← f d.table, ← d.criteria.mapM f, ← d.returning.mapM f⟩)
  | .deferred lambda role => pure (.deferred lambda role)

/-- A shape with its attributes and the places of its children alone. -/
def outline (k : Kind α) : Kind Unit := Id.run (k.traverse fun _ => pure ())

end Kind

namespace Node

/-- Calls back for a child, and notes whether another node was given. -/
def noting (f : Node → m Node) (c : Node) : StateT Bool m Node := fun changed => do
  let new ← f c
  pure (new, changed || !new.isSame c)

/-- A node with what a callback gives for each child, or none if these are the children. -/
def mapChildren? (f : Node → m Node) (n : Node) : m (Option Node) := do
  let (kind, changed) ← (n.kind.traverse (noting f)).run false
  pure (if changed then some { n with kind := kind } else none)

end Node

/-! ## Places and lists -/

section Lists

variable [LawfulMonad m]

/-- There are as many results as calls. -/
theorem mapM_bind_congr {γ : Type} {f : α → m β} {l : List α} {g h : List β → m γ}
    (same : ∀ news, news.length = l.length → g news = h news) :
    l.mapM f >>= g = l.mapM f >>= h := by
  have sized :
      ∃ x : m { news : List β // news.length = l.length }, l.mapM f = Subtype.val <$> x := by
    clear same
    induction l with
    | nil => exact ⟨pure ⟨[], rfl⟩, by rw [List.mapM_nil, map_pure]⟩
    | cons a l ih =>
      obtain ⟨x, hx⟩ := ih
      refine ⟨do
        let new ← f a
        let news ← x
        pure ⟨new :: news.1, congrArg Nat.succ news.2⟩, ?_⟩
      rw [List.mapM_cons, hx]
      simp only [map_bind, map_pure, bind_map_left]
  obtain ⟨x, hx⟩ := sized
  rw [hx, bind_map_left, bind_map_left]
  exact congrArg (x >>= ·) (funext fun news => same news.1 news.2)

namespace Kind

theorem mapM_option (f : α → m α) (o : Option α) :
    o.mapM f = (fun news => (refillOption o news).1) <$> o.toList.mapM f := by
  cases o with
  | none => rw [Option.toList_none, List.mapM_nil, map_pure]; rfl
  | some a =>
    rw [Option.toList_some, List.mapM_cons, map_bind]
    simp only [List.mapM_nil, map_pure, bind_pure_comp]
    rfl

theorem traversePairs_eq (f : α → m α) (values : List (κ × α)) :
    traversePairs f values =
      (fun news => List.zipWith (fun value new => (value.1, new)) values news) <$>
        (values.map Prod.snd).mapM f := by
  induction values with
  | nil => simp [traversePairs]
  | cons value values ih =>
    unfold traversePairs at ih ⊢
    rw [List.mapM_cons, List.map_cons, List.mapM_cons, ih]
    simp only [map_eq_pure_bind, bind_assoc, pure_bind, List.zipWith_cons_cons]

theorem refillOption_front {old : Option α} {news rest : List α}
    (h : news.length = old.toList.length) :
    refillOption old (news ++ rest) = ((refillOption old news).1, rest) := by
  obtain ⟨new, rfl⟩ := exists_toList h
  rw [refillOption_append h, refillOption_all h]

/-- Going over a shape place by place is calling back for the list of its children. -/
theorem traverse_eq (f : α → m α) (k : Kind α) : k.traverse f = k.refill <$> k.children.mapM f := by
  cases k with
  | null | truth | bind | text | textualLabelReference | table | deferred =>
    simp [traverse, children, refill]
  | textualSelect | unary | grouping | cast | label | labelReference | ordering | «alias» | subquery
  | scalarSubquery | tableValued | binary | join =>
    simp only [traverse, children, List.mapM_cons, List.mapM_nil, map_eq_pure_bind, bind_assoc,
      pure_bind, refill, refillOne]
  | column name source isLiteral =>
    simp only [traverse, children, mapM_option, map_eq_pure_bind, bind_assoc, pure_bind, refill]
  | clauseList | function | compound =>
    simp only [traverse, children, map_eq_pure_bind]
    refine mapM_bind_congr fun news h => ?_
    rw [refill, refillMany_all h]
  | select s =>
    simp only [traverse, children, Select.children, mapM_option, List.mapM_append, map_eq_pure_bind,
      bind_assoc, pure_bind]
    refine mapM_bind_congr fun columns h₁ => mapM_bind_congr fun froms h₂ =>
      mapM_bind_congr fun criteria h₃ => mapM_bind_congr fun groupBy h₄ =>
        mapM_bind_congr fun having h₅ => mapM_bind_congr fun orderBy h₆ =>
          mapM_bind_congr fun limit h₇ => mapM_bind_congr fun offset h₈ => ?_
    simp only [refill, List.append_assoc, refillMany_append h₁, refillMany_append h₂,
      refillOption_front h₃, refillMany_append h₄, refillOption_front h₅, refillMany_append h₆,
      refillOption_front h₇]
  | insert i =>
    rcases i with ⟨target, values, source, returning⟩
    cases source with
    | none =>
      simp only [traverse, children, traversePairs_eq, Option.map_none, Option.toList_none,
        Option.mapM_none, List.append_nil, List.mapM_cons, List.mapM_append, map_eq_pure_bind,
        bind_assoc, pure_bind]
      refine bind_congr fun target' => mapM_bind_congr fun values' h₁ =>
        mapM_bind_congr fun returning' h₂ => ?_
      rw [List.length_map] at h₁
      simp only [refill, refillOne_append, refillPairs_append h₁, refillMany_all h₂]
    | some source =>
      simp only [traverse, children, traversePairs_eq, Option.map_some, Option.toList_some,
        Option.mapM_some, List.mapM_cons, List.mapM_nil, List.mapM_append, map_eq_pure_bind,
        bind_assoc, pure_bind]
      refine bind_congr fun target' => mapM_bind_congr fun values' h₁ =>
        bind_congr fun query => mapM_bind_congr fun returning' h₂ => ?_
      rw [List.length_map] at h₁
      simp only [refill, refillOne_append, List.append_assoc, refillPairs_append h₁,
        List.singleton_append, refillMany_all h₂]
  | update u =>
    simp only [traverse, children, traversePairs_eq, mapM_option, List.mapM_cons, List.mapM_append,
      map_eq_pure_bind, bind_assoc, pure_bind]
    refine bind_congr fun target => mapM_bind_congr fun values h₁ =>
      mapM_bind_congr fun criteria h₂ => mapM_bind_congr fun returning h₃ => ?_
    rw [List.length_map] at h₁
    simp only [refill, refillOne_append, List.append_assoc, refillPairs_append h₁,
      refillOption_front h₂, refillMany_all h₃]
  | delete d =>
    simp only [traverse, children, mapM_option, List.mapM_cons, List.mapM_append, map_eq_pure_bind,
      bind_assoc, pure_bind]
    refine bind_congr fun target => mapM_bind_congr fun criteria h₁ =>
      mapM_bind_congr fun returning h₂ => ?_
    simp only [refill, refillOne_append, refillOption_front h₁, refillMany_all h₂]

/-! ## What filling a shape leaves alone -/

theorem mapM_const (xs : List α) :
    (xs.mapM fun _ => (pure () : Id Unit)) = pure (List.replicate xs.length ()) := by
  induction xs with
  | nil => rfl
  | cons x xs ih =>
    rw [List.mapM_cons, ih]
    rfl

theorem option_mapM_const (o : Option α) :
    (o.mapM fun _ => (pure () : Id Unit)) = pure (o.map fun _ => ()) := by
  cases o <;> rfl

theorem traversePairs_const (values : List (κ × α)) :
    traversePairs (fun _ => (pure () : Id Unit)) values =
      pure (values.map fun value => (value.1, ())) := by
  induction values with
  | nil => rfl
  | cons value values ih =>
    unfold traversePairs at ih ⊢
    rw [List.mapM_cons, ih]
    rfl

theorem map_refillOption (o : Option α) (news : List α) :
    ((refillOption o news).1.map fun _ => ()) = o.map fun _ => () := by
  cases o <;> rfl

theorem map_zipWith_fst {values : List (κ × α)} {news : List α} (h : news.length = values.length) :
    (List.zipWith (fun value new => (value.1, new)) values news).map (fun value => (value.1, ())) =
      values.map fun value => (value.1, ()) := by
  rw [List.map_zipWith]
  induction values generalizing news with
  | nil => cases news <;> rfl
  | cons value values ih =>
    cases news with
    | nil => cases h
    | cons new news => exact congrArg ((value.1, ()) :: ·) (ih (Nat.succ.inj h))

theorem outline_refill_select {s : Select α} {news : List α} (h : news.length = s.children.length) :
    ((Kind.select s).refill news).outline = (Kind.select s).outline := by
  simp only [Select.children, List.length_append] at h
  obtain ⟨news, offset, rfl, h, h₈⟩ := exists_append h
  obtain ⟨news, limit, rfl, h, h₇⟩ := exists_append h
  obtain ⟨news, orderBy, rfl, h, h₆⟩ := exists_append h
  obtain ⟨news, having, rfl, h, h₅⟩ := exists_append h
  obtain ⟨news, groupBy, rfl, h, h₄⟩ := exists_append h
  obtain ⟨news, criteria, rfl, h, h₃⟩ := exists_append h
  obtain ⟨columns, froms, rfl, h₁, h₂⟩ := exists_append h
  simp only [refill, List.append_assoc, refillMany_append h₁, refillMany_append h₂,
    refillOption_front h₃, refillMany_append h₄, refillOption_front h₅, refillMany_append h₆,
    refillOption_front h₇, outline, traverse, mapM_const, option_mapM_const, map_refillOption,
    h₁, h₂, h₄, h₆]

/-- A shape that is given other children keeps its attributes and its places. -/
theorem outline_refill {k : Kind α} {news : List α} (h : news.length = k.children.length) :
    (k.refill news).outline = k.outline := by
  cases k with
  | null | truth | bind | text | textualLabelReference | table | deferred => rfl
  | textualSelect | unary | grouping | cast | label | labelReference | ordering | «alias» | subquery
  | scalarSubquery | tableValued | binary | join => rfl
  | column name source isLiteral =>
    simp only [refill, outline, traverse, option_mapM_const, map_refillOption]
  | clauseList | function | compound =>
    have taken := refillMany_all h
    simp only [children] at taken h
    simp only [refill, taken, outline, traverse, mapM_const, h]
  | select s => exact outline_refill_select h
  | insert i =>
    rcases i with ⟨table, values, source, returning⟩
    obtain ⟨target, news, rfl⟩ := List.exists_cons_of_length_eq_add_one h
    have h := Nat.succ.inj h
    rw [List.length_append, List.length_append, List.length_map] at h
    obtain ⟨news, changed, rfl, h, h₃⟩ := exists_append h
    obtain ⟨news, query, rfl, h₁, h₂⟩ := exists_append h
    have last := refillMany_all h₃
    cases source with
    | none =>
      obtain rfl := List.length_eq_zero_iff.1 h₂
      simp only [refill, refillOne_append, List.append_assoc, refillPairs_append h₁,
        List.nil_append, last, outline, traverse, traversePairs_const, mapM_const,
        map_zipWith_fst h₁, h₃, Option.mapM_none]
    | some source =>
      obtain ⟨query, rfl⟩ := List.length_eq_one_iff.1 h₂
      simp only [refill, refillOne_append, List.append_assoc, refillPairs_append h₁,
        List.cons_append, List.nil_append, last, outline, traverse, traversePairs_const, mapM_const,
        map_zipWith_fst h₁, h₃, Option.mapM_some]
  | update u =>
    rcases u with ⟨table, values, criteria, returning⟩
    obtain ⟨target, news, rfl⟩ := List.exists_cons_of_length_eq_add_one h
    have h := Nat.succ.inj h
    rw [List.length_append, List.length_append, List.length_map] at h
    obtain ⟨news, changed, rfl, h, h₃⟩ := exists_append h
    obtain ⟨news, criteria', rfl, h₁, h₂⟩ := exists_append h
    simp only [refill, refillOne_append, List.append_assoc, refillPairs_append h₁,
      refillOption_front h₂, refillMany_all h₃, outline, traverse, traversePairs_const, mapM_const,
      option_mapM_const, map_refillOption, map_zipWith_fst h₁, h₃]
  | delete d =>
    rcases d with ⟨table, criteria, returning⟩
    obtain ⟨target, news, rfl⟩ := List.exists_cons_of_length_eq_add_one h
    have h := Nat.succ.inj h
    rw [List.length_append] at h
    obtain ⟨criteria', changed, rfl, h₁, h₂⟩ := exists_append h
    simp only [refill, refillOne_append, refillOption_front h₁, refillMany_all h₂, outline,
      traverse, mapM_const, option_mapM_const, map_refillOption, h₂]

end Kind

/-! ## Nodes -/

namespace Node

variable {f : Node → m Node} {n : Node}

theorem run_mapM_noting (cs : List Node) (changed : Bool) :
    (cs.mapM (noting f)).run changed = (do
      let news ← cs.mapM f
      pure (news, changed || !sameAll news cs)) := by
  induction cs generalizing changed with
  | nil => simp [sameAll]
  | cons c cs ih =>
    have both (new : Node) (news : List Node) :
        (changed || !new.isSame c || !sameAll news cs) =
          (changed || !sameAll (new :: news) (c :: cs)) := by
      simp [sameAll, isSame, Bool.or_assoc, Bool.not_and]
    have first : (noting f c).run changed = (do
        let new ← f c
        pure (new, changed || !new.isSame c)) := rfl
    rw [List.mapM_cons, List.mapM_cons, StateT.run_bind, first]
    simp only [StateT.run_bind, StateT.run_pure, ih, bind_assoc, pure_bind, both]

/-- Calling back for the children of a node is calling back for their list, and giving the node the
results as its children. -/
theorem mapChildren?_eq (f : Node → m Node) (n : Node) :
    n.mapChildren? f = (do
      let news ← n.children.mapM f
      pure (n.withChildren? news)) := by
  have given (news : List Node) :
      (if false || !sameAll news n.children then some { n with kind := n.kind.refill news }
        else none) = n.withChildren? news := by
    unfold withChildren?
    cases sameAll news n.children <;> rfl
  unfold mapChildren?
  rw [Kind.traverse_eq, StateT.run_map]
  have children : n.kind.children = n.children := rfl
  rw [children, run_mapM_noting]
  simp only [map_eq_pure_bind, bind_assoc, pure_bind, given]

end Node

end Lists

end Traversal

namespace Node

variable {σ : Type} {offer : Node → StateT σ Build (Option Node)} {n : Node}

/-- Going over a list with a memo is calling back with the memo as a state. -/
theorem foldlM_memo {m : Type → Type} [Monad m] [LawfulMonad m] (f : Node → StateT Memo m Node)
    (l before : List Node) (memo : Memo) :
    l.foldlM (fun (done : List Node × Memo) c => do
      let (new, memo) ← f c done.2
      pure (done.1 ++ [new], memo)) (before, memo) = (do
        let (news, memo) ← (l.mapM f).run memo
        pure (before ++ news, memo)) := by
  induction l generalizing before memo with
  | nil => simp
  | cons c l ih =>
    rw [List.foldlM_cons, List.mapM_cons, StateT.run_bind]
    simp only [bind_assoc, pure_bind, ih, StateT.run_bind, StateT.run_pure, List.append_assoc,
      List.singleton_append]
    rfl

/-- `transform` with its memo as a state. -/
def transforming (offer : Node → StateT σ Build (Option Node))
    (finish : Node → List Node → StateT σ Build Node) (n : Node) :
    StateT Memo (StateT σ Build) Node := transform offer finish n

/-- Going over a tree calls back for the children of every node that is not settled before. -/
theorem transform_eq (settle : Node → Option Node → StateT σ Build Node) (n : Node) (memo : Memo) :
    transform offer (fun n news => settle n (n.withChildren? news)) n memo =
      (match memo.lookup n.id with
      | some done => pure (done, memo)
      | none => do
        match ← offer n with
        | some replacement => pure (replacement, (n.id, replacement) :: memo)
        | none => do
          let (changed?, memo) ← (n.mapChildren? (transforming offer fun n news =>
            settle n (n.withChildren? news))).run memo
          let out ← settle n changed?
          pure (out, (n.id, out) :: memo)) := by
  rw [transform]
  cases memo.lookup n.id with
  | some done => rfl
  | none =>
    refine bind_congr fun offered => ?_
    cases offered with
    | some replacement => rfl
    | none =>
      have below := foldlM_memo (transforming offer fun n news => settle n (n.withChildren? news))
        (n.children.attach.map Subtype.val) [] memo
      rw [List.foldlM_map, List.attach_map_subtype_val] at below
      rw [mapChildren?_eq, StateT.run_bind]
      refine (congrArg (· >>= _) below).trans ?_
      simp only [bind_assoc, pure_bind, StateT.run_pure, List.nil_append]

/-- A node itself, or a copy of what it is changed to. -/
def orCopy (n : Node) : Option Node → Build Node
  | none => pure n
  | some changed => Build.copy changed

/-- A node without its notes, or a copy without notes of what it is changed to. -/
def orStripped (n : Node) : Option Node → Build Node
  | none => n.deannotate
  | some changed => Build.copy { changed with annotations := [] }

theorem substitute_eq_transform (replace : Node → StateT σ Build (Option Node)) (n : Node) :
    substitute replace n = Prod.fst <$>
      transform replace (fun n news => liftM (n.orCopy (n.withChildren? news))) n [] := by
  have finish : (fun (n : Node) (news : List Node) =>
      (liftM (n.rebuild news) : StateT σ Build Node)) =
        fun n news => liftM (n.orCopy (n.withChildren? news)) := by
    funext n news
    unfold rebuild
    cases n.withChildren? news <;> rfl
  rw [map_eq_pure_bind, ← finish]
  rfl

theorem deepDeannotate_eq_transform (n : Node) :
    n.deepDeannotate = (fun result => result.1.1) <$>
      (transform (fun _ => pure none) (fun n news => liftM (n.orStripped (n.withChildren? news))) n
        []).run () := by
  have finish : (fun (n : Node) (news : List Node) =>
      ((match n.withChildren? news with
        | none => n.deannotate
        | some changed => Build.copy { changed with annotations := [] }) :
          StateT Unit Build Node)) = fun n news => liftM (n.orStripped (n.withChildren? news)) := by
    funext n news
    cases n.withChildren? news <;> rfl
  rw [map_eq_pure_bind, ← finish]
  rfl

/-! ## Callbacks with a state that may fail -/

variable {f : Node → StateT σ Build Node} {cs news : List Node} {s s' : σ} {i i' : Identity}
  {e : Error}

theorem length_of_mapM (run : cs.mapM f s i = .ok ((news, s'), i')) : news.length = cs.length := by
  induction cs generalizing news s i with
  | nil =>
    cases run
    rfl
  | cons c cs ih =>
    rw [List.mapM_cons] at run
    obtain ⟨new, s₁, i₁, -, rest⟩ := Build.bind_ok_over run
    obtain ⟨others, s₂, i₂, others', last⟩ := Build.bind_ok_over rest
    cases last
    exact congrArg Nat.succ (ih others')

/-- A callback that fails makes the whole fail. -/
theorem mapChildren?_error (run : n.children.mapM f s i = .error e) :
    n.mapChildren? f s i = .error e := by
  rw [mapChildren?_eq]
  exact Build.bind_run_error_over run

/-- Where every child is handed back itself, nothing is given. -/
theorem mapChildren?_same (run : n.children.mapM f s i = .ok ((news, s'), i'))
    (same : news.map id = n.children.map id) : n.mapChildren? f s i = .ok ((none, s'), i') := by
  have given : n.withChildren? news = none :=
    if_pos (by rw [sameAll, same]; exact beq_self_eq_true _)
  rw [mapChildren?_eq, Build.bind_run_over run, given]
  rfl

/-- Otherwise the node is given with the results for its children, and with everything else as it
was. -/
theorem mapChildren?_other (run : n.children.mapM f s i = .ok ((news, s'), i'))
    (other : news.map id ≠ n.children.map id) :
    ∃ out, n.mapChildren? f s i = .ok ((some out, s'), i') ∧ out.children = news ∧
      out.kind.outline = n.kind.outline ∧ out.type = n.type ∧ out.annotations = n.annotations ∧
        out.diagnostics = n.diagnostics := by
  have length := length_of_mapM run
  have given : n.withChildren? news = some { n with kind := n.kind.refill news } :=
    if_neg (by rw [sameAll, beq_iff_eq]; exact other)
  refine ⟨{ n with kind := n.kind.refill news }, ?_, Kind.children_refill length,
    Kind.outline_refill length, rfl, rfl, rfl⟩
  rw [mapChildren?_eq, Build.bind_run_over run, given]
  rfl

end Node

end SqlAlgebra
