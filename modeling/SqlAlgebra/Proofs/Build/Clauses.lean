import Mathlib.Tactic.Tauto
import SqlAlgebra.Proofs.Build.Retention

/-!
# What the clauses of a statement keep

A statement that is put together clause by clause goes on to have what it had.  Only a conjunction
of criteria is taken apart where a criterion is added, and only a number of rows, a value for the
same column and the SELECT of an INSERT give way to what is set in their place.
-/

namespace SqlAlgebra

open Kind (mem_children_select mem_children_insert mem_children_update mem_children_delete)
open Build (bind_ok bind_run raised_of_coerceNode raised_of_coerceKey raised_single raised_append)

namespace Construction

variable {c : Construction} {out w : Workpiece} {m n x left : Node} {d : Diagnostic}
  {ds : List Diagnostic} {i i' j : Identity} {role : Role} {args : CoercionArgs} {input : Input}
  {inputs : List Input}

/-- A statement that a step works on passes, where what was reported about it is kept, and what it
holds stays or passes in another way. -/
theorem passes_statement {old : List Node} (hp : c.pieces = [w])
    (own : w.diagnostics ⊆ out.diagnostics) (hold : ∀ x ∈ old, c.Passes out (.node x))
    (others : ∀ x ∈ w.children, x ∈ old ∨ x ∈ out.children) : ∀ w' ∈ c.pieces, c.Passes out w' :=
  passes_alone hp (passes_of_children own fun x hx => (others x hx).elim (hold x) passes_child)

/-- A statement that a step works on passes, where all that it holds stays. -/
theorem passes_whole (hp : c.pieces = [w]) (own : w.diagnostics ⊆ out.diagnostics)
    (children : w.children ⊆ out.children) : ∀ w' ∈ c.pieces, c.Passes out w' :=
  passes_alone hp (passes_of_children own fun _ hx => passes_child (children hx))

/-- A step that makes the node of a statement that was put together. -/
theorem retained_finished (hc : c.coercions = []) (hp : c.pieces = [w])
    (own : w.diagnostics = out.diagnostics) (children : w.children = out.children) :
    c.Retained i out :=
  retained_of_none hc (passes_whole hp (fun _ h => own ▸ h) fun _ h => children ▸ h)

/-! ## Criteria -/

/-- A criterion that is added is below the criteria, and so is what was there before, or what it
holds if it is a conjunction. -/
theorem reports_of_conjoin {existing : Option Node} {criteria : Node}
    (run : Node.conjoin existing m i = .ok (criteria, i')) :
    (∀ d, m.Reports d → criteria.Reports d) ∧
      ∀ x ∈ existing, ∀ d, x.Reports d →
        criteria.Reports d ∨ (x.isListOf .and = true ∧ d ∈ x.diagnostics) := by
  cases existing with
  | none =>
    cases run
    exact ⟨fun _ h => h, fun _ h => nomatch h⟩
  | some previous =>
    cases run
    refine ⟨fun d h => h.of_child ?_, fun x hx d h => ?_⟩
    · exact List.mem_append_right _ (List.mem_singleton_self m)
    · cases hx
      rcases reports_clausesUnder h with ⟨y, hy, h⟩ | lost
      · exact .inl (h.of_child (List.mem_append_left _ hy))
      · exact .inr lost

/-- A step that adds a criterion to those of a statement, if there are any. -/
theorem retained_criterion {argname : String} {existing : Option Node} {criteria : Node}
    (hc : c.coercions = [(⟨.whereHaving, { argname := some argname }⟩, input)])
    (hs : c.split = existing.toList.filter (·.isListOf .and)) (hp : c.pieces = [w])
    (coerced : coerceNode .whereHaving input { argname := some argname } i = .ok ((m, ds), j))
    (added : Node.conjoin existing m j = .ok (criteria, i'))
    (own : w.diagnostics ++ ds ⊆ out.diagnostics) (below : criteria ∈ out.children)
    (others : ∀ x ∈ w.children, x ∈ existing.toList ∨ x ∈ out.children) : c.Retained i out := by
  obtain ⟨reports, before⟩ := reports_of_conjoin added
  have new : c.Passes out (.node m) := fun d hd =>
    .inl (.inr ⟨criteria, below, reports d (Workpiece.reports_node.1 hd)⟩)
  have old : ∀ x ∈ existing.toList, c.Passes out (.node x) := by
    refine fun x hx => passes_split fun d hd => ?_
    rcases before x (Option.mem_toList.1 hx) d hd with hd | ⟨list, own⟩
    · exact .inl (.inr ⟨criteria, below, hd⟩)
    · exact .inr ⟨x, hs ▸ List.mem_filter.2 ⟨hx, list⟩, own⟩
  exact retained_of_one hc coerced (fun d hd => .inl (own (List.mem_append_right _ hd))) new
    (passes_statement hp (fun d hd => own (List.mem_append_left _ hd)) old others)

/-! ## SELECT -/

variable {draft draft' : SelectDraft}

theorem retained_resume (run : SelectDraft.ofNode m i = .ok (draft, i')) :
    (resume m).Retained i (.select draft) := by
  unfold SelectDraft.ofNode at run
  cases kind : m.kind with
  | select s =>
    rw [kind] at run
    cases run
    refine retained_finished rfl rfl rfl ?_
    rw [Workpiece.children, Node.children, kind]
    rfl
  | _ =>
    rw [kind] at run
    cases run

theorem retained_select (run : draft.build i = .ok (n, i')) :
    (select draft).Retained i (.node n) := by
  cases run
  exact retained_finished rfl rfl rfl rfl

theorem cases_of_coerce {argname : String}
    (run : draft.coerce role input argname i = .ok ((m, draft'), i')) :
    ∃ ds, coerceNode role input { argname := some argname } i = .ok ((m, ds), i') ∧
      draft' = { draft with diagnostics := draft.diagnostics ++ ds } := by
  obtain ⟨⟨n, ds⟩, i₁, coerced, rest⟩ := bind_ok run
  cases rest
  exact ⟨ds, coerced, rfl⟩

/-- Adding one coerced node after the other to a clause: the nodes are added together, and what was
reported about them too. -/
theorem cases_of_foldlM_coerce (add : Select Node → List Node → Select Node) {argname : String}
    (none : ∀ s, add s [] = s) (more : ∀ s n ns, add (add s [n]) ns = add s (n :: ns))
    (run : (inputs.foldlM (fun draft input => do
      let (n, draft) ← SelectDraft.coerce draft role input argname
      pure { draft with select := add draft.select [n] }) draft : Build SelectDraft) i =
        .ok (draft', i')) :
    ∃ ns ds, Build.coerceNodes role { argname := some argname } inputs i = .ok ((ns, ds), i') ∧
      draft' = ⟨add draft.select ns, draft.diagnostics ++ ds⟩ := by
  induction inputs generalizing draft i with
  | nil =>
    cases run
    exact ⟨[], [], rfl, by rw [none, List.append_nil]⟩
  | cons input inputs ih =>
    rw [List.foldlM_cons] at run
    obtain ⟨draft₁, i₁, step, rest⟩ := bind_ok run
    obtain ⟨⟨n, draft₂⟩, i₂, coerced, last⟩ := bind_ok step
    cases last
    obtain ⟨first, here, rfl⟩ := cases_of_coerce coerced
    obtain ⟨ns, others, there, rfl⟩ := ih rest
    refine ⟨n :: ns, first ++ others, ?_, ?_⟩
    · rw [Build.coerceNodes, bind_run here]
      dsimp only
      rw [bind_run there]
      rfl
    · rw [more, List.append_assoc]

/-- A step that adds nodes to a clause of a SELECT. -/
theorem retained_added (add : Select Node → List Node → Select Node) {argname : String}
    (hc : c.coercions = inputs.map fun input => (⟨role, { argname := some argname }⟩, input))
    (hp : c.pieces = [.select draft])
    (none : ∀ s, add s [] = s) (more : ∀ s n ns, add (add s [n]) ns = add s (n :: ns))
    (children : ∀ s ns x, x ∈ (Kind.select (add s ns)).children ↔
      x ∈ (Kind.select s).children ∨ x ∈ ns)
    (run : (inputs.foldlM (fun draft input => do
      let (n, draft) ← SelectDraft.coerce draft role input argname
      pure { draft with select := add draft.select [n] }) draft : Build SelectDraft) i =
        .ok (draft', i')) : c.Retained i (.select draft') := by
  obtain ⟨ns, ds, coerced, rfl⟩ := cases_of_foldlM_coerce add none more run
  refine retained_of_list hc coerced (fun d hd => .inl (List.mem_append_right _ hd))
    (fun _ _ m hm _ => passes_child ((children _ _ m).2 (.inr hm))) ?_
  exact passes_whole hp (List.subset_append_left _ _) fun x hx => (children _ _ x).2 (.inl hx)

theorem retained_columns (run : draft.columns inputs i = .ok (draft', i')) :
    (columns draft inputs).Retained i (.select draft') := by
  refine retained_added (fun s ns => { s with columns := s.columns ++ ns }) rfl rfl
    (fun s => by simp) (fun s n ns => by simp) (fun s ns x => ?_) run
  simp only [mem_children_select, List.mem_append]
  tauto

theorem retained_groupBy (run : draft.groupBy inputs i = .ok (draft', i')) :
    (groupBy draft inputs).Retained i (.select draft') := by
  refine retained_added (fun s ns => { s with groupBy := s.groupBy ++ ns }) rfl rfl
    (fun s => by simp) (fun s n ns => by simp) (fun s ns x => ?_) run
  simp only [mem_children_select, List.mem_append]
  tauto

theorem retained_orderBy (run : draft.orderBy inputs i = .ok (draft', i')) :
    (orderBy draft inputs).Retained i (.select draft') := by
  refine retained_added (fun s ns => { s with orderBy := s.orderBy ++ ns }) rfl rfl
    (fun s => by simp) (fun s n ns => by simp) (fun s ns x => ?_) run
  simp only [mem_children_select, List.mem_append]
  tauto

theorem retained_source (run : draft.source input i = .ok (draft', i')) :
    (source draft input).Retained i (.select draft') := by
  obtain ⟨⟨m, draft₁⟩, i₁, step, rest⟩ := bind_ok run
  obtain ⟨ds, coerced, rfl⟩ := cases_of_coerce step
  cases rest
  refine retained_of_one rfl coerced (fun d hd => .inl (List.mem_append_right _ hd))
    (passes_child ?_) (passes_whole rfl (List.subset_append_left _ _) fun x hx => ?_)
  · exact mem_children_select.2 (.inr (.inl (List.mem_append_right _ (List.mem_singleton_self m))))
  · simp only [Workpiece.children, mem_children_select, List.mem_append] at hx ⊢
    tauto

theorem mem_getLast?_or_dropLast {α : Type} {l : List α} {a : α} (h : a ∈ l) :
    a ∈ l.getLast?.toList ∨ a ∈ l.dropLast := by
  have ne : l ≠ [] := List.ne_nil_of_mem h
  rw [List.getLast?_eq_some_getLast ne]
  rw [← List.dropLast_append_getLast ne, List.mem_append] at h
  exact h.symm

/-- A join stands in the place of the last FROM element, or comes first if there was none. -/
theorem retained_join {target on : Input} {kind : JoinKind}
    (run : draft.join target on kind i = .ok (draft', i')) :
    (join draft target on kind).Retained i (.select draft') := by
  unfold SelectDraft.join at run
  cases found : draft.select.froms.getLast?.or (SelectDraft.leftmost draft.select.columns) with
  | none =>
    rw [found] at run
    cases run
  | some left =>
    rw [found] at run
    obtain ⟨n, i₁, made, rest⟩ := bind_ok run
    cases rest
    obtain ⟨right, first, j, on', second, coerced, coerced', hk, hd⟩ := cases_of_joined made
    have children : n.children = [left, right, on'] := by rw [Node.children, hk]; rfl
    have mem : n ∈ (Workpiece.select ⟨{ draft.select with
        froms := draft.select.froms.dropLast ++ [n] }, draft.diagnostics⟩).children :=
      mem_children_select.2 (.inr (.inl (List.mem_append_right _ (List.mem_singleton_self n))))
    have below {x : Node} (hx : x ∈ [left, right, on']) :
        (join draft target on kind).Passes _ (.node x) :=
      passes_below mem (children ▸ hx)
    refine retained_of_two rfl coerced coerced' (fun d h => .inr ⟨n, mem, n, .root, hd ▸ h⟩)
      (below (by simp)) (below (by simp))
      (passes_statement rfl (fun d h => h)
        (fun x (last : x ∈ draft.select.froms.getLast?.toList) => ?_) fun x hx => ?_)
    · rw [Option.mem_toList.1 last] at found
      obtain rfl : x = left := Option.some.inj found
      exact below List.mem_cons_self
    · have froms (h : x ∈ draft.select.froms) := mem_getLast?_or_dropLast h
      simp only [Workpiece.children, mem_children_select, List.mem_append] at hx ⊢
      tauto

theorem retained_filter (run : draft.filter input i = .ok (draft', i')) :
    (filter draft input).Retained i (.select draft') := by
  obtain ⟨⟨m, draft₁⟩, i₁, step, rest⟩ := bind_ok run
  obtain ⟨ds, coerced, rfl⟩ := cases_of_coerce step
  obtain ⟨criteria, i₂, added, last⟩ := bind_ok rest
  cases last
  refine retained_criterion rfl rfl rfl coerced added (fun d h => h) ?_ fun x hx => ?_
  · exact mem_children_select.2 (.inr (.inr (.inl (List.mem_singleton_self criteria))))
  · simp only [Workpiece.children, mem_children_select] at hx ⊢
    tauto

theorem retained_having (run : draft.having input i = .ok (draft', i')) :
    (having draft input).Retained i (.select draft') := by
  obtain ⟨⟨m, draft₁⟩, i₁, step, rest⟩ := bind_ok run
  obtain ⟨ds, coerced, rfl⟩ := cases_of_coerce step
  obtain ⟨criteria, i₂, added, last⟩ := bind_ok rest
  cases last
  refine retained_criterion rfl rfl rfl coerced added (fun d h => h) ?_ fun x hx => ?_
  · exact mem_children_select.2
      (.inr (.inr (.inr (.inr (.inl (List.mem_singleton_self criteria))))))
  · simp only [Workpiece.children, mem_children_select] at hx ⊢
    tauto

/-! ### Paging -/

/-- A step that sets a number of rows, in the place of the one that was there. -/
theorem retained_paging {argname : String} {coercion : Coercion} {previous : Option Node}
    {s : Select Node}
    (hc : c.coercions = [(⟨.limitOffset, { argname := some argname }⟩, input)])
    (hr : c.replaced = previous.toList) (hp : c.pieces = [.select draft])
    (run : expect .limitOffset input { argname := some argname } i = .ok (coercion, i'))
    (below : ∀ m ∈ coercion.value.node?, m ∈ (Kind.select s).children)
    (others : ∀ x ∈ (Kind.select draft.select).children,
      x ∈ previous.toList ∨ x ∈ (Kind.select s).children) :
    c.Retained i (.select ⟨s, draft.diagnostics ++ coercion.diagnostics⟩) := by
  refine retained_of (hc ▸ raised_single run) (fun d hd => .inl (List.mem_append_right _ hd))
    (fun place hplace n hn d hd => ?_) ?_
  · rw [hc, List.mem_singleton] at hplace
    subst hplace
    obtain ⟨m, made, h⟩ := Build.reports_of_expect run hn
    refine .inl (.inr ⟨m, below m (by rw [made]; rfl), ?_⟩)
    exact (h d (Workpiece.reports_node.1 hd)).resolve_right fun unwrapped => nomatch unwrapped.1
  · refine passes_statement hp (List.subset_append_left _ _) (fun x hx => ?_) others
    exact passes_replaced (hr ▸ hx)

theorem retained_limit (run : draft.limit input i = .ok (draft', i')) :
    (limit draft input).Retained i (.select draft') := by
  obtain ⟨⟨number, draft₁⟩, i₁, step, rest⟩ := bind_ok run
  obtain ⟨coercion, i₂, coerced, last⟩ := bind_ok step
  cases last
  cases rest
  refine retained_paging rfl rfl rfl coerced (fun m hm => ?_) fun x hx => ?_
  · simp only [mem_children_select, Option.mem_toList]
    tauto
  · simp only [mem_children_select] at hx ⊢
    tauto

theorem retained_offset (run : draft.offset input i = .ok (draft', i')) :
    (offset draft input).Retained i (.select draft') := by
  obtain ⟨⟨number, draft₁⟩, i₁, step, rest⟩ := bind_ok run
  obtain ⟨coercion, i₂, coerced, last⟩ := bind_ok step
  cases last
  cases rest
  refine retained_paging rfl rfl rfl coerced (fun m hm => ?_) fun x hx => ?_
  · simp only [mem_children_select, Option.mem_toList]
    tauto
  · simp only [mem_children_select] at hx ⊢
    tauto

/-! ## INSERT, UPDATE and DELETE -/

/-- Whether what an input stands for is the key that it is, or a node about the same column. -/
def Stands (input : Input) : Coerced → Prop
  | .key s => input = .string s
  | .node n => input.columnKey? = n.columnKey?
  | _ => False

theorem gives_literalKey :
    Site.Gives ((⟨.dmlColumn, args⟩ : Site).literal input) (Stands input) := by
  show Site.Gives (Site.stringKey _ input) _
  unfold Site.stringKey
  split
  · exact .pure rfl
  · exact .throw trivial

theorem gives_stands : Site.Gives ((⟨.dmlColumn, args⟩ : Site).resolve input) (Stands input) := by
  unfold Site.resolve
  refine .ite (fun h => absurd h Bool.false_ne_true) fun _ => ?_
  split
  · exact .pure rfl
  · unfold Site.unwrap
    split
    · next n found =>
      refine .pure ?_
      simp only [Stands, Input.columnKey?, Input.operands, found]
      rfl
    · exact .throw trivial
    · exact .lift (.throw trivial)
  · exact .ite (fun h => absurd h Bool.false_ne_true) fun _ => gives_literalKey
  · exact gives_literalKey

/-- Whether a key that comes out is that of the column that an input is about. -/
def Keys (input : Input) (resolved : Coerced) : Prop :=
  ∀ key, resolved = .key key → input.columnKey? = some key

theorem gives_givenKey {resolved : Coerced} :
    Site.Gives ((⟨.dmlColumn, args⟩ : Site).givenKey input resolved) (Keys input) := by
  unfold Site.givenKey
  split
  · refine .pure fun key h => ?_
    cases h
    rfl
  · exact .throw trivial

theorem gives_settledKey (asKey : args.asKey = true) (h : Stands input (.node n)) :
    Site.Gives ((⟨.dmlColumn, args⟩ : Site).settle input n) (Keys input) := by
  have same : input.columnKey? = n.columnKey? := h
  unfold Site.settle
  dsimp only
  rw [asKey, if_pos rfl]
  split
  · next name source isLiteral kind =>
    refine .pure fun key h => ?_
    cases h
    rw [same, Node.columnKey?, kind]
  · next name element kind =>
    refine .pure fun key h => ?_
    cases h
    rw [same, Node.columnKey?, kind]
  · exact .throw trivial

/-- The key that an input is resolved to is that of the column that it is about. -/
theorem gives_columnKey (asKey : args.asKey = true) :
    Site.Gives ((⟨.dmlColumn, args⟩ : Site).coerce input) (Keys input) := by
  have convert (resolved : Coerced) :
      Site.Gives ((⟨.dmlColumn, args⟩ : Site).convert input resolved) (Keys input) := gives_givenKey
  refine Site.endsOver_coerce gives_stands (fun m lambda allowed _ _ => absurd allowed ?_)
    (fun n h _ => gives_settledKey asKey h) fun resolved _ _ => convert resolved
  exact Bool.false_ne_true

theorem columnKey?_of_coerceKey {key : String} (asKey : args.asKey = true)
    (run : coerceKey .dmlColumn input args i = .ok ((key, ds), i')) :
    input.columnKey? = some key := by
  obtain ⟨⟨value, diagnostics⟩, i₁, first, last⟩ := bind_ok run
  obtain ⟨⟨value', diagnostics'⟩, i₂, coerced, done⟩ := bind_ok first
  cases done
  cases value with
  | key found =>
    cases last
    exact (gives_columnKey asKey []).result coerced key rfl
  | _ => cases last

/-- An assignment: the key that its column has, what was left, and what the value is coerced to. -/
theorem cases_of_assignment {table value : Node} {column y : Input} {key : String}
    (run : Build.assignment table column y i = .ok ((key, value, ds), i')) :
    column.columnKey? = some key ∧
      Build.raised (assignment table column y) i = .ok (ds, i') ∧
        ∀ place ∈ assignment table column y, place.1.role.takesOperand = true →
          ∃ j ds, coerceNode place.1.role place.2 place.1.args j = .ok ((value, ds), i') := by
  obtain ⟨⟨key, first⟩, i₁, coerced, rest⟩ := bind_ok run
  have about : column.columnKey? = some key := columnKey?_of_coerceKey rfl coerced
  dsimp only at rest
  cases declared : table.columnType? key with
  | none =>
    rw [declared] at rest
    cases rest
  | some type =>
    rw [declared] at rest
    obtain ⟨⟨n, second⟩, i₂, coerced', last⟩ := bind_ok rest
    cases last
    have wanted : (column.columnKey?.bind table.columnType?).filter (fun type => !type.isNull) =
        if type.isNull then none else some type := by
      rw [about, Option.bind_some, declared]
      cases known : type.isNull <;> simp [Option.filter, known]
    have places : assignment table column y =
        [(⟨.dmlColumn, { asKey := true, argname := some "column" }⟩, column),
          (⟨.expressionElement,
            { name := some key, isCrud := true, type := if type.isNull then none else some type }⟩,
              y)] := by
      rw [assignment, wanted, about]
    rw [places]
    refine ⟨about, raised_append (raised_of_coerceKey coerced) (raised_of_coerceNode coerced'),
      fun place hplace operand => ?_⟩
    rcases List.mem_cons.1 hplace with rfl | hplace
    · cases operand
    · obtain rfl := List.mem_singleton.1 hplace
      exact ⟨i₁, second, coerced'⟩

/-- The values of a statement after an assignment are the new one and those of the other columns. -/
theorem mem_assign {values : List (String × Node)} {key : String} {value y : Node}
    (h : y = value ∨ ∃ pair ∈ values, pair.1 ≠ key ∧ pair.2 = y) :
    y ∈ (assign values key value).map Prod.snd := by
  unfold assign
  by_cases known : (values.any fun pair => pair.1 == key) = true
  · rw [if_pos known, List.map_map, List.mem_map]
    rcases h with rfl | ⟨pair, hpair, other, rfl⟩
    · obtain ⟨pair, hpair, same⟩ := List.any_eq_true.1 known
      exact ⟨pair, hpair, by rw [Function.comp, if_pos same]⟩
    · exact ⟨pair, hpair, by simp [other]⟩
  · rw [if_neg known, List.map_append, List.mem_append]
    rcases h with rfl | ⟨pair, hpair, -, rfl⟩
    · exact .inr (List.mem_singleton_self _)
    · exact .inl (List.mem_map_of_mem hpair)

/-- A step that assigns a value. -/
theorem retained_assignment {table value : Node} {column y : Input} {key : String}
    {values : List (String × Node)} (hc : c.coercions = assignment table column y)
    (run : Build.assignment table column y i = .ok ((key, value, ds), i'))
    (hr : c.replaced = (values.filter fun pair => some pair.1 = column.columnKey?).map Prod.snd)
    (hp : c.pieces = [w]) (own : w.diagnostics ++ ds ⊆ out.diagnostics)
    (below : ∀ x ∈ (assign values key value).map Prod.snd, x ∈ out.children)
    (others : ∀ x ∈ w.children, x ∈ values.map Prod.snd ∨ x ∈ out.children) : c.Retained i out := by
  obtain ⟨about, raised, coerced⟩ := cases_of_assignment run
  refine retained_of (hc ▸ raised) (fun d hd => .inl (own (List.mem_append_right _ hd)))
    (fun place hplace n hn => ?_)
    (passes_statement hp (fun d hd => own (List.mem_append_left _ hd)) (fun x hx => ?_) others)
  · by_cases operand : place.1.role.takesOperand = true
    · obtain ⟨j, ds, coerced⟩ := coerced place (hc ▸ hplace) operand
      exact passes_coerced hplace coerced (passes_child (below _ (mem_assign (.inl rfl)))) hn
    · rw [Input.operandsAt, if_neg operand] at hn
      cases hn
  · obtain ⟨pair, hpair, rfl⟩ := List.mem_map.1 hx
    by_cases same : pair.1 = key
    · refine passes_replaced ?_
      rw [hr]
      refine List.mem_map_of_mem (List.mem_filter.2 ⟨hpair, ?_⟩)
      rw [about, same]
      exact decide_eq_true rfl
    · exact passes_child (below _ (mem_assign (.inr ⟨pair, hpair, same, rfl⟩)))

/-- A statement about a table that is begun. -/
theorem retained_target {argname : String}
    (hc : c.coercions = [(⟨.dmlTable, { argname := some argname }⟩, input)]) (hp : c.pieces = [])
    (run : coerceNode .dmlTable input { argname := some argname } i = .ok ((m, ds), i'))
    (hds : ∀ d ∈ ds, out.Reports d) (hm : m ∈ out.children) : c.Retained i out :=
  retained_of_one hc run hds (passes_child hm) (hp ▸ fun _ h => nomatch h)

/-- A step that adds columns to those that a statement returns. -/
theorem retained_returning {ns : List Node}
    (hc : c.coercions =
      inputs.map fun input => (⟨.columnsClause, { argname := some "returning" }⟩, input))
    (run : Build.returning inputs i = .ok ((ns, ds), i')) (hp : c.pieces = [w])
    (own : w.diagnostics ++ ds ⊆ out.diagnostics) (below : ∀ m ∈ ns, m ∈ out.children)
    (others : w.children ⊆ out.children) : c.Retained i out :=
  retained_of_list hc run (fun _ hd => .inl (own (List.mem_append_right _ hd)))
    (fun _ _ m hm _ => passes_child (below m hm))
    (passes_whole hp (fun _ hd => own (List.mem_append_left _ hd)) others)

section Insert

variable {draft draft' : InsertDraft}

theorem retained_insertInto (run : InsertDraft.start input i = .ok (draft', i')) :
    (insertInto input).Retained i (.insert draft') := by
  obtain ⟨⟨m, ds⟩, i₁, coerced, rest⟩ := bind_ok run
  cases rest
  exact retained_target rfl rfl coerced (fun d hd => .inl hd) List.mem_cons_self

theorem retained_value {column y : Input} (run : draft.value column y i = .ok (draft', i')) :
    (value draft column y).Retained i (.insert draft') := by
  obtain ⟨⟨key, n, ds⟩, i₁, assigned, rest⟩ := bind_ok run
  cases rest
  refine retained_assignment rfl assigned rfl rfl (fun d h => h)
    (fun x hx => mem_children_insert.2 (.inr (.inl hx))) fun x hx => ?_
  simp only [Workpiece.children, mem_children_insert] at hx ⊢
  tauto

/-- The keys of columns, and what is left where they are resolved. -/
theorem raised_of_keys {names : List String}
    (run : InsertDraft.keys inputs i = .ok ((names, ds), i')) :
    Build.raised (inputs.map fun input =>
      (⟨.dmlColumn, { asKey := true, argname := some "names" }⟩, input)) i = .ok (ds, i') := by
  induction inputs generalizing i names ds with
  | nil =>
    cases run
    rfl
  | cons input inputs ih =>
    obtain ⟨⟨key, first⟩, i₁, here, rest⟩ := bind_ok run
    obtain ⟨⟨others, second⟩, i₂, there, last⟩ := bind_ok rest
    cases last
    exact raised_append (raised_of_coerceKey here) (ih there)

theorem retained_fromSelect {y : Input} (run : draft.fromSelect inputs y i = .ok (draft', i')) :
    (fromSelect draft inputs y).Retained i (.insert draft') := by
  obtain ⟨⟨names, first⟩, i₁, keys, rest⟩ := bind_ok run
  obtain ⟨⟨n, second⟩, i₂, coerced, rest⟩ := bind_ok rest
  cases rest
  refine retained_of (raised_append (raised_of_keys keys) (raised_of_coerceNode coerced))
    (fun d hd => .inl ?_) (fun place hplace m hm => ?_)
    (passes_statement rfl ?_ (fun x hx => passes_replaced hx) fun x hx => ?_)
  · rw [Workpiece.diagnostics, List.append_assoc]
    exact List.mem_append_right _ hd
  · rcases List.mem_append.1 hplace with key | select
    · obtain ⟨input, -, rfl⟩ := List.mem_map.1 key
      cases hm
    · obtain rfl := List.mem_singleton.1 select
      refine passes_coerced hplace coerced (passes_child ?_) hm
      exact mem_children_insert.2 (.inr (.inr (.inl (List.mem_singleton_self n))))
  · intro d hd
    exact List.mem_append_left _ (List.mem_append_left _ hd)
  · simp only [Workpiece.children, mem_children_insert] at hx ⊢
    tauto

theorem retained_returningInserted (run : draft.returning inputs i = .ok (draft', i')) :
    (returningInserted draft inputs).Retained i (.insert draft') := by
  obtain ⟨⟨ns, ds⟩, i₁, coerced, rest⟩ := bind_ok run
  cases rest
  refine retained_returning rfl coerced rfl (fun d h => h) (fun m hm => ?_) fun x hx => ?_
  · exact mem_children_insert.2 (.inr (.inr (.inr (List.mem_append_right _ hm))))
  · simp only [Workpiece.children, mem_children_insert, List.mem_append] at hx ⊢
    tauto

theorem retained_insert (run : draft.build i = .ok (n, i')) :
    (insert draft).Retained i (.node n) := by
  unfold InsertDraft.build at run
  split at run
  · cases run
  · cases run
    exact retained_finished rfl rfl rfl rfl

end Insert

section Update

variable {draft draft' : UpdateDraft}

theorem retained_updateOf (run : UpdateDraft.start input i = .ok (draft', i')) :
    (updateOf input).Retained i (.update draft') := by
  obtain ⟨⟨m, ds⟩, i₁, coerced, rest⟩ := bind_ok run
  cases rest
  exact retained_target rfl rfl coerced (fun d hd => .inl hd) List.mem_cons_self

theorem retained_set {column y : Input} (run : draft.set column y i = .ok (draft', i')) :
    (set draft column y).Retained i (.update draft') := by
  obtain ⟨⟨key, n, ds⟩, i₁, assigned, rest⟩ := bind_ok run
  cases rest
  refine retained_assignment rfl assigned rfl rfl (fun d h => h)
    (fun x hx => mem_children_update.2 (.inr (.inl hx))) fun x hx => ?_
  simp only [Workpiece.children, mem_children_update] at hx ⊢
  tauto

theorem retained_filterUpdated (run : draft.filter input i = .ok (draft', i')) :
    (filterUpdated draft input).Retained i (.update draft') := by
  obtain ⟨⟨criteria, ds⟩, i₁, step, rest⟩ := bind_ok run
  obtain ⟨⟨m, ds⟩, i₂, coerced, more⟩ := bind_ok step
  obtain ⟨criteria, i₃, added, last⟩ := bind_ok more
  cases last
  cases rest
  refine retained_criterion rfl rfl rfl coerced added (fun d h => h) ?_ fun x hx => ?_
  · exact mem_children_update.2 (.inr (.inr (.inl (List.mem_singleton_self criteria))))
  · simp only [Workpiece.children, mem_children_update] at hx ⊢
    tauto

theorem retained_returningUpdated (run : draft.returning inputs i = .ok (draft', i')) :
    (returningUpdated draft inputs).Retained i (.update draft') := by
  obtain ⟨⟨ns, ds⟩, i₁, coerced, rest⟩ := bind_ok run
  cases rest
  refine retained_returning rfl coerced rfl (fun d h => h) (fun m hm => ?_) fun x hx => ?_
  · exact mem_children_update.2 (.inr (.inr (.inr (List.mem_append_right _ hm))))
  · simp only [Workpiece.children, mem_children_update, List.mem_append] at hx ⊢
    tauto

theorem retained_update (run : draft.build i = .ok (n, i')) :
    (update draft).Retained i (.node n) := by
  cases run
  exact retained_finished rfl rfl rfl rfl

end Update

section Delete

variable {draft draft' : DeleteDraft}

theorem retained_deleteFrom (run : DeleteDraft.start input i = .ok (draft', i')) :
    (deleteFrom input).Retained i (.delete draft') := by
  obtain ⟨⟨m, ds⟩, i₁, coerced, rest⟩ := bind_ok run
  cases rest
  exact retained_target rfl rfl coerced (fun d hd => .inl hd) List.mem_cons_self

theorem retained_filterDeleted (run : draft.filter input i = .ok (draft', i')) :
    (filterDeleted draft input).Retained i (.delete draft') := by
  obtain ⟨⟨criteria, ds⟩, i₁, step, rest⟩ := bind_ok run
  obtain ⟨⟨m, ds⟩, i₂, coerced, more⟩ := bind_ok step
  obtain ⟨criteria, i₃, added, last⟩ := bind_ok more
  cases last
  cases rest
  refine retained_criterion rfl rfl rfl coerced added (fun d h => h) ?_ fun x hx => ?_
  · exact mem_children_delete.2 (.inr (.inl (List.mem_singleton_self criteria)))
  · simp only [Workpiece.children, mem_children_delete] at hx ⊢
    tauto

theorem retained_returningDeleted (run : draft.returning inputs i = .ok (draft', i')) :
    (returningDeleted draft inputs).Retained i (.delete draft') := by
  obtain ⟨⟨ns, ds⟩, i₁, coerced, rest⟩ := bind_ok run
  cases rest
  refine retained_returning rfl coerced rfl (fun d h => h) (fun m hm => ?_) fun x hx => ?_
  · exact mem_children_delete.2 (.inr (.inr (List.mem_append_right _ hm)))
  · simp only [Workpiece.children, mem_children_delete, List.mem_append] at hx ⊢
    tauto

theorem retained_delete (run : draft.build i = .ok (n, i')) :
    (delete draft).Retained i (.node n) := by
  cases run
  exact retained_finished rfl rfl rfl rfl

end Delete

/-! ## Every step -/

/-- A step whose result is taken for a workpiece. -/
theorem retained_of_map {α : Type} {y : Build α} {f : α → Workpiece}
    (h : ∀ a, y i = .ok (a, i') → c.Retained i (f a)) (run : (f <$> y) i = .ok (out, i')) :
    c.Retained i out := by
  rw [map_eq_pure_bind] at run
  obtain ⟨a, i₁, first, last⟩ := bind_ok run
  cases last
  exact h a first

/-- A step keeps what its operands report, but for what it exposes and for values that it replaces,
and it keeps all that its coercions leave. -/
theorem retained_of_run (run : c.run i = .ok (out, i')) : c.Retained i out := by
  cases c with
  | junction => exact retained_of_map (fun _ => retained_junction) run
  | negation => exact retained_of_map (fun _ => retained_negation) run
  | call => exact retained_of_map (fun _ => retained_call) run
  | cast => exact retained_of_map (fun _ => retained_cast) run
  | castNode => exact retained_of_map (fun _ => retained_castNode) run
  | anyRow => exact retained_of_map (fun _ => retained_anyRow) run
  | compare => exact retained_of_map (fun _ => retained_compare) run
  | arithmetic => exact retained_of_map (fun _ => retained_arithmetic) run
  | membership => exact retained_of_map (fun _ => retained_membership) run
  | between => exact retained_of_map (fun _ => retained_between) run
  | againstNull => exact retained_of_map (fun _ => retained_againstNull) run
  | unary => exact retained_of_map (fun _ => retained_unary) run
  | label => exact retained_of_map (fun _ => retained_label) run
  | anonymousLabel => exact retained_of_map (fun _ => retained_anonymousLabel) run
  | ordered => exact retained_of_map (fun _ => retained_ordered) run
  | boundColumn => exact retained_of_map (fun _ => retained_boundColumn) run
  | selectFrom => exact retained_of_map (fun _ => retained_selectFrom) run
  | subquery => exact retained_of_map (fun _ => retained_subquery) run
  | aliased => exact retained_of_map (fun _ => retained_aliased) run
  | scalarSubquery => exact retained_of_map (fun _ => retained_scalarSubquery) run
  | tableValued => exact retained_of_map (fun _ => retained_tableValued) run
  | joined => exact retained_of_map (fun _ => retained_joined) run
  | compound => exact retained_of_map (fun _ => retained_compound) run
  | resume => exact retained_of_map (fun _ => retained_resume) run
  | columns => exact retained_of_map (fun _ => retained_columns) run
  | source => exact retained_of_map (fun _ => retained_source) run
  | join => exact retained_of_map (fun _ => retained_join) run
  | filter => exact retained_of_map (fun _ => retained_filter) run
  | having => exact retained_of_map (fun _ => retained_having) run
  | groupBy => exact retained_of_map (fun _ => retained_groupBy) run
  | orderBy => exact retained_of_map (fun _ => retained_orderBy) run
  | limit => exact retained_of_map (fun _ => retained_limit) run
  | offset => exact retained_of_map (fun _ => retained_offset) run
  | distinct =>
    cases run
    exact retained_finished rfl rfl rfl rfl
  | correlate =>
    cases run
    exact retained_finished rfl rfl rfl rfl
  | select => exact retained_of_map (fun _ => retained_select) run
  | insertInto => exact retained_of_map (fun _ => retained_insertInto) run
  | value => exact retained_of_map (fun _ => retained_value) run
  | fromSelect => exact retained_of_map (fun _ => retained_fromSelect) run
  | returningInserted => exact retained_of_map (fun _ => retained_returningInserted) run
  | insert => exact retained_of_map (fun _ => retained_insert) run
  | updateOf => exact retained_of_map (fun _ => retained_updateOf) run
  | set => exact retained_of_map (fun _ => retained_set) run
  | filterUpdated => exact retained_of_map (fun _ => retained_filterUpdated) run
  | returningUpdated => exact retained_of_map (fun _ => retained_returningUpdated) run
  | update => exact retained_of_map (fun _ => retained_update) run
  | deleteFrom => exact retained_of_map (fun _ => retained_deleteFrom) run
  | filterDeleted => exact retained_of_map (fun _ => retained_filterDeleted) run
  | returningDeleted => exact retained_of_map (fun _ => retained_returningDeleted) run
  | delete => exact retained_of_map (fun _ => retained_delete) run

end Construction

end SqlAlgebra
