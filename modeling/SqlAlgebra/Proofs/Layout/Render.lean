import SqlAlgebra.Proofs.Layout.Names

/-!
# Rendering trees that are alike

Trees that a simulation relates have layouts that are alike.  The induction is on the size of a
tree, as the FROM elements of a SELECT are taken from below its columns, and goes through
statements, FROM elements and expressions at once.
-/

namespace SqlAlgebra

open List (Forall₂)
open Node
open Layout (Like)

namespace Layout

variable {d : Dialect} {frames : List Frame} {s : Select Node}

theorem query_of_ok {froms : List Node} {inner : List Frame} (hc : s.columns.isEmpty = false)
    (hf : s.shownFroms frames = .ok froms)
    (hi : inner = Frame.ofSources froms s.columns :: frames) :
    query d frames s =
      text "SELECT " ++ (if s.isDistinct then text "DISTINCT " else empty) ++
        separated ", " (columnItems d inner s.columns) ++
        (if froms.isEmpty then empty
          else text " FROM " ++ separated ", " (froms.map (fromElement d inner))) ++
        optional s.criteria (fun criteria => text " WHERE " ++ expression d inner 0 criteria) ++
        (if s.groupBy.isEmpty then empty
          else text " GROUP BY " ++ separated ", " (expressions d inner 0 s.groupBy)) ++
        optional s.having (fun having => text " HAVING " ++ expression d inner 0 having) ++
        (if s.orderBy.isEmpty then empty
          else text " ORDER BY " ++ separated ", " (expressions d inner 0 s.orderBy)) ++
        paging d inner s.limit s.offset := by
  rw [query, hc, if_neg Bool.false_ne_true]
  split
  · next h => rw [hf] at h; cases h
  · next h =>
    rw [hf] at h
    cases h
    dsimp only
    rw [← hi]
    have shown : (froms.attach.map fun source => fromElement d inner source.1) =
        froms.map (fromElement d inner) := List.attach_map_val
    rw [shown]
    rcases s with ⟨columns, froms', criteria, groupBy, having, orderBy, limit, offset, d, a⟩
    cases criteria <;> cases having <;> rfl

theorem query_of_error {fault : CompileFault} (hc : s.columns.isEmpty = false)
    (hf : s.shownFroms frames = .error fault) : query d frames s = fail fault := by
  rw [query, hc, if_neg Bool.false_ne_true]
  split
  · next h => rw [hf] at h; cases h; rfl
  · next h => rw [hf] at h; cases h

theorem query_of_isEmpty (hc : s.columns.isEmpty = true) : query d frames s = fail .noColumns := by
  rw [query, hc, if_pos rfl]

theorem paging_limitOffset {filler : Option String} {limit offset : Option Node}
    (h : d.paging = .limitOffset filler) :
    paging d frames limit offset =
      (match limit with
        | some limit => text " LIMIT " ++ expression d frames 0 limit
        | none =>
          if offset.isSome then optional filler fun n => text (" LIMIT " ++ n) else empty) ++
        optional offset fun offset => text " OFFSET " ++ expression d frames 0 offset := by
  rw [paging.eq_def, h]
  cases offset <;> rfl

theorem paging_offsetFetch {limit offset : Option Node} (h : d.paging = .offsetFetch) :
    paging d frames limit offset =
      (optional offset fun offset =>
        text " OFFSET " ++ expression d frames 0 offset ++ text " ROWS") ++
        optional limit fun limit =>
          text " FETCH FIRST " ++ expression d frames 0 limit ++ text " ROWS ONLY" := by
  rw [paging.eq_def, h]
  cases offset <;> cases limit <;> rfl

theorem expressions_eq (outer : Nat) (ns : List Node) :
    expressions d frames outer ns = ns.map (expression d frames outer) := by
  induction ns with
  | nil => rw [expressions]; rfl
  | cons n rest ih => rw [expressions, ih]; rfl

theorem columnItems_eq (ns : List Node) :
    columnItems d frames ns = ns.map (columnItem d frames) := by
  induction ns with
  | nil => rw [columnItems]; rfl
  | cons n rest ih => rw [columnItems, ih]; rfl

theorem compoundMembers_eq (ns : List Node) :
    compoundMembers d frames ns =
      ns.map fun n => parenthesizedIf (isWrapped n) (statement d frames n) := by
  induction ns with
  | nil => rw [compoundMembers]; rfl
  | cons n rest ih => rw [compoundMembers, ih]; rfl

theorem insertedValues_eq (values : List (String × Node)) :
    insertedValues d frames values = values.map fun value => expression d frames 0 value.2 := by
  induction values with
  | nil => rw [insertedValues]; rfl
  | cons value rest ih => rw [insertedValues, ih]; rfl

theorem assignments_eq (values : List (String × Node)) :
    assignments d frames values =
      values.map fun value =>
        identifier d value.1 ++ text " = " ++ expression d frames 0 value.2 := by
  induction values with
  | nil => rw [assignments]; rfl
  | cons value rest ih => rw [assignments, ih]; rfl

/-- What an alias stands for, which is named if it is a table and otherwise rendered on its own. -/
def aliased (d : Dialect) (c : Node) : Layout :=
  match c.kind with
  | .table _ => sourceName d c
  | _ => parenthesized (statement d [] c)

theorem children_of_bounds {op : BinaryOp} {right low high : Node}
    (hb : bounds? op right = some (low, high)) : right.children = [low, high] := by
  unfold bounds? at hb
  rw [Node.children]
  split at hb
  · next kind =>
    cases hb
    rw [kind, Kind.children]
  · next kind =>
    cases hb
    rw [kind, Kind.children]
  · cases hb

theorem operation_of_bounds {op : BinaryOp} {symbol : String} {left right low high : Node}
    (hb : bounds? op right = some (low, high)) :
    operation d frames left op symbol right =
      expression d frames op.precedence left ++ text (" " ++ symbol ++ " ") ++
        (expression d frames (op.precedence + 1) low ++ text " AND " ++
          expression d frames (op.precedence + 1) high) := by
  rw [operation]
  split
  · next h =>
    rw [hb] at h
    cases h
    rfl
  · next h => rw [hb] at h; cases h

theorem operation_of_none {op : BinaryOp} {symbol : String} {left right : Node}
    (hb : bounds? op right = none) :
    operation d frames left op symbol right =
      expression d frames op.precedence left ++ text (" " ++ symbol ++ " ") ++
        expression d frames (rightStrength op) right := by
  rw [operation]
  split
  · next h => rw [hb] at h; cases h
  · rfl

end Layout

namespace Simulation

variable {R S T : Node → Node → Prop} {a b : Node} {d : Dialect} {frames frames' : List Frame}

/-- Nodes whose layouts are alike, wherever they stand. -/
structure Rendered (R S T : Node → Node → Prop) (d : Dialect) (a b : Node) : Prop where
  expression : ∀ {frames frames'}, Forall₂ (Frames R S T) frames frames' → ∀ outer,
    Like R (Layout.expression d frames outer a) (Layout.expression d frames' outer b)
  statement : ∀ {frames frames'}, Forall₂ (Frames R S T) frames frames' →
    Like R (Layout.statement d frames a) (Layout.statement d frames' b)
  fromElement : ∀ {frames frames'}, Forall₂ (Frames R S T) frames frames' →
    Like R (Layout.fromElement d frames a) (Layout.fromElement d frames' b)
  columnItem : ∀ {frames frames'}, Forall₂ (Frames R S T) frames frames' →
    Like R (Layout.columnItem d frames a) (Layout.columnItem d frames' b)
  labelReference : ∀ {frames frames'}, Forall₂ (Frames R S T) frames frames' →
    Like R (Layout.labelReference d frames a) (Layout.labelReference d frames' b)

theorem separated_map {α β : Type} {P : α → β → Prop} {xs : List α} {ys : List β} {f : α → Layout}
    {g : β → Layout} (separator : String) (h : Forall₂ P xs ys)
    (hfg : ∀ x y, P x y → Like R (f x) (g y)) :
    Like R (Layout.separated separator (xs.map f)) (Layout.separated separator (ys.map g)) := by
  refine .separated separator ?_
  rw [List.forall₂_map_left_iff, List.forall₂_map_right_iff]
  exact h.imp hfg

theorem expressions (hf : Forall₂ (Frames R S T) frames frames') (outer : Nat) (separator : String)
    {ns ns' : List Node} (h : Forall₂ (Rendered R S T d) ns ns') :
    Like R (Layout.separated separator (Layout.expressions d frames outer ns))
      (Layout.separated separator (Layout.expressions d frames' outer ns')) := by
  rw [Layout.expressions_eq, Layout.expressions_eq]
  exact separated_map separator h fun _ _ hc => hc.expression hf outer

theorem listClause {α β : Type} {P : α → β → Prop} {xs : List α} {ys : List β} {x y : Layout}
    (h : Forall₂ P xs ys) (hl : Like R x y) :
    Like R (if xs.isEmpty then .empty else x) (if ys.isEmpty then .empty else y) := by
  rw [isEmpty_eq h]
  exact .ite _ .empty hl

theorem paging (hf : Forall₂ (Frames R S T) frames frames')
    {limit offset limit' offset' : Option Node}
    (hl : Option.Rel (Rendered R S T d) limit limit')
    (ho : Option.Rel (Rendered R S T d) offset offset') :
    Like R (Layout.paging d frames limit offset) (Layout.paging d frames' limit' offset') := by
  cases hp : d.paging with
  | limitOffset filler =>
    rw [Layout.paging_limitOffset hp, Layout.paging_limitOffset hp]
    refine .append ?_ (.optional ho fun _ _ hc => (Like.text _).append (hc.expression hf 0))
    cases hl with
    | some hc => exact (Like.text _).append (hc.expression hf 0)
    | none =>
      have isSome : offset.isSome = offset'.isSome := by cases ho <;> rfl
      dsimp only
      rw [isSome]
      exact .ite _ (.clause filler _ fun _ => .text _) .empty
  | offsetFetch =>
    rw [Layout.paging_offsetFetch hp, Layout.paging_offsetFetch hp]
    refine .append (.optional ho fun _ _ hc => ?_) (.optional hl fun _ _ hc => ?_)
    · exact ((Like.text _).append (hc.expression hf 0)).append (.text _)
    · exact ((Like.text _).append (hc.expression hf 0)).append (.text _)

theorem mem_left {α β : Type} {P : α → β → Prop} {xs : List α} {ys : List β} (h : Forall₂ P xs ys) :
    Forall₂ (fun x y => x ∈ xs ∧ P x y) xs ys := by
  rw [List.forall₂_and_left]
  exact ⟨fun _ hx => hx, h⟩

/-- Whether nodes up to some size are rendered alike, which is what an induction has to offer. -/
def RenderedBelow (R S T : Node → Node → Prop) (d : Dialect) (size : Nat) : Prop :=
  ∀ ⦃c c' : Node⦄, sizeOf c < size → R c c' → Rendered R S T d c c'

namespace RenderedBelow

variable {size size' : Nat} {c c' : Node} {ns ns' : List Node}

theorem mono (ih : RenderedBelow R S T d size) (le : size' ≤ size) : RenderedBelow R S T d size' :=
  fun _ _ less => ih (Nat.lt_of_lt_of_le less le)

theorem all (ih : RenderedBelow R S T d size) (less : ∀ c ∈ ns, sizeOf c < size)
    (h : Forall₂ R ns ns') : Forall₂ (Rendered R S T d) ns ns' :=
  (mem_left h).imp fun _ _ hc => ih (less _ hc.1) hc.2

theorem child (ih : RenderedBelow R S T d (sizeOf a)) (hc : c ∈ a.children) (hcc : R c c') :
    Rendered R S T d c c' := ih (sizeOf_child hc) hcc

theorem children (ih : RenderedBelow R S T d (sizeOf a)) (sub : ns ⊆ a.children)
    (h : Forall₂ R ns ns') : Forall₂ (Rendered R S T d) ns ns' :=
  ih.all (fun _ hc => sizeOf_child (sub hc)) h

end RenderedBelow

theorem query (h : Simulation R S T) {s s' : Select Node} (ih : RenderedBelow R S T d (sizeOf s))
    (hs : Kind.Like R S T (.select s) (.select s')) (hf : Forall₂ (Frames R S T) frames frames') :
    Like R (Layout.query d frames s) (Layout.query d frames' s') := by
  have shown := h.shownFroms hs hf
  have list {ns ns' : List Node} (sub : ns ⊆ s.children) (hns : Forall₂ R ns ns') :
      Forall₂ (Rendered R S T d) ns ns' :=
    ih.all (fun _ hc => Select.sizeOf_child (sub hc)) hns
  have option {n n' : Option Node} (sub : n.toList ⊆ s.children) (hn : Option.Rel R n n') :
      Option.Rel (Rendered R S T d) n n' :=
    Kind.forall₂_toList_iff.1 (list sub (Kind.forall₂_toList_iff.2 hn))
  cases hc : s.columns.isEmpty with
  | true =>
    have hc' : s'.columns.isEmpty = true := by
      cases hs with
      | select _ _ h₁ => rw [← isEmpty_eq h₁, hc]
    rw [Layout.query_of_isEmpty hc, Layout.query_of_isEmpty hc']
    exact .fails _
  | false =>
    have hc' : s'.columns.isEmpty = false := by
      cases hs with
      | select _ _ h₁ => rw [← isEmpty_eq h₁, hc]
    cases hx : s.shownFroms frames with
    | error fault =>
      rw [hx] at shown
      generalize hy : s'.shownFroms frames' = y at shown
      cases shown
      rw [Layout.query_of_error hc hx, Layout.query_of_error hc' hy]
      exact .fails _
    | ok froms =>
      rw [hx] at shown
      generalize hy : s'.shownFroms frames' = y at shown
      cases shown with
      | @ok _ froms' placed =>
        rw [Layout.query_of_ok hc hx rfl, Layout.query_of_ok hc' hy rfl]
        have fromsRendered : Forall₂ (Rendered R S T d) froms froms' :=
          (mem_left placed).imp fun _ _ hm => ih (Select.sizeOf_shown hx hm.1) (h.of_placed hm.2)
        rcases s with ⟨columns, fs, criteria, groupBy, having, orderBy, limit, offset, di, ac⟩
        rcases s' with
          ⟨columns', fs', criteria', groupBy', having', orderBy', limit', offset', di', ac'⟩
        cases hs with
        | select _ _ h₁ h₂ h₃ h₄ h₅ h₆ h₇ h₈ =>
          have inner : Forall₂ (Frames R S T) (Frame.ofSources froms columns :: frames)
              (Frame.ofSources froms' columns' :: frames') :=
            .cons (h.ofSources (placed.imp fun _ _ => .inl) h₁) hf
          refine .append (.append (.append (.append (.append (.append (.append (.append
            ?_ ?_) ?_) ?_) ?_) ?_) ?_) ?_) ?_
          · exact .text _
          · exact .ite _ (.text _) .empty
          · rw [Layout.columnItems_eq, Layout.columnItems_eq]
            refine separated_map ", " (list ?_ h₁) fun _ _ hc => hc.columnItem inner
            intro c hc
            simp only [Select.children, List.mem_append, hc, true_or]
          · refine listClause placed ((Like.text _).append ?_)
            exact separated_map ", " fromsRendered fun _ _ hc => hc.fromElement inner
          · refine .optional (option ?_ h₃) fun _ _ hc =>
              (Like.text _).append (hc.expression inner 0)
            intro c hc
            simp only [Select.children, List.mem_append, hc, true_or, or_true]
          · refine listClause h₄ ((Like.text _).append (expressions inner 0 ", " (list ?_ h₄)))
            intro c hc
            simp only [Select.children, List.mem_append, hc, true_or, or_true]
          · refine .optional (option ?_ h₅) fun _ _ hc =>
              (Like.text _).append (hc.expression inner 0)
            intro c hc
            simp only [Select.children, List.mem_append, hc, true_or, or_true]
          · refine listClause h₆ ((Like.text _).append (expressions inner 0 ", " (list ?_ h₆)))
            intro c hc
            simp only [Select.children, List.mem_append, hc, true_or, or_true]
          · refine paging inner (option ?_ h₇) (option ?_ h₈)
            · intro c hc
              simp only [Select.children, List.mem_append, hc, true_or, or_true]
            · intro c hc
              simp only [Select.children, List.mem_append, hc, or_true]

theorem compound {op : SetOp} {ns ns' : List Node} (h : Forall₂ (Rendered R S T d) ns ns')
    (hw : Forall₂ R ns ns') (hR : Simulation R S T) (hf : Forall₂ (Frames R S T) frames frames') :
    Like R (Layout.compound d frames op ns) (Layout.compound d frames' op ns') := by
  rw [Layout.compound, Layout.compound, Layout.compoundMembers_eq, Layout.compoundMembers_eq]
  have both : Forall₂ (fun c c' => Rendered R S T d c c' ∧ R c c') ns ns' :=
    List.Forall₂.mp (fun _ _ h h' => ⟨h, h'⟩) h hw
  refine separated_map _ both fun c c' hc => ?_
  have wrapped : Layout.isWrapped c = Layout.isWrapped c' := by
    obtain ⟨kind, -⟩ := hR.like hc.2
    unfold Layout.isWrapped
    generalize c.kind = k at kind
    generalize c'.kind = k' at kind
    cases kind with
    | select _ _ _ _ _ _ _ h₆ h₇ h₈ =>
      dsimp only
      rw [isEmpty_eq h₆]
      cases h₇ <;> cases h₈ <;> rfl
    | _ => rfl
  rw [wrapped]
  exact (hc.1.statement hf).parenthesizedIf _

theorem bounds? (h : Simulation R S T) (op : BinaryOp) (hab : R a b) :
    Option.Rel (fun p q => R p.1 q.1 ∧ R p.2 q.2) (Layout.bounds? op a) (Layout.bounds? op b) := by
  obtain ⟨kind, -⟩ := h.like hab
  unfold Layout.bounds?
  generalize a.kind = k at kind ⊢
  generalize b.kind = k' at kind ⊢
  cases kind with
  | clauseList _ hs =>
    rcases hs with _ | ⟨h₁, _ | ⟨h₂, _ | ⟨h₃, hs⟩⟩⟩
    case cons.cons.nil =>
      cases op with
      | between | notBetween => exact .some ⟨h₁, h₂⟩
      | _ => exact .none
    all_goals cases op <;> exact .none
  | _ => cases op <;> exact .none

theorem operation (h : Simulation R S T) {left right left' right' : Node} {op : BinaryOp}
    (symbol : String) (hl : Rendered R S T d left left') (hr : R right right')
    (ih : RenderedBelow R S T d (sizeOf right + 1))
    (hf : Forall₂ (Frames R S T) frames frames') :
    Like R (Layout.operation d frames left op symbol right)
      (Layout.operation d frames' left' op symbol right') := by
  have bounds := h.bounds? op hr
  have first := (hl.expression hf op.precedence).append (Like.text (" " ++ symbol ++ " "))
  cases hx : Layout.bounds? op right with
  | none =>
    rw [hx] at bounds
    generalize hy : Layout.bounds? op right' = y at bounds
    cases bounds
    rw [Layout.operation_of_none hx, Layout.operation_of_none hy]
    exact first.append ((ih (Nat.lt_succ_self _) hr).expression hf _)
  | some both =>
    rw [hx] at bounds
    generalize hy : Layout.bounds? op right' = y at bounds
    rcases both with ⟨low, high⟩
    cases bounds with
    | @some _ both' hb =>
      rcases both' with ⟨low', high'⟩
      rw [Layout.operation_of_bounds hx, Layout.operation_of_bounds hy]
      have size := Layout.sizeOf_bounds hx
      have lowRendered := ih (Nat.lt_succ_of_lt size.1) hb.1
      have highRendered := ih (Nat.lt_succ_of_lt size.2) hb.2
      exact first.append (((lowRendered.expression hf _).append (.text _)).append
        (highRendered.expression hf _))

theorem orderingSuffix (isDescending : Bool) (nulls : Option NullsOrder) :
    Like R (Layout.orderingSuffix isDescending nulls) (Layout.orderingSuffix isDescending nulls) :=
  (Like.ite _ (.text _) .empty).append (.clause nulls _ fun _ => .text _)

/-- Corresponding nodes stand alike in messages, unless they are bound parameters. -/
theorem repr_eq_or_bind (h : Simulation R S T) (hab : R a b) :
    a.repr = b.repr ∨ ∃ p q, a.kind = .bind p ∧ b.kind = .bind q := by
  have like := h.like hab
  by_cases ha : ∃ p, a.kind = .bind p
  · obtain ⟨p, ha⟩ := ha
    have kind := like.kind
    rw [ha] at kind
    generalize hb : b.kind = k at kind
    cases kind with
    | bind => exact .inr ⟨p, _, ha, rfl⟩
  · exact .inl (like.repr (fun c d hcd => (h.like (h.fromPlace hcd)).fromName) (not_exists.1 ha))

theorem notAFromElement (h : Simulation R S T) (hab : R a b) :
    CompileFault.Alike R (.notAFromElement a.repr) (.notAFromElement b.repr) := by
  obtain eq | ⟨p, q, ha, hb⟩ := h.repr_eq_or_bind hab
  · rw [eq]
    exact .same _
  · exact .notAFromElement hab ha hb

theorem namelessRow (h : Simulation R S T) (hab : R a b) :
    CompileFault.Alike R (.namelessRow a.repr) (.namelessRow b.repr) := by
  obtain eq | ⟨p, q, ha, hb⟩ := h.repr_eq_or_bind hab
  · rw [eq]
    exact .same _
  · exact .namelessRow hab ha hb

theorem labelReference (h : Simulation R S T) (hab : R a b)
    (ih : RenderedBelow R S T d (sizeOf a))
    (hf : Forall₂ (Frames R S T) frames frames')
    (expression : Like R (Layout.expression d frames 0 a) (Layout.expression d frames' 0 b)) :
    Like R (Layout.labelReference d frames a) (Layout.labelReference d frames' b) := by
  have like := h.likeAll hab
  rcases a with ⟨i, k, type, annotations, diagnostics⟩
  rcases b with ⟨i', k', type', annotations', diagnostics'⟩
  rw [Layout.labelReference, Layout.labelReference]
  cases like.kind with
  | label name hc =>
    dsimp only
    rw [h.isInScope hf hab rfl]
    exact .ite _ (h.labelName d hab rfl)
      ((ih.child (by simp [children, Kind.children]) hc).expression hf 0)
  | ordering isDescending nulls hc =>
    exact ((ih.child (by simp [children, Kind.children]) hc).labelReference hf).append
      (orderingSuffix isDescending nulls)
  | _ => exact expression

theorem columnItem (h : Simulation R S T) (hab : R a b)
    (ih : RenderedBelow R S T d (sizeOf a))
    (hf : Forall₂ (Frames R S T) frames frames')
    (expression : Like R (Layout.expression d frames 0 a) (Layout.expression d frames' 0 b)) :
    Like R (Layout.columnItem d frames a) (Layout.columnItem d frames' b) := by
  have like := h.likeAll hab
  have other : Like R
      (if a.isFromClause then Layout.allColumns d a else Layout.expression d frames 0 a)
      (if b.isFromClause then Layout.allColumns d b else Layout.expression d frames' 0 b) := by
    rw [like.isFromClause]
    exact .ite _ (h.allColumns d hab) expression
  rcases a with ⟨i, k, type, annotations, diagnostics⟩
  rcases b with ⟨i', k', type', annotations', diagnostics'⟩
  rw [Layout.columnItem, Layout.columnItem]
  cases like.kind with
  | label name hc =>
    have element := (ih.child (by simp [children, Kind.children]) hc).expression hf 0
    exact (element.append (.text _)).append (h.labelName d hab rfl)
  | _ => exact other

theorem sizeOf_select {n : Node} {s : Select Node} (h : n.kind = .select s) :
    sizeOf s < sizeOf n := by
  have := n.sizeOf_kind
  rw [h, Kind.select.sizeOf_spec] at this
  omega

theorem expression (h : Simulation R S T) (hab : R a b)
    (ih : RenderedBelow R S T d (sizeOf a))
    (hf : Forall₂ (Frames R S T) frames frames') (outer : Nat) :
    Like R (Layout.expression d frames outer a) (Layout.expression d frames' outer b) := by
  have like := h.likeAll hab
  have shown := (h.like hab).kind
  rcases a with ⟨i, k, type, annotations, diagnostics⟩
  rcases b with ⟨i', k', type', annotations', diagnostics'⟩
  cases like.kind with
  | null | truth | text =>
    rw [Layout.expression, Layout.expression]
    exact .text _
  | bind hp =>
    rw [Layout.expression, Layout.expression]
    exact .piece (.bind hab rfl rfl hp)
  | column name isLiteral hs =>
    rw [Layout.expression, Layout.expression]
    exact h.column d name hs isLiteral
  | textualSelect _ hc | grouping hc =>
    rw [Layout.expression, Layout.expression]
    exact ((ih.child (by simp [children, Kind.children]) hc).expression hf 0).parenthesized
  | unary op hc =>
    rw [Layout.expression, Layout.expression]
    have operand := (ih.child (by simp [children, Kind.children]) hc).expression hf
      (Layout.operandStrength op)
    exact ((Like.text _).append operand).parenthesizedIf _
  | @binary op left right left' right' hl hr =>
    rw [Layout.expression, Layout.expression]
    have leftRendered := ih.child (by simp [children, Kind.children]) hl
    have rightRendered := ih.child (by simp [children, Kind.children]) hr
    have between (symbol : String) : Like R (Layout.operation d frames left op symbol right)
        (Layout.operation d frames' left' op symbol right') :=
      h.operation symbol leftRendered hr
        (ih.mono (sizeOf_child (by simp [children, Kind.children]))) hf
    dsimp only
    cases d.spelling op with
    | none => exact .fails _
    | some spelling =>
      cases spelling with
      | call name =>
        exact (Like.text name).append (((leftRendered.expression hf 0).append (.text ", ")).append
          (rightRendered.expression hf 0)).parenthesized
      | negated symbol =>
        exact ((Like.text _).append (between symbol).parenthesized).parenthesizedIf _
      | between symbol => exact (between symbol).parenthesizedIf _
  | clauseList op hs =>
    have all := ih.children (List.Subset.refl _) hs
    rcases hs with _ | ⟨hc, _ | ⟨hc', hs⟩⟩
    · rw [Layout.expression, Layout.expression]
      exact .text _
    · rw [Layout.expression, Layout.expression]
      exact (ih.child (by simp [children, Kind.children]) hc).expression hf outer
    · rw [Layout.expression, Layout.expression]
      exact (expressions hf _ _ all).parenthesizedIf _
  | function name hs =>
    rw [Layout.expression, Layout.expression]
    exact (Like.text name).append (expressions hf 0 ", "
      (ih.children (List.Subset.refl _) hs)).parenthesized
  | cast type hc =>
    rw [Layout.expression, Layout.expression]
    have element := (ih.child (by simp [children, Kind.children]) hc).expression hf 0
    dsimp only
    cases d.typeName type with
    | none => exact .fails _
    | some name => exact (Like.text "CAST").append (element.append (.text _)).parenthesized
  | label name hc =>
    rw [Layout.expression, Layout.expression]
    exact (ih.child (by simp [children, Kind.children]) hc).expression hf outer
  | labelReference hc =>
    rw [Layout.expression, Layout.expression]
    exact (ih.child (by simp [children, Kind.children]) hc).labelReference hf
  | textualLabelReference name =>
    rw [Layout.expression, Layout.expression]
    exact h.textualLabel d hf name
  | ordering isDescending nulls hc =>
    rw [Layout.expression, Layout.expression]
    exact ((ih.child (by simp [children, Kind.children]) hc).expression hf 0).append
      (orderingSuffix isDescending nulls)
  | scalarSubquery hc =>
    rw [Layout.expression, Layout.expression]
    exact ((ih.child (by simp [children, Kind.children]) hc).statement hf).parenthesized
  | @tableValued source source' hc =>
    rw [Layout.expression, Layout.expression]
    have name := h.sourceName? d hc
    have nameless := h.namelessRow hc
    dsimp only
    generalize Layout.sourceName? d source = x at name ⊢
    generalize Layout.sourceName? d source' = y at name ⊢
    cases name with
    | none => exact .fail nameless
    | some hl => exact hl
  | select =>
    rw [Layout.expression, Layout.expression]
    exact (h.query (ih.mono (Nat.le_of_lt (sizeOf_select rfl))) shown hf).parenthesized
  | compound op hs =>
    rw [Layout.expression, Layout.expression]
    exact (compound (ih.children (List.Subset.refl _) hs) hs h hf).parenthesized
  | table | «alias» | subquery | join =>
    rw [Layout.expression, Layout.expression]
    rw [(h.like hab).repr (fun c d hcd => (h.like (h.fromPlace hcd)).fromName) (by simp)]
    exact .fails _
  | insert | update | delete =>
    rw [Layout.expression, Layout.expression]
    rw [like.kindName]
    exact .fails _
  | deferred =>
    rw [Layout.expression, Layout.expression]
    exact .fails _

theorem fromElement (h : Simulation R S T) (hab : R a b)
    (ih : RenderedBelow R S T d (sizeOf a))
    (hf : Forall₂ (Frames R S T) frames frames') :
    Like R (Layout.fromElement d frames a) (Layout.fromElement d frames' b) := by
  have name := h.sourceName d hab
  have refused := h.notAFromElement hab
  have aliased {c c' : Node} (hc : c ∈ a.children) (hcc : R c c') :
      Like R (Layout.aliased d c) (Layout.aliased d c') := by
    have named := h.sourceName d hcc
    have statement := ((ih.child hc hcc).statement .nil).parenthesized
    obtain ⟨kind, -⟩ := h.like hcc
    unfold Layout.aliased
    generalize c.kind = k at kind ⊢
    generalize c'.kind = k' at kind ⊢
    cases kind with
    | table => exact named
    | _ => exact statement
  have like := h.likeAll hab
  have shown := (h.like hab).kind
  rcases a with ⟨i, k, type, annotations, diagnostics⟩
  rcases b with ⟨i', k', type', annotations', diagnostics'⟩
  cases like.kind with
  | table =>
    rw [Layout.fromElement, Layout.fromElement]
    exact name
  | «alias» _ hc | subquery _ hc =>
    rw [Layout.fromElement, Layout.fromElement]
    exact ((aliased (by simp [children, Kind.children]) hc).append (.text _)).append name
  | @join kind left right on left' right' on' hl hr ho =>
    rw [Layout.fromElement, Layout.fromElement]
    have leftRendered := ih.child (by simp [children, Kind.children]) hl
    have rightRendered := ih.child (by simp [children, Kind.children]) hr
    have onRendered := ih.child (by simp [children, Kind.children]) ho
    refine .append (.append (.append (.append (leftRendered.fromElement hf) (.text _)) ?_)
      (.text _))
      (onRendered.expression hf 0)
    have element := rightRendered.fromElement hf
    obtain ⟨rightKind, -⟩ := h.like hr
    generalize right.kind = k at rightKind ⊢
    generalize right'.kind = k' at rightKind ⊢
    cases rightKind <;> exact element.parenthesizedIf _
  | text =>
    rw [Layout.fromElement, Layout.fromElement]
    exact .text _
  | select =>
    rw [Layout.fromElement, Layout.fromElement]
    have rendered := h.query (ih.mono (Nat.le_of_lt (sizeOf_select rfl))) shown .nil
    exact rendered.parenthesized
  | compound op hs =>
    rw [Layout.fromElement, Layout.fromElement]
    exact (compound (ih.children (List.Subset.refl _) hs) hs h .nil).parenthesized
  | textualSelect _ hc =>
    rw [Layout.fromElement, Layout.fromElement]
    exact ((ih.child (by simp [children, Kind.children]) hc).expression .nil 0).parenthesized
  | _ =>
    rw [Layout.fromElement, Layout.fromElement]
    exact .fail refused

theorem checkReturning {ns ns' : List Node} (h : Forall₂ R ns ns') :
    Like R (Layout.checkReturning d ns) (Layout.checkReturning d ns') := by
  unfold Layout.checkReturning
  rw [isEmpty_eq h]
  exact .ite _ (.fails _) .empty

theorem returningClause (hf : Forall₂ (Frames R S T) frames frames') {ns ns' : List Node}
    (h : Forall₂ (Rendered R S T d) ns ns') :
    Like R (Layout.returningClause d frames ns) (Layout.returningClause d frames' ns') := by
  rw [Layout.returningClause, Layout.returningClause, Layout.columnItems_eq, Layout.columnItems_eq]
  exact listClause h ((Like.text _).append (separated_map ", " h fun _ _ hc => hc.columnItem hf))

theorem statement (h : Simulation R S T) (hab : R a b)
    (ih : RenderedBelow R S T d (sizeOf a))
    (hf : Forall₂ (Frames R S T) frames frames')
    (expression : Like R (Layout.expression d frames 0 a) (Layout.expression d frames' 0 b))
    (fromElement : Like R (Layout.fromElement d frames a) (Layout.fromElement d frames' b)) :
    Like R (Layout.statement d frames a) (Layout.statement d frames' b) := by
  have pairs {values values' : List (String × Node)} (sub : values.map Prod.snd ⊆ a.children)
      (hv : Forall₂ (fun p q => p.1 = q.1 ∧ R p.2 q.2) values values') :
      Forall₂ (fun p q => p.1 = q.1 ∧ Rendered R S T d p.2 q.2) values values' :=
    (mem_left hv).imp fun _ _ hp => ⟨hp.2.1, ih.child (sub (List.mem_map_of_mem hp.1)) hp.2.2⟩
  have identifiers (idents : List String) :
      Like R (Layout.identifiers d idents) (Layout.identifiers d idents) :=
    separated_map ", " (List.forall₂_same.2 fun _ _ => rfl) fun _ _ h => h ▸ .text _
  have like := h.likeAll hab
  have shown := (h.like hab).kind
  have other : Like R
      (if a.isFromClause then Layout.fromElement d frames a else Layout.expression d frames 0 a)
      (if b.isFromClause then Layout.fromElement d frames' b
        else Layout.expression d frames' 0 b) := by
    rw [like.isFromClause]
    exact .ite _ fromElement expression
  -- the target of a change is what its other parts can refer to
  have inner {t t' : Node} (ht : T t t') :
      Forall₂ (Frames R S T) (Frame.ofSources [t] [] :: frames)
        (Frame.ofSources [t'] [] :: frames') :=
    .cons (h.ofSources (.cons (.inr ht) .nil) .nil) hf
  rcases a with ⟨i, k, type, annotations, diagnostics⟩
  rcases b with ⟨i', k', type', annotations', diagnostics'⟩
  cases (h.like hab).kind with
  | select =>
    rw [Layout.statement, Layout.statement]
    exact h.query (ih.mono (Nat.le_of_lt (sizeOf_select rfl))) shown hf
  | compound op hs =>
    rw [Layout.statement, Layout.statement]
    exact compound (ih.children (List.Subset.refl _) hs) hs h hf
  | textualSelect _ hc =>
    rw [Layout.statement, Layout.statement]
    exact (ih.child (by simp [children, Kind.children]) hc).expression hf 0
  | @insert target target' values values' source source' returning returning' ht hv hs hr =>
    rw [Layout.statement, Layout.statement]
    have targetRendered := ih.child (by simp [children, Kind.children]) (h.target ht)
    refine .append (.append (.append (.append (checkReturning hr) (.text _))
      (targetRendered.fromElement hf)) ?_) (returningClause (inner ht) (ih.children ?_ hr))
    · cases hs with
      | @some p q hp =>
        rcases p with ⟨columns, query⟩
        rcases q with ⟨columns', query'⟩
        obtain ⟨rfl, hq⟩ := hp
        have queryRendered := ih.child (by simp [children, Kind.children]) hq
        exact (((Like.text _).append (identifiers columns)).append (.text _)).append
          (queryRendered.statement .nil)
      | none =>
        have keys : values.map Prod.fst = values'.map Prod.fst := by
          rw [← List.forall₂_eq_eq_eq, List.forall₂_map_left_iff, List.forall₂_map_right_iff]
          exact hv.imp fun _ _ hp => hp.1
        dsimp only
        rw [isEmpty_eq hv, keys, Layout.insertedValues_eq, Layout.insertedValues_eq]
        refine .ite _ ((Like.text _).append (.text _)) ?_
        refine .append (.append (.append (.append (.text _) (identifiers _)) (.text _)) ?_)
          (.text _)
        refine separated_map ", " (pairs ?_ hv) fun _ _ hp => hp.2.expression (inner ht) 0
        intro c hc
        simp only [children, Kind.children, List.mem_cons, List.mem_append, hc, true_or, or_true]
    · intro c hc
      simp only [children, Kind.children, List.mem_cons, List.mem_append, hc, or_true]
  | @update target target' values values' criteria criteria' returning returning' ht hv hc hr =>
    rw [Layout.statement, Layout.statement]
    have targetRendered := ih.child (by simp [children, Kind.children]) (h.target ht)
    dsimp only
    rw [isEmpty_eq hv, Layout.assignments_eq, Layout.assignments_eq]
    refine .append (.append (.append (.append (.append (.append (.append (.ite _ (.fails _) .empty)
      (checkReturning hr)) (.text _)) (targetRendered.fromElement hf)) (.text _)) ?_) ?_)
        (returningClause (inner ht) (ih.children ?_ hr))
    · refine separated_map ", " (pairs ?_ hv) fun _ _ hp => ?_
      · intro c hc
        simp only [children, Kind.children, List.mem_cons, List.mem_append, hc, true_or, or_true]
      · rw [hp.1]
        exact ((Like.text _).append (.text _)).append (hp.2.expression (inner ht) 0)
    · cases hc with
      | none => exact .empty
      | some hc =>
        exact (Like.text _).append
          ((ih.child (by simp [children, Kind.children]) hc).expression (inner ht) 0)
    · intro c hc
      simp only [children, Kind.children, List.mem_cons, List.mem_append, hc, or_true]
  | @delete target target' criteria criteria' returning returning' ht hc hr =>
    rw [Layout.statement, Layout.statement]
    have targetRendered := ih.child (by simp [children, Kind.children]) (h.target ht)
    refine .append (.append (.append (.append (checkReturning hr) (.text _))
      (targetRendered.fromElement hf)) ?_) (returningClause (inner ht) (ih.children ?_ hr))
    · cases hc with
      | none => exact .empty
      | some hc =>
        exact (Like.text _).append
          ((ih.child (by simp [children, Kind.children]) hc).expression (inner ht) 0)
    · intro c hc
      simp only [children, Kind.children, List.mem_cons, List.mem_append, hc, or_true]
  | _ =>
    rw [Layout.statement, Layout.statement]
    exact other

/-- Corresponding nodes are rendered alike. -/
theorem rendered (h : Simulation R S T) (d : Dialect) (hab : R a b) : Rendered R S T d a b := by
  induction hn : sizeOf a using Nat.strongRecOn generalizing a b with
  | _ n ih =>
    subst hn
    have ih : RenderedBelow R S T d (sizeOf a) := fun c _ size hcc => ih (sizeOf c) size hcc rfl
    have expression {frames frames' : List Frame} (hf : Forall₂ (Frames R S T) frames frames') :=
      h.expression hab ih hf
    have fromElement {frames frames' : List Frame} (hf : Forall₂ (Frames R S T) frames frames') :=
      h.fromElement hab ih hf
    exact
      { expression := expression
        statement := fun hf => h.statement hab ih hf (expression hf 0) (fromElement hf)
        fromElement := fromElement
        columnItem := fun hf => h.columnItem hab ih hf (expression hf 0)
        labelReference := fun hf => h.labelReference hab ih hf (expression hf 0) }

end Simulation

end SqlAlgebra
