import SqlAlgebra.Proofs.Build.Clauses
import SqlAlgebra.Proofs.Coercion.Growth

/-!
# What a construction builds

A step puts its result together from the nodes that it is given and from new ones.  So what it gives
is made of nodes that exist, and a node that it gives is coherent.
-/

namespace SqlAlgebra

open Kind (mem_children_select mem_children_insert mem_children_update mem_children_delete)
open Build (Grows Made grows_reported grows_typed)
open Node (grows_single)

variable {K : Heap} {m n left : Node} {role : Role} {args : CoercionArgs} {input : Input}
  {inputs : List Input}

/-- Whether all nodes of a workpiece exist. -/
def Workpiece.Within (K : Heap) : Workpiece → Prop
  | .node n => K n
  | w => ∀ x ∈ w.children, K x

namespace Construction

/-- Whether all nodes exist that a step is given. -/
structure Within (K : Heap) (c : Construction) : Prop where
  pieces : ∀ w ∈ c.pieces, w.Within K
  inputs : ∀ place ∈ c.coercions, place.2.Within K

/-! ## Expressions -/

theorem grows_coerceNodes (h : ∀ input ∈ inputs, input.Within K) :
    Grows K (Build.coerceNodes role args inputs) fun K' made => ∀ n ∈ made.1, K' n := by
  induction inputs generalizing K with
  | nil => exact .pure fun _ h => nomatch h
  | cons input inputs ih =>
    refine (grows_coerceNode (h input List.mem_cons_self)).bind fun K₁ first keeps hfirst => ?_
    refine (ih fun input hinput n hn => keeps n (h input (List.mem_cons_of_mem _ hinput) hn)).bind
      fun K₂ others keeps' hothers => .pure fun n hn => ?_
    rcases List.mem_cons.1 hn with rfl | hn
    · exact keeps' _ hfirst
    · exact hothers n hn

theorem grows_coerceKey (h : input.Within K) :
    Grows K (coerceKey role input args) fun _ _ => True := by
  refine (grows_expect h).bind fun K' coercion _ _ => ?_
  split
  · exact .pure trivial
  · exact .fail _

theorem mem_of_mem_clausesUnder {op : ListOp} (closed : ∀ ⦃n : Node⦄, K n → ∀ c ∈ n.children, K c)
    (h : K n) (hm : m ∈ Build.clausesUnder op n) : K m := by
  unfold Build.clausesUnder at hm
  split at hm
  · next inner clauses kind =>
    split at hm
    · exact closed h m (by rwa [Node.children, kind])
    · exact List.mem_singleton.1 hm ▸ h
  · exact List.mem_singleton.1 hm ▸ h

theorem grows_junction {op : ListOp} {function : String} (h : ∀ input ∈ inputs, input.Within K) :
    Grows K (Build.junction op function inputs) Made := by
  refine (grows_coerceNodes h).bind fun K' made _ hmade => .ite (.fail _) ?_
  refine .of_closed fun closed => grows_reported fun x hx => ?_
  obtain ⟨n, hn, hx⟩ := List.mem_flatMap.1 hx
  exact mem_of_mem_clausesUnder closed (hmade n hn) hx

theorem grows_negation (h : input.Within K) : Grows K (Build.negation input) Made := by
  refine (grows_coerceNode h).bind fun K' made _ hmade => .of_closed fun closed => ?_
  have above : Grows K' (Build.reported (.unary .not made.1) .boolean made.2) Made :=
    grows_reported fun x hx => List.mem_singleton.1 hx ▸ hmade
  dsimp only
  split
  · next left op right kind =>
    split
    · exact grows_reported fun x hx => closed hmade x (by rwa [Node.children, kind])
    · exact above
  · exact above

theorem grows_call {name : String} (h : ∀ input ∈ inputs, input.Within K) :
    Grows K (Build.call name inputs) Made :=
  (grows_coerceNodes h).bind fun _ _ _ hmade => grows_reported hmade

theorem grows_castNode {type : SqlType} {diagnostics : List Diagnostic} (h : K n) :
    Grows K (Build.castNode n type diagnostics) Made :=
  .ite (.fail _) (grows_reported fun _ hx => List.mem_singleton.1 hx ▸ h)

theorem grows_cast {type : SqlType} (h : input.Within K) : Grows K (Build.cast input type) Made :=
  (grows_coerceNode h).bind fun _ _ _ hmade => grows_castNode hmade

theorem grows_anyRow (h : K n) : Grows K (Build.exists n) Made :=
  (Node.grows_scalarSubquery h).bind fun _ _ _ hs => grows_single rfl hs

theorem grows_binary {op : BinaryOp} {right : Node} {type : SqlType} {diagnostics : List Diagnostic}
    (hl : K left) (hr : K right) :
    Grows K (Build.reported (.binary left op right) type diagnostics) Made := by
  refine grows_reported fun x hx => ?_
  rcases List.mem_cons.1 hx with rfl | hx
  · exact hl
  · exact List.mem_singleton.1 hx ▸ hr

theorem grows_againstNull {op : BinaryOp} (h : K left) : Grows K (left.againstNull op) Made :=
  (grows_typed fun _ hx => nomatch hx).bind fun _ _ keeps hn => grows_binary (keeps _ h) hn

theorem grows_compare {op : BinaryOp} (h : K left) (hi : input.isNone = false → input.Within K) :
    Grows K (left.compare op input) Made := by
  unfold Node.compare
  by_cases none : input.isNone = true
  · rw [if_pos none]
    split
    · exact grows_againstNull h
    · exact .fail _
  · rw [if_neg none]
    exact (grows_coerceNode (hi (Bool.not_eq_true _ ▸ none))).bind fun _ _ keeps hn =>
      grows_binary (keeps _ h) hn

theorem grows_arithmetic {op : BinaryOp} (h : K left) (hi : input.Within K) :
    Grows K (left.arithmetic op input) Made :=
  (grows_coerceNode hi).bind fun _ _ keeps hn => grows_binary (keeps _ h) hn

theorem grows_membership {op : BinaryOp} (h : K left) (hi : input.Within K) :
    Grows K (left.membership op input) Made :=
  (grows_coerceNode hi).bind fun _ _ keeps hn => grows_binary (keeps _ h) hn

theorem grows_between {low high : Input} (h : K left) (hl : low.Within K) (hh : high.Within K) :
    Grows K (left.between low high) Made := by
  refine (grows_coerceNode hl).bind fun K₁ a keeps₁ ha => ?_
  refine (grows_coerceNode fun n hn => keeps₁ n (hh hn)).bind fun K₂ b keeps₂ hb => ?_
  refine (grows_typed fun x hx => ?_).bind fun K₃ bounds keeps₃ hbounds =>
    grows_binary (keeps₃ _ (keeps₂ _ (keeps₁ _ h))) hbounds
  rcases List.mem_cons.1 hx with rfl | hx
  · exact keeps₂ _ ha
  · exact List.mem_singleton.1 hx ▸ hb

theorem grows_label (h : K n) (hi : input.Within K) : Grows K (n.label input) Made :=
  (grows_coerceKey hi).bind fun _ _ keeps _ => grows_reported fun _ hx =>
    List.mem_singleton.1 hx ▸ keeps _ h

theorem grows_ordered {isDescending : Option Bool} {nulls : Option NullsOrder} (h : K n) :
    Grows K (n.ordered isDescending nulls) Made := by
  refine .of_closed fun closed => ?_
  unfold Node.ordered
  split
  · next element _ _ kind =>
    refine grows_single rfl (closed h element ?_)
    rw [Node.children, kind]
    exact List.mem_cons_self
  · exact grows_single rfl h

/-! ## Row sources -/

theorem grows_tableValued (h : K n) : Grows K n.tableValued Made :=
  .ite (grows_single rfl h) (.fail _)

theorem grows_joined {target on : Input} {kind : JoinKind} (h : K left) (ht : target.Within K)
    (ho : on.Within K) : Grows K (left.joined target on kind) Made := by
  refine .ite ?_ (.fail _)
  refine (grows_coerceNode ht).bind fun K₁ right keeps₁ hright => ?_
  refine (grows_coerceNode fun n hn => keeps₁ n (ho hn)).bind fun K₂ on' keeps₂ hon => ?_
  refine grows_reported fun x hx => ?_
  rcases List.mem_cons.1 hx with rfl | hx
  · exact keeps₂ _ (keeps₁ _ h)
  rcases List.mem_cons.1 hx with rfl | hx
  · exact keeps₂ _ hright
  · exact List.mem_singleton.1 hx ▸ hon

theorem grows_compound {op : SetOp} (h : ∀ input ∈ inputs, input.Within K) :
    Grows K (Build.compound op inputs) Made :=
  (grows_coerceNodes h).bind fun _ _ _ hmade => .ite (.fail _) (grows_reported hmade)

/-! ## SELECT -/

/-- A statement to which something is added is made of nodes that exist. -/
theorem within_added {xs ys zs : List Node} (h : ∀ x ∈ zs, x ∈ xs ∨ x ∈ ys) (hx : ∀ x ∈ xs, K x)
    (hy : ∀ x ∈ ys, K x) : ∀ x ∈ zs, K x :=
  fun x hz => (h x hz).elim (hx x) (hy x)

theorem grows_conjoin {existing : Option Node} (he : ∀ x ∈ existing.toList, K x) (h : K n) :
    Grows K (Node.conjoin existing n) Made := by
  refine .of_closed fun closed => ?_
  cases existing with
  | none => exact .pure h
  | some previous =>
    refine grows_typed fun x hx => ?_
    rcases List.mem_append.1 hx with hx | hx
    · exact mem_of_mem_clausesUnder closed (he previous (List.mem_singleton_self _)) hx
    · exact List.mem_singleton.1 hx ▸ h

section Select

variable {draft : SelectDraft}

theorem grows_resume (h : K n) :
    Grows K (SelectDraft.ofNode n) fun K' draft => (Workpiece.select draft).Within K' := by
  refine .of_closed fun closed => ?_
  unfold SelectDraft.ofNode
  split
  · next s kind => exact .pure fun x hx => closed h x (by rwa [Node.children, kind])
  · exact .fail _

theorem grows_coerce {argname : String} (h : input.Within K) :
    Grows K (draft.coerce role input argname) fun K' made =>
      K' made.1 ∧ made.2.select = draft.select :=
  (grows_coerceNode h).bind fun _ _ _ hn => .pure ⟨hn, rfl⟩

/-- A step that adds coerced nodes one after the other. -/
theorem grows_foldlM_coerce (add : Select Node → List Node → Select Node) {argname : String}
    (none : ∀ s, add s [] = s) (more : ∀ s n ns, add (add s [n]) ns = add s (n :: ns))
    (children : ∀ ns, ∀ x ∈ (Kind.select (add draft.select ns)).children,
      x ∈ ns ∨ x ∈ (Kind.select draft.select).children)
    (hd : (Workpiece.select draft).Within K) (h : ∀ input ∈ inputs, input.Within K) :
    Grows K (inputs.foldlM (fun draft input => do
      let (n, draft) ← SelectDraft.coerce draft role input argname
      pure { draft with select := add draft.select [n] }) draft)
        fun K' draft => (Workpiece.select draft).Within K' := by
  intro next draft' next' valid run
  obtain ⟨ns, ds, coerced, rfl⟩ := cases_of_foldlM_coerce add none more run
  obtain ⟨le, K', ext, valid', hns⟩ := grows_coerceNodes h valid coerced
  exact ⟨le, K', ext, valid', within_added (children ns) hns fun x hx => ext.keeps (hd x hx)⟩

theorem grows_columns (hd : (Workpiece.select draft).Within K)
    (h : ∀ input ∈ inputs, input.Within K) :
    Grows K (draft.columns inputs) fun K' draft => (Workpiece.select draft).Within K' := by
  refine grows_foldlM_coerce (fun s ns => { s with columns := s.columns ++ ns }) (fun s => by simp)
    (fun s n ns => by simp) (fun ns x hx => ?_) hd h
  simp only [mem_children_select, List.mem_append] at hx ⊢
  tauto

theorem grows_groupBy (hd : (Workpiece.select draft).Within K)
    (h : ∀ input ∈ inputs, input.Within K) :
    Grows K (draft.groupBy inputs) fun K' draft => (Workpiece.select draft).Within K' := by
  refine grows_foldlM_coerce (fun s ns => { s with groupBy := s.groupBy ++ ns }) (fun s => by simp)
    (fun s n ns => by simp) (fun ns x hx => ?_) hd h
  simp only [mem_children_select, List.mem_append] at hx ⊢
  tauto

theorem grows_orderBy (hd : (Workpiece.select draft).Within K)
    (h : ∀ input ∈ inputs, input.Within K) :
    Grows K (draft.orderBy inputs) fun K' draft => (Workpiece.select draft).Within K' := by
  refine grows_foldlM_coerce (fun s ns => { s with orderBy := s.orderBy ++ ns }) (fun s => by simp)
    (fun s n ns => by simp) (fun ns x hx => ?_) hd h
  simp only [mem_children_select, List.mem_append] at hx ⊢
  tauto

theorem grows_source (hd : (Workpiece.select draft).Within K) (h : input.Within K) :
    Grows K (draft.source input) fun K' draft => (Workpiece.select draft).Within K' := by
  refine (grows_coerce h).bind fun K' made keeps hmade => .pure ?_
  refine within_added (fun x hx => ?_) (fun x hx => List.mem_singleton.1 hx ▸ hmade.1)
    fun x hx => keeps x (hd x hx)
  simp only [Workpiece.children, mem_children_select, List.mem_append, hmade.2] at hx ⊢
  tauto

theorem grows_filter (hd : (Workpiece.select draft).Within K) (h : input.Within K) :
    Grows K (draft.filter input) fun K' draft => (Workpiece.select draft).Within K' := by
  refine (grows_coerce h).bind fun K₁ made keeps₁ hmade => ?_
  refine (grows_conjoin (fun x hx => ?_) hmade.1).bind fun K₂ criteria keeps₂ hc => .pure ?_
  · rw [hmade.2] at hx
    exact keeps₁ x (hd x (mem_children_select.2 (.inr (.inr (.inl hx)))))
  · refine within_added (fun x hx => ?_) (fun x hx => List.mem_singleton.1 hx ▸ hc)
      fun x hx => keeps₂ x (keeps₁ x (hd x hx))
    simp only [Workpiece.children, mem_children_select, Option.toList_some, hmade.2] at hx ⊢
    tauto

theorem grows_having (hd : (Workpiece.select draft).Within K) (h : input.Within K) :
    Grows K (draft.having input) fun K' draft => (Workpiece.select draft).Within K' := by
  refine (grows_coerce h).bind fun K₁ made keeps₁ hmade => ?_
  refine (grows_conjoin (fun x hx => ?_) hmade.1).bind fun K₂ criteria keeps₂ hc => .pure ?_
  · rw [hmade.2] at hx
    exact keeps₁ x (hd x (mem_children_select.2 (.inr (.inr (.inr (.inr (.inl hx)))))))
  · refine within_added (fun x hx => ?_) (fun x hx => List.mem_singleton.1 hx ▸ hc)
      fun x hx => keeps₂ x (keeps₁ x (hd x hx))
    simp only [Workpiece.children, mem_children_select, Option.toList_some, hmade.2] at hx ⊢
    tauto

theorem mem_of_leftmost (closed : ∀ ⦃n : Node⦄, K n → ∀ c ∈ n.children, K c) {columns : List Node}
    (h : ∀ x ∈ columns, K x) (found : SelectDraft.leftmost columns = some n) : K n := by
  obtain ⟨c, hc, found⟩ := List.exists_of_findSome?_eq_some found
  split at found
  · next name source isLiteral kind =>
    exact closed (h c hc) n (by rw [Node.children, kind]; exact Option.mem_toList.2 found)
  · split at found
    · cases found
      exact h _ hc
    · cases found

theorem grows_join {target on : Input} {kind : JoinKind} (hd : (Workpiece.select draft).Within K)
    (ht : target.Within K) (ho : on.Within K) :
    Grows K (draft.join target on kind) fun K' draft => (Workpiece.select draft).Within K' := by
  refine .of_closed fun closed => ?_
  unfold SelectDraft.join
  split
  · next left found =>
    have hleft : K left := by
      rcases Option.or_eq_some_iff.1 found with last | ⟨-, first⟩
      · exact hd left (mem_children_select.2 (.inr (.inl (List.mem_of_getLast? last))))
      · exact mem_of_leftmost closed (fun x hx => hd x (mem_children_select.2 (.inl hx))) first
    refine (grows_joined hleft ht ho).bind fun K' n keeps hn => .pure ?_
    refine within_added (fun x hx => ?_) (fun x hx => List.mem_singleton.1 hx ▸ hn)
      fun x hx => keeps x (hd x hx)
    have before (h : x ∈ draft.select.froms.dropLast) : x ∈ draft.select.froms :=
      List.dropLast_subset _ h
    simp only [Workpiece.children, mem_children_select, List.mem_append] at hx ⊢
    tauto
  · exact .fail _

/-- A number of rows is a node that exists. -/
theorem grows_paging {argname : String} (h : input.Within K) :
    Grows K (draft.paging input argname) fun K' made =>
      (∀ x ∈ made.1.toList, K' x) ∧ made.2.select = draft.select := by
  refine (grows_expect h).bind fun K' coercion _ hvalue => .pure ⟨fun x hx => ?_, rfl⟩
  cases value : coercion.value with
  | node n =>
    rw [value] at hx hvalue
    exact List.mem_singleton.1 hx ▸ hvalue
  | _ =>
    rw [value] at hx
    cases hx

theorem grows_limit (hd : (Workpiece.select draft).Within K) (h : input.Within K) :
    Grows K (draft.limit input) fun K' draft => (Workpiece.select draft).Within K' := by
  refine (grows_paging h).bind fun K' made keeps hmade => .pure ?_
  refine within_added (fun x hx => ?_) hmade.1 fun x hx => keeps x (hd x hx)
  simp only [Workpiece.children, mem_children_select, hmade.2] at hx ⊢
  tauto

theorem grows_offset (hd : (Workpiece.select draft).Within K) (h : input.Within K) :
    Grows K (draft.offset input) fun K' draft => (Workpiece.select draft).Within K' := by
  refine (grows_paging h).bind fun K' made keeps hmade => .pure ?_
  refine within_added (fun x hx => ?_) hmade.1 fun x hx => keeps x (hd x hx)
  simp only [Workpiece.children, mem_children_select, hmade.2] at hx ⊢
  tauto

end Select

/-! ## INSERT, UPDATE and DELETE -/

theorem grows_assignment {table : Node} {column y : Input} (hc : column.Within K)
    (hy : y.Within K) : Grows K (Build.assignment table column y) fun K' made => K' made.2.1 := by
  refine (grows_coerceKey hc).bind fun K₁ key keeps _ => ?_
  dsimp only
  split
  · exact .fail _
  · exact (grows_coerceNode fun n hn => keeps n (hy hn)).bind fun _ _ _ hn => .pure hn

/-- The values after an assignment are the new one and others that were there. -/
theorem mem_of_mem_assign {values : List (String × Node)} {key : String} {value x : Node}
    (h : x ∈ (assign values key value).map Prod.snd) : x = value ∨ x ∈ values.map Prod.snd := by
  unfold assign at h
  split at h
  · rw [List.map_map] at h
    obtain ⟨pair, hpair, rfl⟩ := List.mem_map.1 h
    by_cases same : (pair.1 == key) = true
    · exact .inl (by rw [Function.comp, if_pos same])
    · exact .inr (by rw [Function.comp, if_neg same]; exact List.mem_map_of_mem hpair)
  · rw [List.map_append] at h
    exact (List.mem_append.1 h).symm.imp_left List.mem_singleton.1

theorem grows_criterion {existing : Option Node} (he : ∀ x ∈ existing.toList, K x)
    (h : input.Within K) : Grows K (Build.criterion existing input) fun K' made => K' made.1 := by
  refine (grows_coerceNode h).bind fun K' made keeps hn => ?_
  exact (grows_conjoin (fun x hx => keeps x (he x hx)) hn).bind fun _ _ _ hc => .pure hc

section Insert

variable {draft : InsertDraft}

theorem grows_insertInto (h : input.Within K) :
    Grows K (InsertDraft.start input) fun K' draft => (Workpiece.insert draft).Within K' :=
  (grows_coerceNode h).bind fun _ _ _ hn => .pure fun _ hx => List.mem_singleton.1 hx ▸ hn

theorem grows_value {column y : Input} (hd : (Workpiece.insert draft).Within K)
    (hc : column.Within K) (hy : y.Within K) :
    Grows K (draft.value column y) fun K' draft => (Workpiece.insert draft).Within K' := by
  refine (grows_assignment hc hy).bind fun K' made keeps hn => .pure ?_
  refine within_added (fun x hx => ?_) (fun x hx => List.mem_singleton.1 hx ▸ hn)
    fun x hx => keeps x (hd x hx)
  have assigned (h : x ∈ (assign draft.insert.values made.1 made.2.1).map Prod.snd) :=
    mem_of_mem_assign h
  simp only [Workpiece.children, mem_children_insert, List.mem_singleton] at hx ⊢
  tauto

theorem grows_keys (h : ∀ input ∈ inputs, input.Within K) :
    Grows K (InsertDraft.keys inputs) fun _ _ => True := by
  induction inputs generalizing K with
  | nil => exact .pure trivial
  | cons input inputs ih =>
    refine (grows_coerceKey (h input List.mem_cons_self)).bind fun K₁ _ keeps _ => ?_
    exact (ih fun input hinput n hn => keeps n (h input (List.mem_cons_of_mem _ hinput) hn)).bind
      fun _ _ _ _ => .pure trivial

theorem grows_fromSelect {y : Input} (hd : (Workpiece.insert draft).Within K)
    (h : ∀ input ∈ inputs, input.Within K) (hy : y.Within K) :
    Grows K (draft.fromSelect inputs y) fun K' draft => (Workpiece.insert draft).Within K' := by
  refine (grows_keys h).bind fun K₁ _ keeps₁ _ => ?_
  refine (grows_coerceNode fun n hn => keeps₁ n (hy hn)).bind fun K₂ made keeps₂ hn => .pure ?_
  refine within_added (fun x hx => ?_) (fun x hx => List.mem_singleton.1 hx ▸ hn)
    fun x hx => keeps₂ x (keeps₁ x (hd x hx))
  simp only [Workpiece.children, mem_children_insert, Option.map_some, Option.toList_some] at hx ⊢
  tauto

theorem grows_returningInserted (hd : (Workpiece.insert draft).Within K)
    (h : ∀ input ∈ inputs, input.Within K) :
    Grows K (draft.returning inputs) fun K' draft => (Workpiece.insert draft).Within K' := by
  refine (grows_coerceNodes h).bind fun K' made keeps hmade => .pure ?_
  refine within_added (fun x hx => ?_) hmade fun x hx => keeps x (hd x hx)
  simp only [Workpiece.children, mem_children_insert, List.mem_append] at hx ⊢
  tauto

theorem grows_insert (hd : (Workpiece.insert draft).Within K) : Grows K draft.build Made :=
  .ite (.fail _) (grows_reported hd)

end Insert

section Update

variable {draft : UpdateDraft}

theorem grows_updateOf (h : input.Within K) :
    Grows K (UpdateDraft.start input) fun K' draft => (Workpiece.update draft).Within K' :=
  (grows_coerceNode h).bind fun _ _ _ hn => .pure fun _ hx => List.mem_singleton.1 hx ▸ hn

theorem grows_set {column y : Input} (hd : (Workpiece.update draft).Within K)
    (hc : column.Within K) (hy : y.Within K) :
    Grows K (draft.set column y) fun K' draft => (Workpiece.update draft).Within K' := by
  refine (grows_assignment hc hy).bind fun K' made keeps hn => .pure ?_
  refine within_added (fun x hx => ?_) (fun x hx => List.mem_singleton.1 hx ▸ hn)
    fun x hx => keeps x (hd x hx)
  have assigned (h : x ∈ (assign draft.update.values made.1 made.2.1).map Prod.snd) :=
    mem_of_mem_assign h
  simp only [Workpiece.children, mem_children_update, List.mem_singleton] at hx ⊢
  tauto

theorem grows_filterUpdated (hd : (Workpiece.update draft).Within K) (h : input.Within K) :
    Grows K (draft.filter input) fun K' draft => (Workpiece.update draft).Within K' := by
  have before : ∀ x ∈ draft.update.criteria.toList, K x := fun x hx =>
    hd x (mem_children_update.2 (.inr (.inr (.inl hx))))
  refine (grows_criterion before h).bind fun K' made keeps hc => .pure ?_
  refine within_added (fun x hx => ?_) (fun x hx => List.mem_singleton.1 hx ▸ hc)
    fun x hx => keeps x (hd x hx)
  simp only [Workpiece.children, mem_children_update, Option.toList_some] at hx ⊢
  tauto

theorem grows_returningUpdated (hd : (Workpiece.update draft).Within K)
    (h : ∀ input ∈ inputs, input.Within K) :
    Grows K (draft.returning inputs) fun K' draft => (Workpiece.update draft).Within K' := by
  refine (grows_coerceNodes h).bind fun K' made keeps hmade => .pure ?_
  refine within_added (fun x hx => ?_) hmade fun x hx => keeps x (hd x hx)
  simp only [Workpiece.children, mem_children_update, List.mem_append] at hx ⊢
  tauto

end Update

section Delete

variable {draft : DeleteDraft}

theorem grows_deleteFrom (h : input.Within K) :
    Grows K (DeleteDraft.start input) fun K' draft => (Workpiece.delete draft).Within K' :=
  (grows_coerceNode h).bind fun _ _ _ hn => .pure fun _ hx => List.mem_singleton.1 hx ▸ hn

theorem grows_filterDeleted (hd : (Workpiece.delete draft).Within K) (h : input.Within K) :
    Grows K (draft.filter input) fun K' draft => (Workpiece.delete draft).Within K' := by
  have before : ∀ x ∈ draft.delete.criteria.toList, K x := fun x hx =>
    hd x (mem_children_delete.2 (.inr (.inl hx)))
  refine (grows_criterion before h).bind fun K' made keeps hc => .pure ?_
  refine within_added (fun x hx => ?_) (fun x hx => List.mem_singleton.1 hx ▸ hc)
    fun x hx => keeps x (hd x hx)
  simp only [Workpiece.children, mem_children_delete, Option.toList_some] at hx ⊢
  tauto

theorem grows_returningDeleted (hd : (Workpiece.delete draft).Within K)
    (h : ∀ input ∈ inputs, input.Within K) :
    Grows K (draft.returning inputs) fun K' draft => (Workpiece.delete draft).Within K' := by
  refine (grows_coerceNodes h).bind fun K' made keeps hmade => .pure ?_
  refine within_added (fun x hx => ?_) hmade fun x hx => keeps x (hd x hx)
  simp only [Workpiece.children, mem_children_delete, List.mem_append] at hx ⊢
  tauto

end Delete

/-! ## Every step -/

variable {c : Construction}

theorem grows_of_map {α : Type} {y : Build α} {f : α → Workpiece}
    (h : Grows K y fun K' a => (f a).Within K') : Grows K (f <$> y) fun K' w => w.Within K' := by
  rw [map_eq_pure_bind]
  exact h.bind fun _ _ _ hw => .pure hw

section Given

variable {w : Workpiece} {site site' : Site} {input' : Input} {rest : List (Site × Input)}

theorem piece (h : c.Within K) (hp : c.pieces = [w]) : w.Within K :=
  h.pieces w (hp ▸ List.mem_singleton_self w)

theorem first (h : c.Within K) (hc : c.coercions = (site, input) :: rest) : input.Within K :=
  h.inputs (site, input) (hc ▸ List.mem_cons_self)

theorem second (h : c.Within K) (hc : c.coercions = (site', input') :: (site, input) :: rest) :
    input.Within K :=
  h.inputs (site, input) (hc ▸ List.mem_cons_of_mem _ List.mem_cons_self)

theorem listed (h : c.Within K) (hc : c.coercions = inputs.map fun input => (site, input)) :
    ∀ input ∈ inputs, input.Within K :=
  fun input hinput => h.inputs (site, input) (hc ▸ List.mem_map_of_mem hinput)

end Given

/-- A step gives something that is made of nodes that exist. -/
theorem grows_run (h : c.Within K) : Grows K c.run fun K' w => w.Within K' := by
  cases c with
  | junction => exact grows_of_map (grows_junction (listed h rfl))
  | negation => exact grows_of_map (grows_negation (first h rfl))
  | call => exact grows_of_map (grows_call (listed h rfl))
  | cast => exact grows_of_map (grows_cast (first h rfl))
  | castNode => exact grows_of_map (grows_castNode (piece h rfl))
  | anyRow => exact grows_of_map (grows_anyRow (piece h rfl))
  | compare left op right =>
    refine grows_of_map (grows_compare (piece h rfl) fun given => ?_)
    have hc : (compare left op right).coercions =
        [(⟨.binaryElement, { left := some left, operator := some op }⟩, right)] := by
      rw [coercions, if_neg (by simp [given])]
    exact first h hc
  | arithmetic => exact grows_of_map (grows_arithmetic (piece h rfl) (first h rfl))
  | membership => exact grows_of_map (grows_membership (piece h rfl) (first h rfl))
  | between => exact grows_of_map (grows_between (piece h rfl) (first h rfl) (second h rfl))
  | againstNull => exact grows_of_map (grows_againstNull (piece h rfl))
  | unary => exact grows_of_map (grows_single rfl (piece h rfl))
  | label => exact grows_of_map (grows_label (piece h rfl) (first h rfl))
  | anonymousLabel => exact grows_of_map (Node.grows_anonymousLabel (piece h rfl))
  | ordered => exact grows_of_map (grows_ordered (piece h rfl))
  | boundColumn => exact grows_of_map (Node.grows_boundColumn (piece h rfl))
  | selectFrom => exact grows_of_map (Node.grows_select (piece h rfl))
  | subquery => exact grows_of_map (Node.grows_subquery (piece h rfl))
  | aliased => exact grows_of_map (Node.grows_aliased (piece h rfl))
  | scalarSubquery => exact grows_of_map (Node.grows_scalarSubquery (piece h rfl))
  | tableValued => exact grows_of_map (grows_tableValued (piece h rfl))
  | joined => exact grows_of_map (grows_joined (piece h rfl) (first h rfl) (second h rfl))
  | compound => exact grows_of_map (grows_compound (listed h rfl))
  | resume => exact grows_of_map (grows_resume (piece h rfl))
  | columns => exact grows_of_map (grows_columns (piece h rfl) (listed h rfl))
  | source => exact grows_of_map (grows_source (piece h rfl) (first h rfl))
  | join => exact grows_of_map (grows_join (piece h rfl) (first h rfl) (second h rfl))
  | filter => exact grows_of_map (grows_filter (piece h rfl) (first h rfl))
  | having => exact grows_of_map (grows_having (piece h rfl) (first h rfl))
  | groupBy => exact grows_of_map (grows_groupBy (piece h rfl) (listed h rfl))
  | orderBy => exact grows_of_map (grows_orderBy (piece h rfl) (listed h rfl))
  | limit => exact grows_of_map (grows_limit (piece h rfl) (first h rfl))
  | offset => exact grows_of_map (grows_offset (piece h rfl) (first h rfl))
  | distinct draft => exact .pure (h.pieces (.select draft) List.mem_cons_self)
  | correlate draft enabled => exact .pure (h.pieces (.select draft) List.mem_cons_self)
  | select => exact grows_of_map (grows_reported (piece h rfl))
  | insertInto => exact grows_of_map (grows_insertInto (first h rfl))
  | value => exact grows_of_map (grows_value (piece h rfl) (first h rfl) (second h rfl))
  | fromSelect draft inputs y =>
    refine grows_of_map (grows_fromSelect (piece h rfl) (fun input hinput => ?_) ?_)
    · exact h.inputs _ (List.mem_append_left _ (List.mem_map_of_mem hinput))
    · exact h.inputs _ (List.mem_append_right _ (List.mem_singleton_self _))
  | returningInserted => exact grows_of_map (grows_returningInserted (piece h rfl) (listed h rfl))
  | insert => exact grows_of_map (grows_insert (piece h rfl))
  | updateOf => exact grows_of_map (grows_updateOf (first h rfl))
  | set => exact grows_of_map (grows_set (piece h rfl) (first h rfl) (second h rfl))
  | filterUpdated => exact grows_of_map (grows_filterUpdated (piece h rfl) (first h rfl))
  | returningUpdated => exact grows_of_map (grows_returningUpdated (piece h rfl) (listed h rfl))
  | update => exact grows_of_map (grows_reported (piece h rfl))
  | deleteFrom => exact grows_of_map (grows_deleteFrom (first h rfl))
  | filterDeleted => exact grows_of_map (grows_filterDeleted (piece h rfl) (first h rfl))
  | returningDeleted => exact grows_of_map (grows_returningDeleted (piece h rfl) (listed h rfl))
  | delete => exact grows_of_map (grows_reported (piece h rfl))

end Construction

end SqlAlgebra
