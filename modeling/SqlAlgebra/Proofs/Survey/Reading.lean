import SqlAlgebra.Proofs.Survey.Marks
import SqlAlgebra.Proofs.Tree.Likeness

/-!
# Reading a key back

The elements of a key are enough to tell what was taken down.  Two lists of marks are compared from
the left: wherever they could part, the element that comes next is a different one.  So nodes of the
same kind whose marks were taken down alike agree on all that a key shows.
-/

namespace SqlAlgebra

open List (Forall₂)

theorem UnaryOp.sql_injective {op op' : UnaryOp} (h : op.sql = op'.sql) : op = op' := by
  cases op <;> cases op' <;> first
    | rfl
    | exact absurd h (by decide)

theorem BinaryOp.sql_injective {op op' : BinaryOp} (h : op.sql = op'.sql) : op = op' := by
  cases op <;> cases op' <;> first
    | rfl
    | exact absurd h (by decide)

theorem ListOp.separator_injective {op op' : ListOp} (h : op.separator = op'.separator) :
    op = op' := by
  cases op <;> cases op' <;> first
    | rfl
    | exact absurd h (by decide)

theorem JoinKind.sql_injective {kind kind' : JoinKind} (h : kind.sql = kind'.sql) :
    kind = kind' := by
  cases kind <;> cases kind' <;> first
    | rfl
    | exact absurd h (by decide)

theorem SetOp.sql_injective {op op' : SetOp} (h : op.sql = op'.sql) : op = op' := by
  cases op <;> cases op' <;> first
    | rfl
    | exact absurd h (by decide)

namespace Mark

/-- The elements that a mark can begin with in a key. -/
inductive Starts : Mark → KeyElement → Prop where
  | put (e : KeyElement) : Starts (.put e) e
  | name (ident : String) : Starts (.name ident) (.spelling ident)
  | anonymous (k : Nat) : Starts .anonymous (.anonymous k)
  | slot (n : Node) (k : Nat) : Starts (.slot n) (.slot k)
  | reference (n : Node) (k : Nat) : Starts (.child n) (.reference k)
  | definition (n : Node) (k : Nat) : Starts (.child n) (.definition k)
  | kind (n : Node) : Starts (.child n) (.kind n.kindName)

/-- Marks that say the same, whatever the nodes among them are. -/
inductive Agree : Mark → Mark → Prop where
  | put (e : KeyElement) : Agree (.put e) (.put e)
  | name (ident : String) : Agree (.name ident) (.name ident)
  | anonymous : Agree .anonymous .anonymous
  | slot (m n : Node) : Agree (.slot m) (.slot n)
  | child (m n : Node) : Agree (.child m) (.child n)

/-- Marks that agree if they begin with the same element. -/
def Told (x y : Mark) : Prop := ∀ e, x.Starts e → y.Starts e → x.Agree y

/-- Lists of marks that a key tells apart, and of which it tells `P` if they are alike. -/
inductive Decides (P : Prop) : List Mark → List Mark → Prop where
  | done : P → Decides P [] []
  | next {x y : Mark} {xs ys : List Mark} :
      x.Told y → (x.Agree y → Decides P xs ys) → Decides P (x :: xs) (y :: ys)

namespace Decides

variable {P Q : Prop} {xs ys xs' ys' : List Mark}

theorem imp (h : Decides P xs ys) (hPQ : P → Q) : Decides Q xs ys := by
  induction h with
  | done h => exact .done (hPQ h)
  | next told _ ih => exact .next told ih

theorem append (h : Decides P xs ys) (h' : P → Decides Q xs' ys') :
    Decides Q (xs ++ xs') (ys ++ ys') := by
  induction h with
  | done h => exact h' h
  | next told _ ih => exact .next told ih

theorem put {e e' : KeyElement} (h : e = e' → Decides P xs ys) :
    Decides P (.put e :: xs) (.put e' :: ys) := by
  refine .next ?_ ?_
  · intro _ hx hy
    cases hx
    cases hy
    exact .put e
  · intro agree
    cases agree
    exact h rfl

theorem name {i i' : String} (h : i = i' → Decides P xs ys) :
    Decides P (.name i :: xs) (.name i' :: ys) := by
  refine .next ?_ ?_
  · intro _ hx hy
    cases hx
    cases hy
    exact .name i
  · intro agree
    cases agree
    exact h rfl

theorem child {m n : Node} (h : Decides P xs ys) : Decides P (.child m :: xs) (.child n :: ys) :=
  .next (fun _ _ _ => .child m n) fun _ => h

theorem slot {m n : Node} (h : Decides P xs ys) : Decides P (.slot m :: xs) (.slot n :: ys) :=
  .next (fun _ _ _ => .slot m n) fun _ => h

theorem apart {x y : Mark} (h : ∀ e, x.Starts e → ¬y.Starts e) : Decides P (x :: xs) (y :: ys) := by
  refine .next (fun e hx hy => absurd hy (h e hx)) ?_
  intro agree
  cases agree with
  | put e => exact absurd (.put e) (h e (.put e))
  | name ident => exact absurd (.name ident) (h _ (.name ident))
  | anonymous => exact absurd (.anonymous 0) (h _ (.anonymous 0))
  | slot m n => exact absurd (.slot n 0) (h _ (.slot m 0))
  | child m n => exact absurd (.reference n 0) (h _ (.reference m 0))

theorem identifier? {i i' : Option String} (h : i = i' → Decides P xs ys) :
    Decides P (Mark.identifier? i :: xs) (Mark.identifier? i' :: ys) := by
  cases i <;> cases i'
  · exact put fun _ => h rfl
  · exact apart (by rintro _ ⟨⟩ ⟨⟩)
  · exact apart (by rintro _ ⟨⟩ ⟨⟩)
  · exact name fun e => h (congrArg some e)

theorem nameOrAnonymous {i i' : Option String} (h : i = i' → Decides P xs ys) :
    Decides P (Mark.nameOrAnonymous i :: xs) (Mark.nameOrAnonymous i' :: ys) := by
  cases i <;> cases i'
  · exact .next (fun _ _ _ => .anonymous) fun _ => h rfl
  · exact apart (by rintro _ ⟨⟩ ⟨⟩)
  · exact apart (by rintro _ ⟨⟩ ⟨⟩)
  · exact name fun e => h (congrArg some e)

theorem nullsOrder {o o' : Option NullsOrder} (h : o = o' → Decides P xs ys) :
    Decides P (Mark.nullsOrder o :: xs) (Mark.nullsOrder o' :: ys) := by
  refine put fun e => h ?_
  rcases o with _ | ⟨_ | _⟩ <;> rcases o' with _ | ⟨_ | _⟩
  all_goals first
    | rfl
    | exact absurd e (by decide)

theorem columnShapes (columns columns' : List ColumnShape) :
    Decides (columns = columns') (Mark.columnShapes columns) (Mark.columnShapes columns') := by
  refine put fun e => ?_
  have each (h : columns.length = columns'.length) :
      Decides (columns = columns')
        (columns.flatMap fun column => [.name column.1, .put (.type column.2)])
        (columns'.flatMap fun column => [.name column.1, .put (.type column.2)]) := by
    clear e
    induction columns generalizing columns' with
    | nil =>
      obtain rfl : columns' = [] := List.length_eq_zero_iff.1 h.symm
      exact done rfl
    | cons column rest ih =>
      cases columns' with
      | nil => cases h
      | cons column' rest' =>
        refine name fun hi => put fun ht => (ih rest' (Nat.succ.inj h)).imp ?_
        rintro rfl
        exact congrArg (· :: rest) (Prod.ext hi (KeyElement.type.inj ht))
  exact each (KeyElement.count.inj e)

theorem children (ns ns' : List Node) (h : ns.length = ns'.length) :
    Decides True (ns.map .child) (ns'.map .child) := by
  induction ns generalizing ns' with
  | nil =>
    obtain rfl : ns' = [] := List.length_eq_zero_iff.1 h.symm
    exact done trivial
  | cons n rest ih =>
    cases ns' with
    | nil => cases h
    | cons n' rest' => exact child (ih rest' (Nat.succ.inj h))

theorem enclosed (group : String) (h : Decides P xs ys) :
    Decides P (Mark.enclosed group xs) (Mark.enclosed group ys) :=
  put fun _ => h.append fun hP => put fun _ => done hP

theorem group (group : String) (ns ns' : List Node) :
    Decides (Forall₂ (fun _ _ => True) ns ns') (Mark.group group ns) (Mark.group group ns') := by
  refine enclosed group (put fun e => (children ns ns' (KeyElement.count.inj e)).imp fun _ => ?_)
  exact List.forall₂_iff_get.2 ⟨KeyElement.count.inj e, fun _ _ _ => trivial⟩

theorem option (group : String) (n n' : Option Node) :
    Decides (Option.Rel (fun _ _ => True) n n') (Mark.option group n) (Mark.option group n') := by
  cases n <;> cases n'
  · exact enclosed group (done .none)
  · exact put fun _ => apart (by rintro _ ⟨⟩ ⟨⟩)
  · exact put fun _ => apart (by rintro _ ⟨⟩ h <;> cases h)
  · exact enclosed group (child (done (.some trivial)))

theorem pairs (group : String) (values values' : List (String × Node)) :
    Decides (Forall₂ (fun p q => p.1 = q.1 ∧ True) values values') (Mark.pairs group values)
      (Mark.pairs group values') := by
  refine enclosed group (put fun e => ?_)
  have h := KeyElement.count.inj e
  clear e
  induction values generalizing values' with
  | nil =>
    obtain rfl : values' = [] := List.length_eq_zero_iff.1 h.symm
    exact done .nil
  | cons value rest ih =>
    cases values' with
    | nil => cases h
    | cons value' rest' =>
      exact name fun hi => child ((ih rest' (Nat.succ.inj h)).imp (.cons ⟨hi, trivial⟩))

theorem names (is is' : List String) (h : is.length = is'.length) :
    Decides (is = is') (is.map .name) (is'.map .name) := by
  induction is generalizing is' with
  | nil =>
    obtain rfl : is' = [] := List.length_eq_zero_iff.1 h.symm
    exact done rfl
  | cons i rest ih =>
    cases is' with
    | nil => cases h
    | cons i' rest' =>
      refine name fun hi => (ih rest' (Nat.succ.inj h)).imp ?_
      rintro rfl
      rw [hi]

theorem inserted (source source' : Option (List String × Node)) :
    Decides (Option.Rel (fun p q => p.1 = q.1 ∧ True) source source') (Mark.inserted source)
      (Mark.inserted source') := by
  cases source <;> cases source'
  · exact enclosed "select" (done .none)
  · exact put fun _ => put (by rintro ⟨⟩)
  · exact put fun _ => put (by rintro ⟨⟩)
  · refine enclosed "select" (put fun e => ?_)
    exact (names _ _ (KeyElement.count.inj e)).append fun hi => child (done (.some ⟨hi, trivial⟩))

end Decides

end Mark

namespace Node

open Mark

theorem lambdaText_injective {i j : Identity}
    (h : "Lambda(" ++ toString i ++ ")" = "Lambda(" ++ toString j ++ ")") : i = j := by
  have digits : Nat.toDigits 10 i = Nat.toDigits 10 j := by
    rw [← Nat.toList_repr, ← Nat.toList_repr]
    simpa using congrArg String.toList h
  rw [← Nat.ofDigitChars_ten_toDigits (n := i), digits, Nat.ofDigitChars_ten_toDigits]

/-- The marks of nodes of the same kind tell whether the nodes agree on all that a key shows. -/
theorem decides_marks {a b : Node} (h : a.kindName = b.kindName) :
    Decides (a.SameForm b) a.marks b.marks := by
  rcases a with ⟨i, k, type, annotations, diagnostics⟩
  rcases b with ⟨i', k', type', annotations', diagnostics'⟩
  unfold kindName at h
  -- kinds of different names are left out at once
  cases k <;> cases k'
  all_goals first
    | (simp at h; done)
    | (dsimp only at h; split at h <;> simp at h; done)
    | skip
  case null.null => exact .done ⟨.null, rfl⟩
  case truth.truth value value' =>
    cases value <;> cases value' <;> first
      | exact .done ⟨.truth _, rfl⟩
      | simp at h
  case bind.bind p q =>
    refine .slot (.identifier? fun hk => .put fun hu => .put fun he => .put fun ht => .done ?_)
    exact ⟨.bind ⟨hk, KeyElement.flag.inj hu, KeyElement.flag.inj he⟩,
      congrArg some (KeyElement.type.inj ht)⟩
  case column.column =>
    refine .name fun hn => .put fun hl => .put fun ht => ?_
    refine (Decides.option "table" _ _).imp fun hs => ?_
    cases hn
    cases hl
    exact ⟨.column _ _ hs, congrArg some (KeyElement.type.inj ht)⟩
  case text.text =>
    refine .put fun e => .done ?_
    cases e
    exact ⟨.text _, rfl⟩
  case textualSelect.textualSelect =>
    refine (Decides.columnShapes _ _).append ?_
    rintro rfl
    exact .child (.done ⟨.textualSelect _ trivial, rfl⟩)
  case unary.unary =>
    refine .put fun e => .child (.done ?_)
    obtain rfl := UnaryOp.sql_injective (KeyElement.spelling.inj e)
    exact ⟨.unary _ trivial, rfl⟩
  case binary.binary =>
    refine .put fun e => .child (.child (.done ?_))
    obtain rfl := BinaryOp.sql_injective (KeyElement.spelling.inj e)
    exact ⟨.binary _ trivial trivial, rfl⟩
  case clauseList.clauseList =>
    refine .put fun e => (Decides.group "clauses" _ _).imp fun hs => ?_
    obtain rfl := ListOp.separator_injective (KeyElement.spelling.inj e)
    exact ⟨.clauseList _ hs, rfl⟩
  case grouping.grouping => exact .child (.done ⟨.grouping trivial, rfl⟩)
  case function.function =>
    refine .put fun e => (Decides.group "args" _ _).imp fun hs => ?_
    cases e
    exact ⟨.function _ hs, rfl⟩
  case cast.cast =>
    refine .put fun e => .child (.done ?_)
    cases e
    exact ⟨.cast _ trivial, rfl⟩
  case label.label =>
    refine .nameOrAnonymous ?_
    rintro rfl
    exact .child (.done ⟨.label _ trivial, rfl⟩)
  case labelReference.labelReference => exact .child (.done ⟨.labelReference trivial, rfl⟩)
  case textualLabelReference.textualLabelReference =>
    refine .name ?_
    rintro rfl
    exact .done ⟨.textualLabelReference _, rfl⟩
  case ordering.ordering =>
    refine .put fun e => .nullsOrder ?_
    rintro rfl
    cases e
    exact .child (.done ⟨.ordering _ _ trivial, rfl⟩)
  case table.table t t' =>
    rcases t with ⟨name, schema, columns⟩
    rcases t' with ⟨name', schema', columns'⟩
    refine .name fun hn => .identifier? fun hs => (Decides.columnShapes _ _).imp fun hc => ?_
    cases hn
    cases hs
    cases hc
    exact ⟨.table _, rfl⟩
  case alias.alias =>
    refine .nameOrAnonymous ?_
    rintro rfl
    exact .child (.done ⟨.alias _ trivial, rfl⟩)
  case subquery.subquery =>
    refine .nameOrAnonymous ?_
    rintro rfl
    exact .child (.done ⟨.subquery _ trivial, rfl⟩)
  case scalarSubquery.scalarSubquery => exact .child (.done ⟨.scalarSubquery trivial, rfl⟩)
  case tableValued.tableValued => exact .child (.done ⟨.tableValued trivial, rfl⟩)
  case join.join =>
    refine .put fun e => .child (.child (.child (.done ?_)))
    obtain hk := JoinKind.sql_injective (KeyElement.spelling.inj e)
    rename_i j j'
    rcases j with ⟨left, right, on, kind⟩
    rcases j' with ⟨left', right', on', kind'⟩
    cases hk
    exact ⟨.join _ trivial trivial trivial, rfl⟩
  case select.select s s' =>
    refine .put fun hd => .put fun hc => ?_
    rcases s with ⟨columns, froms, criteria, groupBy, having, orderBy, limit, offset, d, c⟩
    rcases s' with
      ⟨columns', froms', criteria', groupBy', having', orderBy', limit', offset', d', c'⟩
    cases hd
    cases hc
    refine (Decides.group "columns" _ _).append fun h₁ => ?_
    refine (Decides.group "froms" _ _).append fun h₂ => ?_
    refine (Decides.option "where" _ _).append fun h₃ => ?_
    refine (Decides.group "group_by" _ _).append fun h₄ => ?_
    refine (Decides.option "having" _ _).append fun h₅ => ?_
    refine (Decides.group "order_by" _ _).append fun h₆ => ?_
    refine (Decides.option "limit" _ _).append fun h₇ => ?_
    exact (Decides.option "offset" _ _).imp fun h₈ =>
      ⟨.select _ _ h₁ h₂ h₃ h₄ h₅ h₆ h₇ h₈, rfl⟩
  case compound.compound =>
    refine .put fun e => (Decides.group "selects" _ _).imp fun hs => ?_
    obtain rfl := SetOp.sql_injective (KeyElement.spelling.inj e)
    exact ⟨.compound _ hs, rfl⟩
  case insert.insert =>
    refine .child ((Decides.pairs "values" _ _).append fun h₁ => ?_)
    refine (Decides.inserted _ _).append fun h₂ => ?_
    exact (Decides.group "returning" _ _).imp fun h₃ => ⟨.insert trivial h₁ h₂ h₃, rfl⟩
  case update.update =>
    refine .child ((Decides.pairs "values" _ _).append fun h₁ => ?_)
    refine (Decides.option "where" _ _).append fun h₂ => ?_
    exact (Decides.group "returning" _ _).imp fun h₃ => ⟨.update trivial h₁ h₂ h₃, rfl⟩
  case delete.delete =>
    refine .child ((Decides.option "where" _ _).append fun h₁ => ?_)
    exact (Decides.group "returning" _ _).imp fun h₂ => ⟨.delete trivial h₁ h₂, rfl⟩
  case deferred.deferred =>
    refine .put fun hi => .put fun hr => .done ⟨.deferred ?_ (KeyElement.spelling.inj hr), rfl⟩
    exact lambdaText_injective (KeyElement.spelling.inj hi)

end Node

end SqlAlgebra
