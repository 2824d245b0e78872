import SqlAlgebra.Proofs.Layout.Spacing

/-!
# Where minus signs meet

A minus sign of an operator stands directly before its operand, so it meets another one exactly if
that is the first thing that the operand writes.  Minus signs meet nowhere else.
-/

namespace SqlAlgebra

open Layout

namespace Layout.Rendering

open Item

variable {d : Dialect} {inline : Bool} {frames : List Frame} {outer : Nat} {n : Node}
  {r : Rendering} {cs : List (Char × Bool)}

/-- Whether the first thing that a rendering writes is a minus sign: that of an operator which
stands without parentheses, or that of a negative number which is written out. -/
inductive StartsSigned (d : Dialect) (inline : Bool) : Rendering → Prop
  | minus {r : Rendering} {rest : List Item} :
      r.items d = .operator "-" :: rest → StartsSigned d inline r
  | number {r : Rendering} {rest : List Item} {n : Node} {b : BindParam} :
      r.items d = .own (piece (.bind n b)) :: rest → inline = true → b.isExpanding = false →
        b.value.isNegative = true → StartsSigned d inline r
  | leading {r part : Rendering} {rest : List Item} :
      r.items d = .part part :: rest → StartsSigned d inline part → StartsSigned d inline r

/-- Whether no operand of a minus sign that is written for a rendering starts with one. -/
def KeepsApart (d : Dialect) (inline : Bool) (r : Rendering) : Prop :=
  ∀ outer frames n operand, r.Reaches d ⟨.expression outer, frames, n⟩ →
    n.kind = .unary .neg operand →
      ¬StartsSigned d inline ⟨.expression (operandStrength .neg), frames, operand⟩

theorem keepsApart_iff (sound : (r.layout d).fault = none) : KeepsApart d inline r ↔
    (∀ outer frames n operand, r = ⟨.expression outer, frames, n⟩ → n.kind = .unary .neg operand →
      ¬StartsSigned d inline ⟨.expression (operandStrength .neg), frames, operand⟩) ∧
    ∀ part, .part part ∈ r.items d → KeepsApart d inline part := by
  constructor
  · intro apart
    refine ⟨fun outer frames n operand same => ?_, fun part h outer frames n operand reaches => ?_⟩
    · exact apart outer frames n operand (same ▸ .refl)
    · exact apart outer frames n operand (.head (mem_parts_of_mem_items h) reaches)
  · rintro ⟨here, deeper⟩ outer frames n operand reaches
    obtain same | ⟨part, h, reaches⟩ := reaches.cases_head
    · exact here outer frames n operand same
    · exact deeper part ((mem_items_iff sound).2 h) outer frames n operand reaches

theorem marked_minus (d : Dialect) : marked true (Template.escaped d "-") = [minusSign] := by
  rw [Template.escaped_of_notMem (by decide)]
  rfl

/-- What is to be shown of the minus signs that a rendering becomes. -/
def HasSigns (d : Dialect) (inline : Bool) (r : Rendering) : Prop :=
  ∀ cs, BecomeMarked d inline (r.markedPieces d) cs →
    (NoComment cs ↔ KeepsApart d inline r) ∧ (StartsWithMinus cs ↔ StartsSigned d inline r)

theorem not_startsSigned_of_quiet (quiet : Quiet d (r.items d)) : ¬StartsSigned d inline r := by
  rintro (⟨items⟩ | ⟨items, -⟩ | ⟨items, -⟩) <;> rw [items] at quiet
  · refine quiet.2.1 ?_
    rw [marked_minus]
    rfl
  · exact quiet.1 _ List.mem_cons_self _ _ rfl
  · exact quiet

theorem startsSigned_iff_of_apart (apart : Apart d (r.items d)) : StartsSigned d inline r ↔
    ∃ part rest, r.items d = .part part :: rest ∧ StartsSigned d inline part := by
  constructor
  · intro signed
    obtain quiet | ⟨part, rest, items⟩ := apart.quiet_or_part
    · exact absurd signed (not_startsSigned_of_quiet quiet)
    · refine ⟨part, rest, items, ?_⟩
      obtain ⟨items'⟩ | ⟨items', -⟩ | ⟨items', signed⟩ := signed <;> cases items.symm.trans items'
      exact signed
  · rintro ⟨part, rest, items, signed⟩
    exact .leading items signed

theorem hasSigns_of_apart (apart : Apart d (r.items d)) (sound : (r.layout d).fault = none)
    (other : ∀ outer frames n operand, r = ⟨.expression outer, frames, n⟩ →
      n.kind ≠ .unary .neg operand)
    (parts : ∀ part, .part part ∈ r.items d → HasSigns d inline part) : HasSigns d inline r := by
  intro cs h
  have each := layout_sound sound
  rw [markedPieces_eq] at h
  constructor
  · rw [apart.noComment_iff each (fun part mem cs become => (parts part mem cs become).1) h,
      keepsApart_iff sound]
    exact (and_iff_right fun outer frames n operand same kind =>
      absurd kind (other outer frames n operand same)).symm
  · rw [apart.startsWithMinus_iff each (fun part mem cs become => (parts part mem cs become).2) h,
      startsSigned_iff_of_apart apart]

theorem items_bind (d : Dialect) (frames : List Frame) (outer : Nat) {b : BindParam}
    (kind : n.kind = .bind b) :
    Rendering.items d ⟨.expression outer, frames, n⟩ = [.own (piece (.bind n b))] := by
  rw [Rendering.items, expressionItems, kind]

theorem items_minus (d : Dialect) (frames : List Frame) (outer : Nat) {operand : Node}
    (kind : n.kind = .unary .neg operand) :
    Rendering.items d ⟨.expression outer, frames, n⟩ =
      enclosedIf (UnaryOp.neg.precedence < outer)
        [.operator "-", .part ⟨.expression (operandStrength .neg), frames, operand⟩] := by
  rw [Rendering.items, expressionItems, kind]
  rfl

theorem hasSigns_of_bind {b : BindParam} (kind : n.kind = .bind b)
    (sound : (layout d ⟨.expression outer, frames, n⟩).fault = none) :
    HasSigns d inline ⟨.expression outer, frames, n⟩ := by
  intro cs h
  have items := items_bind d frames outer kind
  rw [markedPieces_eq, items] at h
  obtain _ | ⟨first, ⟨⟩⟩ := h
  obtain ⟨inside, starts⟩ := first.minusSigns
  rw [List.append_nil, starts, keepsApart_iff sound, items]
  refine ⟨iff_of_true inside ⟨?_, by simp⟩, ?_⟩
  · rintro _ _ _ operand ⟨⟩ other
    cases kind.symm.trans other
  · constructor
    · rintro ⟨written, single, negative⟩
      exact .number items written single negative
    · rintro (⟨items'⟩ | ⟨items', written, single, negative⟩ | ⟨items', -⟩)
      · cases items.symm.trans items'
      · cases items.symm.trans items'
        exact ⟨written, single, negative⟩
      · cases items.symm.trans items'

/-- What stands in parentheses has the comments of what is inside, and starts with no minus sign. -/
theorem minusSigns_enclosed {items : List Item}
    (h : BecomeMarked d inline ((enclosed items).flatMap (Item.markedPieces d)) cs) :
    ∃ inner, BecomeMarked d inline (items.flatMap (Item.markedPieces d)) inner ∧
      (NoComment cs ↔ NoComment inner) ∧ ¬StartsWithMinus cs := by
  have sides (sql : String) (plain : '%' ∉ sql.toList) {cs : List (Char × Bool)}
      (h : BecomeMarked d inline ((Item.own (text sql)).markedPieces d) cs) :
      cs = marked false sql := by
    obtain _ | ⟨first, ⟨⟩⟩ := h
    cases first with
    | text => rw [List.append_nil, Template.escaped_of_notMem plain]
  rw [enclosed, List.flatMap_cons, List.flatMap_append, List.flatMap_singleton] at h
  obtain ⟨front, rest, rfl, opening, h⟩ := becomeMarked_append.1 h
  obtain ⟨inner, back, rfl, inside, closing⟩ := becomeMarked_append.1 h
  obtain rfl := sides "(" (by decide) opening
  obtain rfl := sides ")" (by decide) closing
  have close : ¬StartsWithMinus (marked false ")") :=
    not_startsWithMinus_of_notMem (notMem_marked_false _)
  refine ⟨inner, inside, ?_, not_startsWithMinus_marked_append (by decide)⟩
  rw [noComment_marked_append, noComment_append_of_not_starts close]
  exact and_iff_left (noComment_of_notMem (notMem_marked_false _))

/-- A minus sign is apart from what follows it exactly if its operand does not start with one. -/
theorem minusSigns_minus {part : Rendering} (signs : HasSigns d inline part)
    (h : BecomeMarked d inline ([Item.operator "-", .part part].flatMap (Item.markedPieces d)) cs) :
    StartsWithMinus cs ∧
      (NoComment cs ↔ ¬StartsSigned d inline part ∧ KeepsApart d inline part) := by
  rw [List.flatMap_cons, List.flatMap_singleton] at h
  obtain ⟨front, back, rfl, first, rest⟩ := becomeMarked_append.1 h
  obtain rfl := eq_of_operator first
  obtain ⟨inside, starts⟩ := signs back rest
  rw [marked_minus, ← inside, ← starts, noComment_append]
  refine ⟨rfl, ?_⟩
  constructor
  · rintro ⟨-, inside, met⟩
    exact ⟨fun first => met ⟨rfl, first⟩, inside⟩
  · rintro ⟨met, inside⟩
    exact ⟨List.isChain_singleton _, inside, fun both => met both.2⟩

theorem keepsApart_iff_of_minus {operand : Node} (kind : n.kind = .unary .neg operand)
    (sound : (layout d ⟨.expression outer, frames, n⟩).fault = none) :
    KeepsApart d inline ⟨.expression outer, frames, n⟩ ↔
      ¬StartsSigned d inline ⟨.expression (operandStrength .neg), frames, operand⟩ ∧
        KeepsApart d inline ⟨.expression (operandStrength .neg), frames, operand⟩ := by
  rw [keepsApart_iff sound, items_minus d frames outer kind]
  refine and_congr ?_ (by simp)
  constructor
  · exact fun all => all outer frames n operand rfl kind
  · rintro apart _ _ _ operand' ⟨⟩ kind'
    cases kind.symm.trans kind'
    exact apart

theorem hasSigns_of_minus {operand : Node} (kind : n.kind = .unary .neg operand)
    (sound : (layout d ⟨.expression outer, frames, n⟩).fault = none)
    (part : HasSigns d inline ⟨.expression (operandStrength .neg), frames, operand⟩) :
    HasSigns d inline ⟨.expression outer, frames, n⟩ := by
  intro cs h
  have items := items_minus d frames outer kind
  rw [markedPieces_eq, items] at h
  rw [keepsApart_iff_of_minus kind sound]
  by_cases needed : UnaryOp.neg.precedence < outer
  · rw [decide_eq_true needed] at h items
    obtain ⟨inner, inside, same, quiet⟩ := minusSigns_enclosed h
    refine ⟨same.trans (minusSigns_minus part inside).2, iff_of_false quiet ?_⟩
    rintro (⟨items'⟩ | ⟨items', -⟩ | ⟨items', -⟩) <;> cases items.symm.trans items'
  · rw [decide_eq_false needed] at h items
    obtain ⟨starts, apart⟩ := minusSigns_minus part h
    exact ⟨apart, iff_of_true starts (.minus items)⟩

/-- The minus signs of operators and numbers in what a rendering becomes. -/
theorem hasSigns (database : d ∈ Dialect.databases) (sound : (r.layout d).fault = none) :
    HasSigns d inline r := by
  induction r using induct d with
  | step r ih =>
    have each := layout_sound sound
    have parts (part : Rendering) (h : .part part ∈ r.items d) : HasSigns d inline part :=
      ih part h (each (.part part) h)
    rcases r with ⟨position, frames, n⟩
    cases position with
    | expression outer =>
      by_cases param : ∃ b, n.kind = .bind b
      · obtain ⟨b, kind⟩ := param
        exact hasSigns_of_bind kind sound
      by_cases minus : ∃ operand, n.kind = .unary .neg operand
      · obtain ⟨operand, kind⟩ := minus
        refine hasSigns_of_minus kind sound (parts _ ?_)
        rw [items, expressionItems, kind]
        simp
      · have apart : Apart d (expressionItems d frames outer n) :=
          apart_expressionItems database (not_exists.1 param) (not_exists.1 minus)
        refine hasSigns_of_apart apart sound ?_ parts
        rintro _ _ _ operand ⟨⟩
        exact not_exists.1 minus operand
    | statement => exact hasSigns_of_apart apart_statementItems sound (by simp) parts
    | fromElement => exact hasSigns_of_apart apart_fromElementItems sound (by simp) parts
    | columnItem => exact hasSigns_of_apart apart_columnItemItems sound (by simp) parts
    | labelReference => exact hasSigns_of_apart apart_labelReferenceItems sound (by simp) parts

end Layout.Rendering

/-! ## Trees in which minus signs stay apart -/

/-- Whether a minus sign above a node is kept from those below it: the node is no negative number
that is written out, and it does not write what it stands for as if nothing stood around it. -/
def Node.StaysApart (inline : Bool) (n : Node) : Prop :=
  match n.kind with
  | .ordering .. | .labelReference _ => False
  | .bind b => ¬(inline = true ∧ b.isExpanding = false ∧ b.value.isNegative = true)
  | _ => True

namespace Layout.Rendering

open Item

variable {d : Dialect} {inline : Bool} {frames : List Frame} {outer : Nat} {n : Node}
  {r part : Rendering} {rest : List Item}

theorem enclosedIf_eq_part_cons {needed : Bool} {items : List Item}
    (h : enclosedIf needed items = .part part :: rest) :
    needed = false ∧ items = .part part :: rest := by
  cases needed with
  | false => exact ⟨rfl, h⟩
  | true => cases h

/-- What comes first in an expression inside an operator that binds more than a minus sign is inside
such an operator, too. -/
theorem exists_of_leading (strong : UnaryOp.neg.precedence < outer)
    (stays : n.StaysApart inline) (items : expressionItems d frames outer n = .part part :: rest) :
    ∃ outer' c, UnaryOp.neg.precedence < outer' ∧ part = ⟨.expression outer', frames, c⟩ := by
  rcases n with ⟨i, kind, type, annotations, diagnostics⟩
  unfold expressionItems at items
  cases kind with
  | label name element =>
    cases items
    exact ⟨outer, element, strong, rfl⟩
  | ordering | labelReference => exact stays.elim
  | unary op operand => cases (enclosedIf_eq_part_cons items).2
  | binary left op right =>
    dsimp only at items
    cases hs : d.spelling op with
    | none =>
      rw [hs] at items
      cases items
    | some spelling =>
      rw [hs] at items
      cases spelling with
      | call name => cases items
      | negated symbol => cases (enclosedIf_eq_part_cons items).2
      | between symbol =>
        obtain ⟨bare, items⟩ := enclosedIf_eq_part_cons items
        cases items
        have bare := of_decide_eq_false bare
        exact ⟨op.precedence, left, by omega, rfl⟩
  | clauseList op clauses =>
    obtain _ | ⟨first, _ | ⟨second, others⟩⟩ := clauses
    · cases items
    · cases items
      exact ⟨outer, first, strong, rfl⟩
    · obtain ⟨bare, items⟩ := enclosedIf_eq_part_cons items
      cases items
      have bare := of_decide_eq_false bare
      exact ⟨op.precedence, first, by omega, rfl⟩
  | cast element type =>
    dsimp only at items
    cases name : d.typeName type <;> rw [name] at items <;> cases items
  | tableValued source =>
    dsimp only at items
    cases name : sourceName? d source <;> rw [name] at items <;> cases items
  | _ => cases items

/-- An expression in which everything stays apart does not start with a minus sign where one stands
above it. -/
theorem not_startsSigned_of_staysApart (database : d ∈ Dialect.databases)
    (strong : UnaryOp.neg.precedence < outer) (stays : ∀ y, Node.Occurs y n → y.StaysApart inline) :
    ¬StartsSigned d inline ⟨.expression outer, frames, n⟩ := by
  generalize hr : Rendering.mk (.expression outer) frames n = r
  induction r using induct d generalizing outer n with
  | step r ih =>
    subst hr
    by_cases param : ∃ b, n.kind = .bind b
    · obtain ⟨b, kind⟩ := param
      have items := items_bind d frames outer kind
      have positive := stays n .root
      rw [Node.StaysApart, kind] at positive
      rintro (⟨items'⟩ | ⟨items', written, single, negative⟩ | ⟨items', -⟩) <;>
        cases items.symm.trans items'
      exact positive ⟨written, single, negative⟩
    by_cases minus : ∃ operand, n.kind = .unary .neg operand
    · obtain ⟨operand, kind⟩ := minus
      apply not_startsSigned_of_quiet
      rw [items_minus d frames outer kind, decide_eq_true strong]
      exact quiet_enclosed _
    · have apart : Apart d (expressionItems d frames outer n) :=
        apart_expressionItems database (not_exists.1 param) (not_exists.1 minus)
      rw [startsSigned_iff_of_apart apart]
      rintro ⟨part, rest, items, signed⟩
      have first : .part part ∈ Rendering.items d ⟨.expression outer, frames, n⟩ :=
        items ▸ List.mem_cons_self
      have inside := occurs_of_mem_parts (mem_parts_of_mem_items first)
      obtain ⟨outer', c, strong', rfl⟩ := exists_of_leading strong (stays n .root) items
      exact ih _ first strong' (fun y hy => stays y (hy.trans inside)) rfl signed

theorem keepsApart_of_staysApart (database : d ∈ Dialect.databases)
    (stays : ∀ x operand, Node.Occurs x r.node → x.kind = .unary .neg operand →
      ∀ y, Node.Occurs y operand → y.StaysApart inline) : KeepsApart d inline r := by
  intro outer frames n operand reaches kind
  exact not_startsSigned_of_staysApart database (by decide) (stays n operand reaches.occurs kind)

end Layout.Rendering

end SqlAlgebra
