import Mathlib.Data.List.Forall2
import SqlAlgebra.Proofs.Layout.Spacing

/-!
# One tree in two dialects

Dialects spell operators, truth values and fillers differently and put parentheses elsewhere, but all
of this is text.  What is open in a layout, the names to be made up and the parameters, comes from the
tree: two dialects that page rows in the same way leave the same open, in the same order, where both
can render the tree.  A rendering writes the same parts in both, at most inside operators of different
strengths, so what is open in it is compared part by part.
-/

namespace SqlAlgebra

/-- Whether a piece is no text. -/
def Piece.isOpen : Piece → Bool
  | .text _ => false
  | _ => true

namespace Layout

/-- What is open in a layout. -/
def openPieces (x : Layout) : List Piece := x.pieces.filter Piece.isOpen

@[simp] theorem openPieces_empty : openPieces empty = [] := rfl

@[simp] theorem openPieces_text (sql : String) : openPieces (text sql) = [] := rfl

@[simp] theorem openPieces_fail (fault : CompileFault) : openPieces (fail fault) = [] := rfl

@[simp] theorem openPieces_text_append (sql : String) (x : Layout) :
    openPieces (text sql ++ x) = openPieces x := rfl

theorem openPieces_append {x y : Layout} (sound : x.fault = none) :
    openPieces (x ++ y) = openPieces x ++ openPieces y := by
  rcases x with ⟨pieces, _ | fault⟩
  · exact List.filter_append ..
  · cases sound

@[simp] theorem openPieces_append_text (x : Layout) (sql : String) :
    openPieces (x ++ text sql) = openPieces x := by
  rcases x with ⟨pieces, _ | fault⟩
  · rw [openPieces_append rfl, openPieces_text, List.append_nil]
  · rfl

/-- Whether two layouts have the same open and fail alike. -/
structure Parallel (x y : Layout) : Prop where
  fault : x.fault = y.fault
  openPieces : openPieces x = openPieces y

namespace Parallel

variable {x y x' y' : Layout}

theorem refl (x : Layout) : Parallel x x := ⟨rfl, rfl⟩

theorem text (sql sql' : String) : Parallel (text sql) (text sql') := ⟨rfl, rfl⟩

theorem append (h : Parallel x y) (h' : Parallel x' y') : Parallel (x ++ x') (y ++ y') := by
  obtain ⟨faults, same⟩ := h
  rcases x with ⟨pieces, fault⟩
  rcases y with ⟨pieces', fault'⟩
  obtain rfl : fault = fault' := faults
  cases fault with
  | none =>
    refine ⟨h'.fault, ?_⟩
    rw [openPieces_append rfl, openPieces_append rfl, same, h'.openPieces]
  | some fault => exact ⟨rfl, same⟩

theorem separated_map {α : Type} (separator : String) (l : List α) {f g : α → Layout}
    (h : ∀ a, Parallel (f a) (g a)) :
    Parallel (separated separator (l.map f)) (separated separator (l.map g)) := by
  induction l with
  | nil => exact .refl _
  | cons a l ih =>
    cases l with
    | nil => exact h a
    | cons b l => exact ((h a).append (text _ _)).append ih

theorem optional {a b : Option Layout} {f g : Layout → Layout} (h : Option.Rel Parallel a b)
    (hfg : ∀ x y, Parallel x y → Parallel (f x) (g y)) : Parallel (optional a f) (optional b g) := by
  cases h with
  | none => exact .refl _
  | some same => exact hfg _ _ same

end Parallel

/-! ## Names -/

variable {d d' : Dialect} {frames : List Frame} {n : Node}

/-- A FROM element has a name in both dialects or in none. -/
theorem parallel_sourceName? (d d' : Dialect) (n : Node) :
    Option.Rel Parallel (sourceName? d n) (sourceName? d' n) := by
  unfold sourceName?
  split
  · split <;> exact .some (.text _ _)
  · split
    · exact .some (.text _ _)
    · exact .some (.refl _)
  · split
    · exact .some (.text _ _)
    · exact .some (.refl _)
  · exact .none

theorem parallel_sourceName (d d' : Dialect) (n : Node) :
    Parallel (sourceName d n) (sourceName d' n) :=
  .optional (parallel_sourceName? d d' n) fun _ _ same => same

theorem parallel_column (d d' : Dialect) (name : String) (source : Option Node) (isLiteral : Bool) :
    Parallel (column d name source isLiteral) (column d' name source isLiteral) := by
  have named : Option.Rel Parallel (source.bind (sourceName? d)) (source.bind (sourceName? d')) := by
    cases source with
    | none => exact .none
    | some source => exact parallel_sourceName? d d' source
  cases isLiteral with
  | true => exact .refl _
  | false =>
    exact .append (.optional named fun _ _ same => same.append (.refl _)) (.text _ _)

theorem parallel_labelName (d d' : Dialect) (n : Node) :
    Parallel (labelName d n) (labelName d' n) := by
  unfold labelName
  split
  · exact .text _ _
  · exact .refl _

theorem parallel_allColumns (d d' : Dialect) (n : Node) :
    Parallel (allColumns d n) (allColumns d' n) := by
  unfold allColumns
  split
  · have name := parallel_sourceName? d d' n
    generalize sourceName? d n = x at name ⊢
    generalize sourceName? d' n = y at name ⊢
    cases name with
    | none => exact .refl _
    | some same => exact same.append (.refl _)
  · exact .separated_map ", " _ fun _ => parallel_column ..

theorem parallel_textualLabel (d d' : Dialect) (frames : List Frame) (name : String) :
    Parallel (textualLabel d frames name) (textualLabel d' frames name) := by
  rw [textualLabel_eq, textualLabel_eq]
  have each (c : Node) : Option.Rel Parallel (named? d name c) (named? d' name c) := by
    unfold named?
    split
    · split
      · exact .some (.text _ _)
      · exact .none
    · split
      · exact .some (parallel_column ..)
      · exact .none
    · exact .none
  induction ((frames.head?.map Frame.columns).getD []) with
  | nil => exact .refl _
  | cons c columns ih =>
    have first := each c
    rw [List.findSome?_cons, List.findSome?_cons]
    generalize named? d name c = x at first ⊢
    generalize named? d' name c = y at first ⊢
    cases first with
    | none => exact ih
    | some same => exact same

theorem openPieces_append_eq_nil {x y : Layout} (hx : openPieces x = []) (hy : openPieces y = []) :
    openPieces (x ++ y) = [] := by
  rcases x with ⟨pieces, _ | fault⟩
  · rw [openPieces_append rfl, hx, hy, List.append_nil]
  · exact hx

@[simp] theorem openPieces_identifiers (d : Dialect) (idents : List String) :
    openPieces (identifiers d idents) = [] := by
  unfold identifiers
  induction idents with
  | nil => rfl
  | cons ident idents ih =>
    cases idents with
    | nil => rfl
    | cons next idents => exact openPieces_append_eq_nil rfl ih

@[simp] theorem openPieces_checkReturning (d : Dialect) (returning : List Node) :
    openPieces (checkReturning d returning) = [] := by
  unfold checkReturning
  split <;> rfl

/-! ## Items -/

namespace Rendering

/-- A rendering in the same place, but inside no operator. -/
def weakened (r : Rendering) : Rendering :=
  match r.position with
  | .expression _ => { r with position := .expression 0 }
  | _ => r

@[simp] theorem weakened_expression (outer : Nat) (frames : List Frame) (n : Node) :
    weakened ⟨.expression outer, frames, n⟩ = ⟨.expression 0, frames, n⟩ := rfl

end Rendering

namespace Item

open Rendering (weakened)

/-- What an item leaves open: pieces of its own, or the part that it is. -/
def slots : Item → List (Piece ⊕ Rendering)
  | own x => x.openPieces.map .inl
  | operator _ => []
  | part r => [.inr r]

/-- What an item leaves open, whatever the strength of the operator around it. -/
def holes (item : Item) : List (Piece ⊕ Rendering) := item.slots.map (Sum.map id weakened)

/-- What some items leave open. -/
def allHoles (items : List Item) : List (Piece ⊕ Rendering) := items.flatMap holes

variable {items items' : List Item}

@[simp] theorem allHoles_nil : allHoles [] = [] := rfl

@[simp] theorem allHoles_cons (item : Item) :
    allHoles (item :: items) = item.holes ++ allHoles items := rfl

@[simp] theorem allHoles_append : allHoles (items ++ items') = allHoles items ++ allHoles items' :=
  List.flatMap_append

@[simp] theorem holes_own (x : Layout) : (own x).holes = x.openPieces.map .inl := List.map_map

@[simp] theorem holes_operator (sql : String) : (operator sql).holes = [] := rfl

@[simp] theorem holes_part (r : Rendering) : (part r).holes = [.inr r.weakened] := rfl

@[simp] theorem allHoles_enclosed : allHoles (enclosed items) = allHoles items := by
  simp [enclosed]

@[simp] theorem allHoles_enclosedIf (needed : Bool) :
    allHoles (enclosedIf needed items) = allHoles items := by
  cases needed with
  | false => rfl
  | true => exact allHoles_enclosed

@[simp] theorem allHoles_joined (separator : String) (groups : List (List Item)) :
    allHoles (joined separator groups) = groups.flatMap allHoles := by
  induction groups with
  | nil => rfl
  | cons group groups ih =>
    cases groups with
    | nil => simp [joined]
    | cons next groups =>
      show allHoles (group ++ own (text separator) :: joined separator (next :: groups)) = _
      rw [allHoles_append, allHoles_cons, ih]
      rfl

@[simp] theorem allHoles_clause (keyword : String) (parts : List Rendering) :
    allHoles (clause keyword parts) = parts.map fun r => .inr r.weakened := by
  unfold clause
  split
  · next none => simp [List.isEmpty_iff.1 none]
  · rw [allHoles_cons, allHoles_joined, List.flatMap_map]
    exact List.flatMap_pure_eq_map _ _

end Item

namespace Rendering

open Item

theorem allHoles_pagingItems {filler filler' : Option String}
    (paging : d.paging = .limitOffset filler) (paging' : d'.paging = .limitOffset filler')
    (limit offset : Option Node) :
    allHoles (pagingItems d frames limit offset) = allHoles (pagingItems d' frames limit offset) := by
  have nothing (filler : Option String) :
      openPieces (optional filler fun n => text (" LIMIT " ++ n)) = [] := by
    cases filler <;> rfl
  unfold pagingItems
  rw [paging, paging']
  cases limit with
  | some limit => simp
  | none =>
    dsimp only
    split <;> simp [nothing]

theorem allHoles_queryItems {filler filler' : Option String}
    (paging : d.paging = .limitOffset filler) (paging' : d'.paging = .limitOffset filler')
    (s : Select Node) : allHoles (queryItems d frames s) = allHoles (queryItems d' frames s) := by
  unfold queryItems
  split
  · rfl
  · split
    · rfl
    · simp only [allHoles_cons, allHoles_append, allHoles_pagingItems paging paging']

theorem allHoles_statementItems {filler filler' : Option String}
    (paging : d.paging = .limitOffset filler) (paging' : d'.paging = .limitOffset filler') :
    allHoles (statementItems d frames n) = allHoles (statementItems d' frames n) := by
  unfold statementItems
  split
  · exact allHoles_queryItems paging paging' _
  · rfl
  · rfl
  · next target values source returning _ =>
    cases source with
    | some source => simp
    | none =>
      dsimp only
      split <;> simp
  · next target values criteria returning _ =>
    have check : openPieces (if values.isEmpty then fail .noAssignments else empty) = [] := by
      split <;> rfl
    have start (d : Dialect) : openPieces ((if values.isEmpty then fail .noAssignments else empty) ++
        checkReturning d returning) = [] :=
      openPieces_append_eq_nil check (openPieces_checkReturning d returning)
    simp only [allHoles_cons, allHoles_append, allHoles_joined, List.flatMap_map, holes_own,
      openPieces_append_text, start, identifier, openPieces_text]
  · simp
  · rfl

theorem allHoles_aliasedItems : allHoles (aliasedItems d n) = allHoles (aliasedItems d' n) := by
  unfold aliasedItems
  split
  · simp [(parallel_sourceName d d' n).openPieces]
  · rfl

theorem allHoles_fromElementItems :
    allHoles (fromElementItems d frames n) = allHoles (fromElementItems d' frames n) := by
  have name := (parallel_sourceName d d' n).openPieces
  unfold fromElementItems
  split
  · simp [name]
  · simp [name, @allHoles_aliasedItems d d']
  · simp [name, @allHoles_aliasedItems d d']
  all_goals rfl

theorem allHoles_columnItemItems :
    allHoles (columnItemItems d frames n) = allHoles (columnItemItems d' frames n) := by
  unfold columnItemItems
  split
  · simp [(parallel_labelName d d' n).openPieces]
  · split
    · simp [(parallel_allColumns d d' n).openPieces]
    · rfl

theorem allHoles_labelReferenceItems :
    allHoles (labelReferenceItems d frames n) = allHoles (labelReferenceItems d' frames n) := by
  unfold labelReferenceItems
  split
  · split
    · simp [(parallel_labelName d d' n).openPieces]
    · rfl
  · rfl
  · rfl

end Rendering

end Layout

/-- Whether a dialect writes the parts of a tree in the order of LIMIT and OFFSET and of BETWEEN, for
which it calls no function. -/
structure Dialect.KeepsOrder (d : Dialect) : Prop where
  paging : ∃ filler, d.paging = .limitOffset filler
  between : ∀ name, d.spelling .between ≠ some (.call name)
  notBetween : ∀ name, d.spelling .notBetween ≠ some (.call name)

theorem Dialect.keepsOrder_of_mem {d : Dialect} (h : d ∈ [postgres, sqlite, mysql]) :
    d.KeepsOrder := by
  simp only [List.mem_cons, List.not_mem_nil, or_false] at h
  obtain rfl | rfl | rfl := h <;> exact ⟨⟨_, rfl⟩, nofun, nofun⟩

namespace Layout.Rendering

open Item

variable {d d' : Dialect} {frames : List Frame} {outer outer' : Nat} {n : Node}

theorem bounds?_of_call (h : d.KeepsOrder) {op : BinaryOp} {name : String}
    (call : d.spelling op = some (.call name)) (right : Node) : bounds? op right = none := by
  unfold bounds?
  split
  · exact absurd call (h.between name)
  · exact absurd call (h.notBetween name)
  · rfl

/-- However an operator is spelled, its operands come in the same order. -/
theorem allHoles_of_binary (h : d.KeepsOrder) {left right : Node} {op : BinaryOp}
    (kind : n.kind = .binary left op right)
    (sound : (layouts d (expressionItems d frames outer n)).fault = none) :
    allHoles (expressionItems d frames outer n) = allHoles (operationItems frames left op "" right) := by
  have between (symbol : String) : allHoles (operationItems frames left op symbol right) =
      allHoles (operationItems frames left op "" right) := by
    simp [operationItems]
  unfold expressionItems at sound ⊢
  rw [kind] at sound ⊢
  dsimp only at sound ⊢
  cases spelled : d.spelling op with
  | none =>
    rw [spelled] at sound
    cases sound
  | some spelling =>
    cases spelling with
    | call name =>
      rw [operationItems, bounds?_of_call h spelled]
      simp
    | negated symbol => simp [between symbol]
    | between symbol => simp [between symbol]

/-- An expression leaves the same open in two dialects, inside operators of whatever strength. -/
theorem allHoles_expressionItems (h : d.KeepsOrder) (h' : d'.KeepsOrder)
    (sound : (layouts d (expressionItems d frames outer n)).fault = none)
    (sound' : (layouts d' (expressionItems d' frames outer' n)).fault = none) :
    allHoles (expressionItems d frames outer n) = allHoles (expressionItems d' frames outer' n) := by
  cases kind : n.kind with
  | binary left op right =>
    rw [allHoles_of_binary h kind sound, allHoles_of_binary h' kind sound']
  | clauseList op clauses =>
    unfold expressionItems
    rw [kind]
    obtain _ | ⟨first, _ | ⟨second, rest⟩⟩ := clauses <;> simp
  | cast element type =>
    unfold expressionItems at sound sound' ⊢
    rw [kind] at sound sound' ⊢
    dsimp only at sound sound' ⊢
    cases typed : d.typeName type with
    | none =>
      rw [typed] at sound
      cases sound
    | some name =>
      cases typed' : d'.typeName type with
      | none =>
        rw [typed'] at sound'
        cases sound'
      | some name' => simp
  | tableValued source =>
    unfold expressionItems
    rw [kind]
    have name := parallel_sourceName? d d' source
    dsimp only
    generalize sourceName? d source = x at name ⊢
    generalize sourceName? d' source = y at name ⊢
    cases name with
    | none => rfl
    | some same => simp [same.openPieces]
  | column name source isLiteral =>
    simp [expressionItems, kind, (parallel_column d d' name source isLiteral).openPieces]
  | textualLabelReference name =>
    simp [expressionItems, kind, (parallel_textualLabel d d' frames name).openPieces]
  | _ => simp [expressionItems, kind]

/-- What a rendering leaves open is the same in two dialects. -/
theorem allHoles_items (h : d.KeepsOrder) (h' : d'.KeepsOrder) {r r' : Rendering}
    (same : r.weakened = r'.weakened) (sound : (r.layout d).fault = none)
    (sound' : (r'.layout d').fault = none) : allHoles (r.items d) = allHoles (r'.items d') := by
  rw [← layouts_items] at sound sound'
  obtain ⟨filler, paging⟩ := h.paging
  obtain ⟨filler', paging'⟩ := h'.paging
  rcases r with ⟨position, frames, n⟩
  rcases r' with ⟨position', frames', n'⟩
  cases position <;> cases position' <;> cases same
  case statement => exact allHoles_statementItems paging paging'
  case fromElement => exact allHoles_fromElementItems
  case columnItem => exact allHoles_columnItemItems
  case labelReference => exact allHoles_labelReferenceItems
  case expression => exact allHoles_expressionItems h h' sound sound'

/-! ## Layouts -/

theorem flatMap_eq_of_forall₂ {α β : Type} {R : α → α → Prop} {xs ys : List α} {f g : α → List β}
    (h : List.Forall₂ R xs ys) (hfg : ∀ x ∈ xs, ∀ y ∈ ys, R x y → f x = g y) :
    xs.flatMap f = ys.flatMap g := by
  induction h with
  | nil => rfl
  | cons first _ ih =>
    rw [List.flatMap_cons, List.flatMap_cons, hfg _ List.mem_cons_self _ List.mem_cons_self first,
      ih fun x hx y hy => hfg x (List.mem_cons_of_mem _ hx) y (List.mem_cons_of_mem _ hy)]

theorem mem_slots {items : List Item} {r : Rendering} (h : .inr r ∈ items.flatMap slots) :
    .part r ∈ items := by
  obtain ⟨item, mem, h⟩ := List.mem_flatMap.1 h
  cases item with
  | own x => simp [slots] at h
  | operator sql => simp [slots] at h
  | part r' =>
    obtain rfl := Sum.inr.inj (List.mem_singleton.1 h)
    exact mem

/-- What is open in a layout is what its items leave open, with what is open in the parts. -/
theorem openPieces_layouts {items : List Item} (sound : (layouts d items).fault = none) :
    openPieces (layouts d items) = (items.flatMap slots).flatMap
      (Sum.elim (fun p => [p]) fun part => openPieces (part.layout d)) := by
  rw [openPieces, pieces_layouts sound, List.filter_flatMap, List.flatMap_assoc]
  refine List.flatMap_congr fun item _ => ?_
  cases item with
  | own x =>
    rw [slots, List.flatMap_map]
    exact (List.flatMap_singleton' _).symm
  | operator sql => rfl
  | part r => exact (List.append_nil _).symm

/-- A tree that is rendered in two dialects, in the same place but for the strength of the operator
around it, has the same open in both. -/
theorem openPieces_eq (h : d.KeepsOrder) (h' : d'.KeepsOrder) {r r' : Rendering}
    (same : r.weakened = r'.weakened) (sound : (r.layout d).fault = none)
    (sound' : (r'.layout d').fault = none) :
    openPieces (r.layout d) = openPieces (r'.layout d') := by
  induction r using induct d generalizing r' with
  | step r ih =>
    have holes := allHoles_items h h' same sound sound'
    have part_sound := layout_sound sound
    have part_sound' := layout_sound sound'
    rw [← layouts_items] at sound sound'
    rw [← layouts_items, ← layouts_items, openPieces_layouts sound, openPieces_layouts sound']
    have paired : List.Forall₂
        (fun slot slot' => Sum.map id weakened slot = Sum.map id weakened slot')
        ((r.items d).flatMap slots) ((r'.items d').flatMap slots) := by
      rw [← List.forall₂_map_right_iff, ← List.forall₂_map_left_iff, List.forall₂_eq_eq_eq,
        List.map_flatMap, List.map_flatMap]
      exact holes
    refine flatMap_eq_of_forall₂ paired fun slot hs slot' hs' same => ?_
    cases slot with
    | inl p =>
      cases slot' with
      | inl p' => exact congrArg (fun p => [p]) (Sum.inl.inj same)
      | inr part' => cases same
    | inr part =>
      cases slot' with
      | inl p' => cases same
      | inr part' =>
        have inside := mem_slots hs
        have inside' := mem_slots hs'
        exact ih part inside (Sum.inr.inj same) (part_sound _ inside) (part_sound' _ inside')

end Layout.Rendering

/-- A statement that is rendered in two dialects has the same open in both. -/
theorem Layout.openPieces_statement {d d' : Dialect} (h : d.KeepsOrder) (h' : d'.KeepsOrder)
    (frames : List Frame) (n : Node) (sound : (statement d frames n).fault = none)
    (sound' : (statement d' frames n).fault = none) :
    openPieces (statement d frames n) = openPieces (statement d' frames n) := by
  have same : Rendering.weakened ⟨.statement, frames, n⟩ = ⟨.statement, frames, n⟩ := rfl
  exact Rendering.openPieces_eq h h' (same.trans same.symm) sound sound'

end SqlAlgebra
