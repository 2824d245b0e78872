import SqlAlgebra.Proofs.Layout.Composition
import SqlAlgebra.Proofs.Template.MinusSigns
import SqlAlgebra.Proofs.Template.Percent

/-!
# What stands beside a minus sign

Apart from an operator that is a minus sign and from parameters, nothing that a rendering writes of
its own brings two minus signs together: a binary operator stands between spaces, and what follows a
part of a rendering starts with a character of its own.  So whether minus signs meet is decided inside
the parts.
-/

namespace SqlAlgebra

open Layout

namespace Layout.Rendering

/-- The pieces of a rendering, those of operators with a mark. -/
def markedPieces (d : Dialect) (r : Rendering) : List (Piece × Bool) :=
  (r.items d).attach.flatMap fun ⟨item, h⟩ =>
    match item, h with
    | .own x, _ => x.pieces.map (·, false)
    | .operator sql, _ => [(.text sql, true)]
    | .part r', _h => markedPieces d r'
termination_by r.weight
decreasing_by exact (below_of_mem_parts (mem_parts_of_mem_items _h)).weight_lt

end Layout.Rendering

namespace Layout.Item

def markedPieces (d : Dialect) : Item → List (Piece × Bool)
  | own x => x.pieces.map (·, false)
  | operator sql => [(.text sql, true)]
  | part r => r.markedPieces d

end Layout.Item

namespace Layout.Rendering

variable {d : Dialect} {r : Rendering}

theorem markedPieces_eq (r : Rendering) :
    r.markedPieces d = (r.items d).flatMap (Item.markedPieces d) := by
  have each : ∀ item ∈ (r.items d).attach, (match item.1, item.2 with
      | .own x, _ => x.pieces.map (·, false)
      | .operator sql, _ => [(Piece.text sql, true)]
      | .part r', _ => markedPieces d r') = item.1.markedPieces d := by
    rintro ⟨_ | _ | _, _⟩ _ <;> rfl
  rw [markedPieces, List.flatMap_congr each, List.flatMap_def, List.attach_map_val,
    ← List.flatMap_def]

theorem pieces_layouts {items : List Item} (sound : (Item.layouts d items).fault = none) :
    (Item.layouts d items).pieces = items.flatMap fun item => (item.layout d).pieces := by
  induction items with
  | nil => rfl
  | cons item items ih =>
    obtain ⟨first, rest⟩ := Contains.of_append (item.layout d) (Item.layouts d items)
    rw [Item.layouts_cons] at sound ⊢
    rw [List.flatMap_cons, ← ih (rest sound).1]
    have front := (first sound).1
    generalize item.layout d = x at front
    rcases x with ⟨pieces, _ | fault⟩
    · rfl
    · cases front

/-- The items of a rendering that does not fail do not fail. -/
theorem layout_sound (sound : (r.layout d).fault = none) :
    ∀ item ∈ r.items d, (item.layout d).fault = none := by
  intro item h
  rw [← layouts_items] at sound
  exact (Item.contains_of_mem h sound).1

/-- Without the marks, the pieces are those of the layout. -/
theorem map_fst_markedPieces (sound : (r.layout d).fault = none) :
    (r.markedPieces d).map Prod.fst = (r.layout d).pieces := by
  induction r using induct d with
  | step r ih =>
    have each := layout_sound sound
    rw [markedPieces_eq, List.map_flatMap]
    rw [← layouts_items] at sound ⊢
    rw [pieces_layouts sound]
    refine List.flatMap_congr fun item h => ?_
    cases item with
    | own x =>
      show (x.pieces.map (·, false)).map Prod.fst = x.pieces
      rw [List.map_map]
      exact List.map_id' _
    | operator sql => rfl
    | part r' => exact ih r' h (each _ h)

end Layout.Rendering

/-! ## What may stand beside a minus sign -/

namespace Layout

/-- Whether a layout has no parameters. -/
def IsPlain (x : Layout) : Prop := ∀ piece ∈ x.pieces, ∀ n b, piece ≠ .bind n b

/-- Whether a layout that does not fail has text in it that is not empty. -/
def HasText (x : Layout) : Prop := x.fault = none → ∃ sql, .text sql ∈ x.pieces ∧ sql ≠ ""

/-- Whether the text of an operator has other characters at its ends than minus signs, and no two of
these inside. -/
def IsSpaced (d : Dialect) (sql : String) : Prop :=
  let cs := marked true (Template.escaped d sql)
  cs ≠ [] ∧ ¬StartsWithMinus cs ∧ cs.getLast? ≠ some minusSign ∧ NoComment cs

namespace Item

/-- Whether what some items write does not start with a minus sign. -/
def Quiet (d : Dialect) : List Item → Prop
  | [] => True
  | own x :: rest => IsPlain x ∧ (HasText x ∨ Quiet d rest)
  | operator sql :: _ => IsSpaced d sql
  | part _ :: _ => False

/-- Whether no minus signs meet between some items: nothing that follows a part starts with one, and
no operator ends with one. -/
def Apart (d : Dialect) : List Item → Prop
  | [] => True
  | own x :: rest => Quiet d (own x :: rest) ∧ Apart d rest
  | operator sql :: rest => IsSpaced d sql ∧ Apart d rest
  | part _ :: rest => Quiet d rest ∧ Apart d rest

variable {d : Dialect} {inline : Bool} {items items' : List Item} {cs : List (Char × Bool)}

theorem notMem_of_isPlain {x : Layout} (plain : IsPlain x)
    (h : BecomeMarked d inline ((own x).markedPieces d) cs) : minusSign ∉ cs := by
  refine h.notMem fun piece hp => ?_
  obtain ⟨p, mem, rfl⟩ := List.mem_map.1 hp
  exact ⟨rfl, plain p mem⟩

theorem ne_nil_of_hasText {x : Layout} (text : HasText x) (sound : x.fault = none)
    (h : BecomeMarked d inline ((own x).markedPieces d) cs) : cs ≠ [] := by
  obtain ⟨sql, mem, some⟩ := text sound
  obtain ⟨before, after, pieces⟩ := List.append_of_mem mem
  rw [markedPieces, pieces, List.map_append, List.map_cons] at h
  obtain ⟨front, back, rfl, -, rest⟩ := becomeMarked_append.1 h
  obtain _ | ⟨first, -⟩ := rest
  cases first with
  | text =>
    intro empty
    have middle := (List.append_eq_nil_iff.1 (List.append_eq_nil_iff.1 empty).2).1
    rw [marked, List.map_eq_nil_iff, String.toList_eq_nil_iff] at middle
    exact Template.escaped_ne_empty some middle

theorem eq_of_operator {sql : String}
    (h : BecomeMarked d inline ((operator sql).markedPieces d) cs) :
    cs = marked true (Template.escaped d sql) := by
  obtain _ | ⟨first, ⟨⟩⟩ := h
  cases first with
  | text => exact List.append_nil _

theorem Quiet.not_startsWithMinus (quiet : Quiet d items)
    (sound : ∀ item ∈ items, (item.layout d).fault = none)
    (h : BecomeMarked d inline (items.flatMap (markedPieces d)) cs) : ¬StartsWithMinus cs := by
  induction items generalizing cs with
  | nil =>
    cases h
    nofun
  | cons item items ih =>
    rw [List.flatMap_cons] at h
    obtain ⟨front, back, rfl, first, rest⟩ := becomeMarked_append.1 h
    rw [startsWithMinus_append]
    cases item with
    | own x =>
      obtain ⟨plain, starts⟩ := quiet
      rintro (sign | ⟨empty, sign⟩)
      · exact not_startsWithMinus_of_notMem (notMem_of_isPlain plain first) sign
      · obtain text | quiet := starts
        · exact ne_nil_of_hasText text (sound _ List.mem_cons_self) first empty
        · exact ih quiet (fun item h => sound item (List.mem_cons_of_mem _ h)) rest sign
    | operator sql =>
      obtain ⟨some, other, -, -⟩ := quiet
      rw [eq_of_operator first]
      rintro (sign | ⟨empty, -⟩)
      · exact other sign
      · exact some empty
    | part r => exact quiet.elim

/-- Items between which no minus signs meet have a comment in them only if a part of them has. -/
theorem Apart.noComment_iff {P : Rendering → Prop} (apart : Apart d items)
    (sound : ∀ item ∈ items, (item.layout d).fault = none)
    (parts : ∀ r, part r ∈ items → ∀ cs, BecomeMarked d inline (r.markedPieces d) cs →
      (NoComment cs ↔ P r))
    (h : BecomeMarked d inline (items.flatMap (markedPieces d)) cs) :
    NoComment cs ↔ ∀ r, part r ∈ items → P r := by
  induction items generalizing cs with
  | nil =>
    cases h
    exact iff_of_true List.isChain_nil nofun
  | cons item items ih =>
    rw [List.flatMap_cons] at h
    obtain ⟨front, back, rfl, first, rest⟩ := becomeMarked_append.1 h
    have later := ih (by cases item <;> exact apart.2)
      (fun item h => sound item (List.mem_cons_of_mem _ h))
      (fun r h => parts r (List.mem_cons_of_mem _ h)) rest
    cases item with
    | own x =>
      have unmarked := notMem_of_isPlain apart.1.1 first
      rw [noComment_append_of_last (getLast?_ne_of_notMem unmarked), later]
      simp [noComment_of_notMem unmarked]
    | operator sql =>
      obtain ⟨-, -, last, inside⟩ := apart.1
      obtain rfl := eq_of_operator first
      rw [noComment_append_of_last last, later]
      simp [inside]
    | part r =>
      have quiet := apart.1.not_startsWithMinus
        (fun item h => sound item (List.mem_cons_of_mem _ h)) rest
      rw [noComment_append_of_not_starts quiet, later, parts r List.mem_cons_self front first]
      simp only [List.mem_cons, part.injEq, forall_eq_or_imp]

theorem Apart.quiet_or_part (h : Apart d items) :
    Quiet d items ∨ ∃ r rest, items = part r :: rest := by
  obtain _ | ⟨item, rest⟩ := items
  · exact .inl trivial
  · cases item with
    | own | operator => exact .inl h.1
    | part r => exact .inr ⟨r, rest, rfl⟩

/-- What such items write starts with a minus sign only if a part that comes first does. -/
theorem Apart.startsWithMinus_iff {P : Rendering → Prop} (apart : Apart d items)
    (sound : ∀ item ∈ items, (item.layout d).fault = none)
    (parts : ∀ r, part r ∈ items → ∀ cs, BecomeMarked d inline (r.markedPieces d) cs →
      (StartsWithMinus cs ↔ P r))
    (h : BecomeMarked d inline (items.flatMap (markedPieces d)) cs) :
    StartsWithMinus cs ↔ ∃ r rest, items = part r :: rest ∧ P r := by
  obtain quiet | ⟨r, rest, rfl⟩ := apart.quiet_or_part
  · refine iff_of_false (quiet.not_startsWithMinus sound h) ?_
    rintro ⟨r, rest, rfl, -⟩
    exact quiet
  · rw [List.flatMap_cons] at h
    obtain ⟨front, back, rfl, first, others⟩ := becomeMarked_append.1 h
    have quiet := apart.1.not_startsWithMinus
      (fun item h => sound item (List.mem_cons_of_mem _ h)) others
    rw [startsWithMinus_append, parts r List.mem_cons_self front first]
    simp [quiet]

end Item

/-! ## Every rendering keeps minus signs apart -/

section

variable {x y : Layout} {d : Dialect}

@[simp] theorem isPlain_empty : IsPlain empty := nofun

@[simp] theorem isPlain_fail (fault : CompileFault) : IsPlain (fail fault) := nofun

@[simp] theorem isPlain_text (sql : String) : IsPlain (text sql) := by
  rintro _ (_ | ⟨_, ⟨⟩⟩)
  nofun

@[simp] theorem isPlain_anonymous (n : Node) : IsPlain (piece (.anonymous n)) := by
  rintro _ (_ | ⟨_, ⟨⟩⟩)
  nofun

theorem IsPlain.append (hx : IsPlain x) (hy : IsPlain y) : IsPlain (x ++ y) := by
  rcases x with ⟨pieces, _ | fault⟩
  · intro piece mem
    obtain mem | mem := List.mem_append.1 mem
    · exact hx piece mem
    · exact hy piece mem
  · exact hx

theorem IsPlain.separated {xs : List Layout} (h : ∀ x ∈ xs, IsPlain x) (separator : String) :
    IsPlain (Layout.separated separator xs) := by
  induction xs with
  | nil => exact isPlain_empty
  | cons x xs ih =>
    obtain ⟨first, rest⟩ := List.forall_mem_cons.1 h
    cases xs with
    | nil => exact first
    | cons => exact (first.append (isPlain_text _)).append (ih rest)

@[simp] theorem isPlain_identifier (ident : String) : IsPlain (identifier d ident) := isPlain_text _

theorem isPlain_sourceName? {n : Node} (h : sourceName? d n = some x) : IsPlain x := by
  unfold sourceName? at h
  split at h
  · split at h <;> cases h <;> exact isPlain_text _
  · split at h <;> cases h
    · exact isPlain_text _
    · exact isPlain_anonymous n
  · split at h <;> cases h
    · exact isPlain_text _
    · exact isPlain_anonymous n
  · cases h

@[simp] theorem isPlain_sourceName (n : Node) : IsPlain (sourceName d n) := by
  unfold sourceName
  cases h : sourceName? d n with
  | none => exact isPlain_empty
  | some x => exact isPlain_sourceName? h

@[simp] theorem isPlain_column (name : String) (source : Option Node) (isLiteral : Bool) :
    IsPlain (column d name source isLiteral) := by
  unfold column
  split
  · exact isPlain_text name
  · refine .append ?_ (isPlain_identifier name)
    cases h : source.bind (sourceName? d) with
    | none => exact isPlain_empty
    | some x =>
      obtain ⟨n, -, h⟩ := Option.bind_eq_some_iff.1 h
      exact (isPlain_sourceName? h).append (isPlain_text _)

@[simp] theorem isPlain_labelName (n : Node) : IsPlain (labelName d n) := by
  unfold labelName
  split
  · exact isPlain_identifier _
  · exact isPlain_anonymous n

@[simp] theorem isPlain_allColumns (n : Node) : IsPlain (allColumns d n) := by
  unfold allColumns
  split
  · split
    · next name h => exact (isPlain_sourceName? h).append (isPlain_text _)
    · exact isPlain_text _
  · refine .separated (fun x hx => ?_) _
    obtain ⟨c, -, rfl⟩ := List.mem_map.1 hx
    exact isPlain_column _ _ _

@[simp] theorem isPlain_orderingSuffix (isDescending : Bool) (nulls : Option NullsOrder) :
    IsPlain (orderingSuffix isDescending nulls) := by
  refine .append ?_ ?_
  · cases isDescending <;> simp
  · cases nulls <;> simp [Layout.optional]

@[simp] theorem isPlain_textualLabel (frames : List Frame) (name : String) :
    IsPlain (textualLabel d frames name) := by
  unfold textualLabel
  dsimp only
  generalize hf : List.findSome? _ _ = found
  cases found with
  | none => exact isPlain_fail _
  | some x =>
    obtain ⟨c, -, found⟩ := List.exists_of_findSome?_eq_some hf
    split at found
    · split at found <;> cases found
      exact isPlain_identifier _
    · split at found <;> cases found
      exact isPlain_column _ _ _
    · cases found

theorem hasText_text {sql : String} (some : sql ≠ "") : HasText (text sql) :=
  fun _ => ⟨sql, List.mem_cons_self, some⟩

theorem HasText.left (h : HasText x) (y : Layout) : HasText (x ++ y) := by
  intro sound
  obtain ⟨front, inside⟩ := (Contains.of_append x y).1 sound
  obtain ⟨sql, mem, some⟩ := h front
  exact ⟨sql, inside.subset mem, some⟩

theorem HasText.right (h : HasText y) (x : Layout) : HasText (x ++ y) := by
  intro sound
  obtain ⟨back, inside⟩ := (Contains.of_append x y).2 sound
  obtain ⟨sql, mem, some⟩ := h back
  exact ⟨sql, inside.subset mem, some⟩

end

namespace Item

variable {d : Dialect} {items items' : List Item} {x : Layout} {sql keyword separator : String}

/-- Whether items keep minus signs apart also where a part comes before them. -/
def Follows (d : Dialect) (items : List Item) : Prop := Quiet d items ∧ Apart d items

theorem follows_nil : Follows d [] := ⟨trivial, trivial⟩

theorem apart_single (r : Rendering) : Apart d [part r] := follows_nil

theorem apart_part (r : Rendering) (rest : Follows d items) : Apart d (part r :: items) := rest

theorem follows_own (starts : HasText x) (plain : IsPlain x) (rest : Apart d items) :
    Follows d (own x :: items) := ⟨⟨plain, .inl starts⟩, ⟨plain, .inl starts⟩, rest⟩

theorem follows_text (some : sql ≠ "") (rest : Apart d items) :
    Follows d (own (text sql) :: items) :=
  follows_own (hasText_text some) (isPlain_text sql) rest

/-- Text that may be empty, where what comes after it could stand in its place. -/
theorem follows_plain (plain : IsPlain x) (rest : Follows d items) : Follows d (own x :: items) :=
  ⟨⟨plain, .inr rest.1⟩, ⟨plain, .inr rest.1⟩, rest.2⟩

theorem follows_single (plain : IsPlain x) : Follows d [own x] := follows_plain plain follows_nil

theorem follows_operator (spaced : IsSpaced d sql) (rest : Apart d items) :
    Follows d (operator sql :: items) := ⟨spaced, spaced, rest⟩

theorem Quiet.append (h : Quiet d items) (h' : Quiet d items') : Quiet d (items ++ items') := by
  induction items with
  | nil => exact h'
  | cons item items ih =>
    cases item with
    | own x => exact ⟨h.1, h.2.imp_right ih⟩
    | operator sql => exact h
    | part r => exact h.elim

theorem Apart.append (h : Apart d items) (h' : Follows d items') : Apart d (items ++ items') := by
  induction items with
  | nil => exact h'.2
  | cons item items ih =>
    cases item with
    | own x => exact ⟨Quiet.append h.1 h'.1, ih h.2⟩
    | operator sql => exact ⟨h.1, ih h.2⟩
    | part r => exact ⟨h.1.append h'.1, ih h.2⟩

theorem Follows.append (h : Follows d items) (h' : Follows d items') :
    Follows d (items ++ items') := ⟨h.1.append h'.1, h.2.append h'⟩

theorem quiet_enclosed (items : List Item) : Quiet d (enclosed items) :=
  ⟨isPlain_text _, .inl (hasText_text (by decide))⟩

theorem Apart.enclosed (h : Apart d items) : Follows d (enclosed items) :=
  follows_text (by decide) (h.append (follows_single (isPlain_text _)))

theorem Apart.enclosedIf (h : Apart d items) (needed : Bool) :
    Apart d (enclosedIf needed items) := by
  cases needed with
  | false => exact h
  | true => exact h.enclosed.2

theorem Apart.joined {groups : List (List Item)} (some : separator ≠ "")
    (h : ∀ group ∈ groups, Apart d group) : Apart d (joined separator groups) := by
  induction groups with
  | nil => trivial
  | cons group groups ih =>
    obtain ⟨first, rest⟩ := List.forall_mem_cons.1 h
    cases groups with
    | nil => exact first
    | cons => exact first.append (follows_text some (ih rest))

theorem apart_joined_parts {α : Type} (some : separator ≠ "") (xs : List α) (f : α → Rendering) :
    Apart d (joined separator (xs.map fun x => [part (f x)])) := by
  refine .joined some fun group h => ?_
  obtain ⟨x, -, rfl⟩ := List.mem_map.1 h
  exact apart_single (f x)

theorem follows_clause (some : keyword ≠ "") (parts : List Rendering) :
    Follows d (clause keyword parts) := by
  unfold clause
  split
  · exact follows_nil
  · exact follows_text some (apart_joined_parts (by decide) _ _)

end Item

namespace Rendering

open Item

variable {d : Dialect} {frames : List Frame} {n : Node}

theorem follows_pagingItems (limit offset : Option Node) :
    Follows d (pagingItems d frames limit offset) := by
  unfold pagingItems
  split
  · next filler h =>
    refine .append ?_ (follows_clause (by decide) _)
    cases limit with
    | some limit => exact follows_text (by decide) (apart_single _)
    | none =>
      dsimp only
      split
      · refine follows_single ?_
        cases filler <;> simp [Layout.optional]
      · exact follows_nil
  · refine .append ?_ ?_
    · cases offset with
      | none => exact follows_nil
      | some offset =>
        exact follows_text (by decide) (apart_part _ (follows_text (by decide) trivial))
    · cases limit with
      | none => exact follows_nil
      | some limit =>
        exact follows_text (by decide) (apart_part _ (follows_text (by decide) trivial))

theorem apart_queryItems (s : Select Node) : Apart d (queryItems d frames s) := by
  unfold queryItems
  split
  · exact (follows_single (isPlain_fail _)).2
  · split
    · exact (follows_single (isPlain_fail _)).2
    · refine (follows_own ?_ ?_ ?_).2
      · exact (hasText_text (by decide)).left _
      · refine (isPlain_text _).append ?_
        split <;> simp
      · refine (apart_joined_parts (by decide) _ _).append ?_
        exact .append (follows_clause (by decide) _) (.append (follows_clause (by decide) _)
          (.append (follows_clause (by decide) _) (.append (follows_clause (by decide) _)
            (.append (follows_clause (by decide) _) (follows_pagingItems _ _)))))

theorem spaced_ne_empty (sql : String) : " " ++ sql ++ " " ≠ "" := by
  simp [String.append_eq_empty_iff]

theorem isPlain_identifiers (idents : List String) : IsPlain (identifiers d idents) := by
  refine .separated (fun x hx => ?_) _
  obtain ⟨ident, -, rfl⟩ := List.mem_map.1 hx
  exact isPlain_identifier ident

theorem isPlain_checkReturning (returning : List Node) : IsPlain (checkReturning d returning) := by
  unfold checkReturning
  split <;> simp

/-- A statement that starts with a check, which writes nothing, and a keyword. -/
theorem follows_checked (returning : List Node) {keyword : String} (some : keyword ≠ "")
    {items : List Item} (rest : Apart d items) :
    Follows d (.own (checkReturning d returning ++ text keyword) :: items) :=
  follows_own ((hasText_text some).right _)
    ((isPlain_checkReturning returning).append (isPlain_text _)) rest

theorem apart_statementItems : Apart d (statementItems d frames n) := by
  unfold statementItems
  split
  · exact apart_queryItems _
  · next op selects _ =>
    refine .joined (spaced_ne_empty _) fun group h => ?_
    obtain ⟨c, -, rfl⟩ := List.mem_map.1 h
    exact (apart_single _).enclosedIf _
  · exact apart_single _
  · next target values source returning _ =>
    refine (follows_checked returning (by decide) (apart_part _ (.append ?_
      (follows_clause (by decide) _)))).2
    cases source with
    | some source =>
      refine follows_own ?_ ?_ (apart_single _)
      · exact ((hasText_text (by decide)).left _).left _
      · exact ((isPlain_text _).append (isPlain_identifiers _)).append (isPlain_text _)
    | none =>
      dsimp only
      split
      · exact follows_own ((hasText_text (by decide)).left _)
          ((isPlain_text _).append (isPlain_text _)) trivial
      · refine follows_own ?_ ?_ ((apart_joined_parts (by decide) _ _).append
          (follows_single (isPlain_text _)))
        · exact ((hasText_text (by decide)).left _).left _
        · exact ((isPlain_text _).append (isPlain_identifiers _)).append (isPlain_text _)
  · next target values criteria returning _ =>
    have check : IsPlain (if values.isEmpty then fail .noAssignments else empty) := by
      split <;> simp
    have assignments (inner : List Frame) : Apart d (joined ", " (values.map fun v =>
        [.own (identifier d v.1 ++ text " = "), .part ⟨.expression 0, inner, v.2⟩])) := by
      refine .joined (by decide) fun group h => ?_
      obtain ⟨v, -, rfl⟩ := List.mem_map.1 h
      exact (follows_own ((hasText_text (by decide)).right _)
        ((isPlain_identifier _).append (isPlain_text _)) (apart_single _)).2
    exact (follows_own ((hasText_text (by decide)).right _)
      ((check.append (isPlain_checkReturning returning)).append (isPlain_text _))
      (apart_part _ (follows_text (by decide) ((assignments _).append
        (.append (follows_clause (by decide) _) (follows_clause (by decide) _)))))).2
  · next target criteria returning _ =>
    exact (follows_checked returning (by decide) (apart_part _ (.append
      (follows_clause (by decide) _) (follows_clause (by decide) _)))).2
  · split
    · exact apart_single _
    · exact apart_single _

theorem apart_fromElementItems : Apart d (fromElementItems d frames n) := by
  have named : IsPlain (text " AS " ++ sourceName d n) :=
    (isPlain_text _).append (isPlain_sourceName n)
  have name : Follows d [.own (text " AS " ++ sourceName d n)] := follows_single named
  have aliased (element : Node) : Apart d (aliasedItems d element) := by
    unfold aliasedItems
    split
    · exact (follows_single (isPlain_sourceName _)).2
    · exact (apart_single _).enclosed.2
  unfold fromElementItems
  split
  · exact (follows_single (isPlain_sourceName n)).2
  · exact (aliased _).append name
  · exact (aliased _).append name
  · refine apart_part _ (follows_text (spaced_ne_empty _) (.append ?_ ?_))
    · exact (apart_single _).enclosedIf _
    · exact follows_text (by decide) (apart_single _)
  · exact (follows_single (isPlain_text _)).2
  · exact (apart_single _).enclosed.2
  · exact (apart_single _).enclosed.2
  · exact (apart_single _).enclosed.2
  · exact (follows_single (isPlain_fail _)).2

theorem apart_columnItemItems : Apart d (columnItemItems d frames n) := by
  unfold columnItemItems
  split
  · exact apart_part _ (follows_single ((isPlain_text _).append (isPlain_labelName n)))
  · split
    · exact (follows_single (isPlain_allColumns n)).2
    · exact apart_single _

theorem apart_labelReferenceItems : Apart d (labelReferenceItems d frames n) := by
  unfold labelReferenceItems
  split
  · split
    · exact (follows_single (isPlain_labelName n)).2
    · exact apart_single _
  · exact apart_part _ (follows_single (isPlain_orderingSuffix _ _))
  · exact apart_single _

end Rendering

end Layout

/-! ## Operators -/

/-- The texts that an operator is written with. -/
def Spelling.texts : Spelling → List String
  | .between symbol => [" " ++ symbol ++ " "]
  | .negated symbol => ["NOT ", " " ++ symbol ++ " "]
  | .call name => [name]

instance (d : Dialect) (sql : String) : Decidable (Layout.IsSpaced d sql) :=
  inferInstanceAs (Decidable (_ ∧ _))

theorem isSpaced_spelling : ∀ d ∈ Dialect.databases, ∀ op ∈ BinaryOp.all,
    ∀ spelling ∈ d.spelling op, ∀ sql ∈ spelling.texts, Layout.IsSpaced d sql := by
  decide +kernel

theorem isSpaced_unaryMark : ∀ d ∈ Dialect.databases, ∀ op ∈ UnaryOp.all, op ≠ .neg →
    Layout.IsSpaced d (Layout.unaryMark op) := by
  decide +kernel

namespace Layout.Rendering

open Item

variable {d : Dialect} {frames : List Frame} {outer : Nat} {n : Node}

theorem isSpaced_and (database : d ∈ Dialect.databases) : IsSpaced d " AND " := by
  revert d
  decide +kernel

theorem apart_operationItems (database : d ∈ Dialect.databases) {symbol : String}
    (spaced : IsSpaced d (" " ++ symbol ++ " ")) (left : Node) (op : BinaryOp) (right : Node) :
    Apart d (operationItems frames left op symbol right) := by
  refine apart_part _ (follows_operator spaced ?_)
  cases bounds? op right with
  | none => exact apart_single _
  | some bounds => exact apart_part _ (follows_operator (isSpaced_and database) (apart_single _))

/-- Expressions other than parameters and those with a minus sign keep minus signs apart. -/
theorem apart_expressionItems (database : d ∈ Dialect.databases) (param : ∀ b, n.kind ≠ .bind b)
    (minus : ∀ operand, n.kind ≠ .unary .neg operand) :
    Apart d (expressionItems d frames outer n) := by
  rcases n with ⟨i, kind, type, annotations, diagnostics⟩
  unfold expressionItems
  cases kind with
  | bind b => exact absurd rfl (param b)
  | unary op operand =>
    have other : op ≠ .neg := by
      rintro rfl
      exact minus operand rfl
    have spaced := isSpaced_unaryMark d database op (by cases op <;> decide) other
    exact Apart.enclosedIf (follows_operator spaced (apart_single _)).2 _
  | binary left op right =>
    dsimp only
    cases hs : d.spelling op with
    | none => exact (follows_single (isPlain_fail _)).2
    | some spelling =>
      have spaced := isSpaced_spelling d database op (BinaryOp.mem_all op) spelling hs
      cases spelling with
      | call name =>
        exact (follows_operator (spaced name List.mem_cons_self)
          (Apart.enclosed (apart_part _ (follows_text (by decide) (apart_single _)))).2).2
      | negated symbol =>
        have operation : Apart d (operationItems frames left op symbol right) :=
          apart_operationItems database (spaced _ (by simp [Spelling.texts])) left op right
        exact Apart.enclosedIf
          (follows_operator (spaced "NOT " List.mem_cons_self) operation.enclosed.2).2 _
      | between symbol =>
        exact (apart_operationItems database (spaced _ List.mem_cons_self) _ _ _).enclosedIf _
  | clauseList op clauses =>
    obtain _ | ⟨first, _ | ⟨second, rest⟩⟩ := clauses
    · exact (follows_single (isPlain_text _)).2
    · exact apart_single _
    · exact (apart_joined_parts (by cases op <;> decide) _ _).enclosedIf _
  | function name args =>
    exact (follows_plain (isPlain_text name) (apart_joined_parts (by decide) _ _).enclosed).2
  | cast element type =>
    dsimp only
    cases d.typeName type with
    | none => exact (follows_single (isPlain_fail _)).2
    | some name =>
      exact (follows_text (by decide)
        (Apart.enclosed (apart_part _ (follows_single (isPlain_text _)))).2).2
  | ordering element isDescending nulls =>
    exact apart_part _ (follows_single (isPlain_orderingSuffix _ _))
  | tableValued source =>
    dsimp only
    cases h : sourceName? d source with
    | none => exact (follows_single (isPlain_fail _)).2
    | some name => exact (follows_single (isPlain_sourceName? h)).2
  | grouping | scalarSubquery | select | compound | textualSelect =>
    exact (apart_single _).enclosed.2
  | label | labelReference => exact apart_single _
  | _ => exact (follows_single (by simp)).2

end Layout.Rendering

end SqlAlgebra
