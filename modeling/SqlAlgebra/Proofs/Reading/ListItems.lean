/-!
# The items of a list

The items of a list in SQL stand between its commas.  A comma in parentheses or in a quotation belongs
to an item.  Items that are put together with commas are read as these items again, and texts that are
not items are not.
-/

namespace SqlAlgebra.Reading

/-- A text one character at a time, with gaps where placeholders stand. -/
abbrev Characters := List (Option Char)

/-- What a character stands in: so many parentheses, and a quotation that begins with a quote. -/
structure Nesting where
  depth : Nat
  quote : Option Char
deriving DecidableEq

namespace Nesting

def top : Nesting := ⟨0, none⟩

/-- What the next character stands in.  A parenthesis that closes nothing is no part of any text. -/
def after? (nesting : Nesting) (c : Option Char) : Option Nesting :=
  match nesting.quote with
  | some quote => some (if c = some quote then { nesting with quote := none } else nesting)
  | none =>
    if c = some '(' then some { nesting with depth := nesting.depth + 1 }
    else if c = some ')' then
      if nesting.depth = 0 then none else some { nesting with depth := nesting.depth - 1 }
    else if c = some '\x27' ∨ c = some '"' ∨ c = some '\x60' then some { nesting with quote := c }
    else some nesting

end Nesting

/-- What stands between the commas of a list that goes on from inside its first cell. -/
def cells? (nesting : Nesting) : Characters → Option (List Characters)
  | [] => if nesting = .top then some [[]] else none
  | c :: rest =>
    if nesting = .top ∧ c = some ',' then (cells? .top rest).map ([] :: ·)
    else
      match nesting.after? c with
      | none => none
      | some next =>
        match cells? next rest with
        | some (cell :: others) => some ((c :: cell) :: others)
        | _ => none

/-- A cell without the blanks before it. -/
def trimmed (cell : Characters) : Characters := cell.dropWhile (· == some ' ')

/-- The items of a list.  None of them is missing. -/
def listItems? (text : Characters) : Option (List Characters) :=
  match cells? .top text with
  | none => none
  | some cells => if cells.any fun cell => (trimmed cell).isEmpty then none else some (cells.map trimmed)

/-- Whether a text is one item. -/
def IsItem (text : Characters) : Prop := listItems? text = some [text]

/-- Texts with commas between them. -/
def separated : List Characters → Characters
  | [] => []
  | [text] => text
  | text :: rest => text ++ some ',' :: some ' ' :: separated rest

variable {nesting : Nesting} {text cell : Characters} {cells others texts : List Characters}

/-- What is not a comma of the list belongs to its first cell. -/
theorem cells?_cons {c : Option Char} {rest : Characters} (h : cells? nesting (c :: rest) = some cells) :
    (nesting = .top ∧ c = some ',' ∧ ∃ others, cells? .top rest = some others ∧ cells = [] :: others) ∨
      ¬(nesting = .top ∧ c = some ',') ∧ ∃ next cell others, nesting.after? c = some next ∧
        cells? next rest = some (cell :: others) ∧ cells = (c :: cell) :: others := by
  rw [cells?] at h
  by_cases comma : nesting = .top ∧ c = some ','
  · rw [if_pos comma] at h
    obtain ⟨others, found, same⟩ := Option.map_eq_some_iff.1 h
    exact .inl ⟨comma.1, comma.2, others, found, same.symm⟩
  · rw [if_neg comma] at h
    refine .inr ⟨comma, ?_⟩
    cases after : nesting.after? c with
    | none =>
      rw [after] at h
      cases h
    | some next =>
      rw [after] at h
      dsimp only at h
      split at h
      · next cell others found =>
        cases h
        exact ⟨next, cell, others, rfl, found, rfl⟩
      · cases h

theorem cells?_of_after {c : Option Char} {rest : Characters} {next : Nesting}
    (comma : ¬(nesting = .top ∧ c = some ',')) (after : nesting.after? c = some next)
    (found : cells? next rest = some (cell :: others)) :
    cells? nesting (c :: rest) = some ((c :: cell) :: others) := by
  rw [cells?, if_neg comma, after]
  dsimp only
  rw [found]

theorem cells?_ne_nil (h : cells? nesting text = some cells) : cells ≠ [] := by
  cases text with
  | nil =>
    rw [cells?] at h
    split at h <;> cases h
    exact List.cons_ne_nil _ _
  | cons c rest =>
    obtain ⟨-, -, others, -, same⟩ | ⟨-, next, cell, others, -, -, same⟩ := cells?_cons h
    · exact same ▸ List.cons_ne_nil _ _
    · exact same ▸ List.cons_ne_nil _ _

/-- A single cell is all of the text. -/
theorem eq_of_cells?_singleton (h : cells? nesting text = some [cell]) : cell = text := by
  induction text generalizing nesting cell with
  | nil =>
    rw [cells?] at h
    split at h <;> cases h
    rfl
  | cons c rest ih =>
    obtain ⟨-, -, others, found, same⟩ | ⟨-, next, first, others, -, found, same⟩ := cells?_cons h
    · obtain ⟨-, none⟩ := List.cons.inj same
      exact absurd none.symm (cells?_ne_nil found)
    · obtain ⟨rfl, rfl⟩ := List.cons.inj same
      rw [ih found]

/-- After a text that is one cell, a comma begins the next one. -/
theorem cells?_append (h : cells? nesting text = some [text]) (rest : Characters) :
    cells? nesting (text ++ some ',' :: rest) = (cells? .top rest).map (text :: ·) := by
  induction text generalizing nesting with
  | nil =>
    have outside : nesting = .top := by
      rw [cells?] at h
      split at h
      · assumption
      · cases h
    rw [List.nil_append, cells?, if_pos ⟨outside, rfl⟩]
  | cons c text ih =>
    obtain ⟨-, -, others, found, same⟩ | ⟨comma, next, first, others, after, found, same⟩ :=
      cells?_cons h
    · obtain ⟨-, none⟩ := List.cons.inj same
      exact absurd none.symm (cells?_ne_nil found)
    · obtain ⟨first', rfl⟩ := List.cons.inj same
      obtain ⟨-, rfl⟩ := List.cons.inj first'
      rw [List.cons_append, cells?, if_neg comma, after]
      dsimp only
      rw [ih found]
      cases cells? .top rest with
      | none => rfl
      | some cells => rfl

/-- Every cell of a list is one cell when it stands alone. -/
theorem cells?_of_cells? (h : cells? nesting text = some (cell :: others)) :
    cells? nesting cell = some [cell] ∧ ∀ other ∈ others, cells? .top other = some [other] := by
  induction text generalizing nesting cell others with
  | nil =>
    rw [cells?] at h
    split at h <;> cases h
    next outside =>
      refine ⟨?_, fun other mem => nomatch mem⟩
      rw [cells?, if_pos outside]
  | cons c rest ih =>
    obtain ⟨outside, -, others', found, same⟩ | ⟨comma, next, first, others', after, found, same⟩ :=
      cells?_cons h
    · obtain ⟨rfl, rfl⟩ := List.cons.inj same
      refine ⟨?_, ?_⟩
      · rw [cells?, if_pos outside]
      · intro other mem
        cases others with
        | nil => cases mem
        | cons first others =>
          obtain ⟨own, rest⟩ := ih found
          obtain rfl | mem := List.mem_cons.1 mem
          · exact own
          · exact rest other mem
    · obtain ⟨rfl, rfl⟩ := List.cons.inj same
      obtain ⟨own, rest⟩ := ih found
      exact ⟨cells?_of_after comma after own, rest⟩

/-- A blank outside of everything is put before the first cell. -/
theorem cells?_blank (h : cells? .top text = some (cell :: others)) :
    cells? .top (some ' ' :: text) = some ((some ' ' :: cell) :: others) := by
  refine cells?_of_after ?_ rfl h
  rintro ⟨-, same⟩
  cases same

theorem cells?_separated (h : ∀ other ∈ text :: texts, cells? .top other = some [other]) :
    cells? .top (separated (text :: texts)) = some (text :: texts.map (some ' ' :: ·)) := by
  induction texts generalizing text with
  | nil => exact h text List.mem_cons_self
  | cons next rest ih =>
    have following : cells? .top (separated (next :: rest)) = some (next :: rest.map (some ' ' :: ·)) :=
      ih fun other mem => h other (List.mem_cons_of_mem _ mem)
    rw [separated, cells?_append (h text List.mem_cons_self), cells?_blank following]
    · rfl
    · exact List.cons_ne_nil _ _

theorem trimmed_blank (cell : Characters) : trimmed (some ' ' :: cell) = trimmed cell := rfl

theorem trimmed_of_ne {c : Option Char} (h : c ≠ some ' ') (rest : Characters) :
    trimmed (c :: rest) = c :: rest :=
  List.dropWhile_cons_of_neg fun same => h (beq_iff_eq.1 same)

theorem trimmed_trimmed (cell : Characters) : trimmed (trimmed cell) = trimmed cell := by
  induction cell with
  | nil => rfl
  | cons c rest ih =>
    by_cases blank : c = some ' '
    · subst blank
      exact ih
    · rw [trimmed_of_ne blank, trimmed_of_ne blank]

theorem cells?_trimmed (h : cells? .top cell = some [cell]) :
    cells? .top (trimmed cell) = some [trimmed cell] := by
  induction cell with
  | nil => exact h
  | cons c rest ih =>
    by_cases blank : c = some ' '
    · subst blank
      rw [trimmed_blank]
      obtain ⟨-, comma, -⟩ | ⟨-, next, first, others, after, found, same⟩ := cells?_cons h
      · cases comma
      · cases after
        obtain ⟨first', rfl⟩ := List.cons.inj same
        obtain ⟨-, rfl⟩ := List.cons.inj first'
        exact ih found
    · rw [trimmed_of_ne blank]
      exact h

/-- An item is a cell that neither is missing nor begins with a blank. -/
theorem isItem_iff : IsItem text ↔ cells? .top text = some [text] ∧ trimmed text = text ∧ text ≠ [] := by
  unfold IsItem listItems?
  cases found : cells? .top text with
  | none => simp
  | some cells =>
    dsimp only
    constructor
    · intro h
      split at h
      · cases h
      · next present =>
        obtain ⟨cell, rfl, same⟩ := List.map_eq_singleton_iff.1 (Option.some.inj h)
        obtain rfl := eq_of_cells?_singleton found
        refine ⟨rfl, same, ?_⟩
        rintro rfl
        exact present rfl
    · rintro ⟨single, same, nonempty⟩
      rw [Option.some.inj single]
      simp [same, nonempty]

/-- Texts with commas between them are read as these texts exactly if each of them is an item. -/
theorem listItems?_separated (h : texts ≠ []) :
    listItems? (separated texts) = some texts ↔ ∀ text ∈ texts, IsItem text := by
  constructor
  · intro read text mem
    unfold listItems? at read
    split at read
    · cases read
    · next cells found =>
      split at read
      · cases read
      · next present =>
        rw [← Option.some.inj read] at mem
        obtain ⟨cell, hcell, rfl⟩ := List.mem_map.1 mem
        have alone : cells? .top cell = some [cell] := by
          cases cells with
          | nil => cases hcell
          | cons first others =>
            obtain ⟨own, rest⟩ := cells?_of_cells? found
            obtain rfl | hcell := List.mem_cons.1 hcell
            · exact own
            · exact rest cell hcell
        refine isItem_iff.2 ⟨cells?_trimmed alone, trimmed_trimmed cell, ?_⟩
        intro missing
        apply present
        rw [List.any_eq_true]
        exact ⟨cell, hcell, by rw [missing]; rfl⟩
  · intro items
    cases texts with
    | nil => exact absurd rfl h
    | cons text rest =>
      have alone : ∀ other ∈ text :: rest, cells? .top other = some [other] :=
        fun other mem => (isItem_iff.1 (items other mem)).1
      have kept : (text :: rest.map (some ' ' :: ·)).map trimmed = text :: rest := by
        rw [List.map_cons, List.map_map, (isItem_iff.1 (items text List.mem_cons_self)).2.1]
        refine congrArg (text :: ·) ?_
        refine (List.map_congr_left fun other mem => ?_).trans (List.map_id rest)
        exact (isItem_iff.1 (items other (List.mem_cons_of_mem _ mem))).2.1
      have present : ((text :: rest.map (some ' ' :: ·)).any fun cell => (trimmed cell).isEmpty) =
          false := by
        have mapped : ((text :: rest.map (some ' ' :: ·)).any fun cell => (trimmed cell).isEmpty) =
            (text :: rest).any List.isEmpty := by
          rw [← kept, List.any_map]
          rfl
        rw [mapped, List.any_eq_false]
        intro other mem missing
        exact (isItem_iff.1 (items other mem)).2.2 (List.isEmpty_iff.1 missing)
      rw [listItems?, cells?_separated alone]
      dsimp only
      rw [present, kept]
      rfl

end SqlAlgebra.Reading
