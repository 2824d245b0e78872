import SqlAlgebra.Proofs.Layout.Composition
import SqlAlgebra.Proofs.Template.Parts

/-!
# Percent signs

Where a percent sign marks placeholders, every percent sign of a statement begins a pair: two of
them stand for one, and one before an `s` is a placeholder.  A scan from the left tells them apart,
however they come to stand side by side, because text is doubled as a whole and a placeholder is
whole.

A dialect whose placeholders are written otherwise lays a statement out alike.  Its templates are
the ones before the doubling, and its statements are what the scan finds, with its own placeholders.
-/

namespace SqlAlgebra

/-- A dialect with its placeholders written in another style. -/
def Dialect.restyled (d : Dialect) (style : BindStyle) : Dialect := { d with bindStyle := style }

/-! ## The scan -/

/-- The characters that a text with percent signs stands for; a placeholder is none of them. -/
def percents? : List Char → Option (List (Option Char))
  | [] => some []
  | [c] => if c = '%' then none else some [some c]
  | c :: c' :: rest =>
    if c = '%' then
      if c' = '%' then (percents? rest).map (some c' :: ·)
      else if c' = 's' then (percents? rest).map (none :: ·)
      else none
    else (percents? (c' :: rest)).map (some c :: ·)

/-- A text in which every percent sign is written twice. -/
def doubledPercents (sql : String) : String := String.ofList (Quoting.doubled '%' sql.toList)

/-- Whether a text stands for these characters and placeholders, whatever comes after it. -/
def Spells (sql : String) (tokens : List (Option Char)) : Prop :=
  ∀ rest, percents? (sql.toList ++ rest) = (percents? rest).map (tokens ++ ·)

theorem percents?_cons {c : Char} (plain : c ≠ '%') (rest : List Char) :
    percents? (c :: rest) = (percents? rest).map (some c :: ·) := by
  cases rest with
  | nil => exact if_neg plain
  | cons c' rest => rw [percents?, if_neg plain]

theorem percents?_doubled (s rest : List Char) :
    percents? (Quoting.doubled '%' s ++ rest) = (percents? rest).map (s.map some ++ ·) := by
  induction s with
  | nil => exact Option.map_id'.symm
  | cons c s ih =>
    have tokens : (percents? rest).map ((c :: s).map some ++ ·) =
        ((percents? rest).map (s.map some ++ ·)).map (some c :: ·) := by
      rw [Option.map_map]
      rfl
    rw [Quoting.doubled_cons, tokens, ← ih]
    by_cases percent : c = '%'
    · subst percent
      rw [if_pos rfl]
      show percents? ('%' :: '%' :: (Quoting.doubled '%' s ++ rest)) = _
      rw [percents?, if_pos rfl, if_pos rfl]
    · rw [if_neg percent]
      exact percents?_cons percent _

namespace Spells

variable {sql sql' : String} {tokens tokens' : List (Option Char)}

theorem percents? (h : Spells sql tokens) : percents? sql.toList = some tokens := by
  have whole := h []
  rwa [List.append_nil, SqlAlgebra.percents?, Option.map_some, List.append_nil] at whole

theorem empty : Spells "" [] := fun _ => Option.map_id'.symm

theorem append (h : Spells sql tokens) (h' : Spells sql' tokens') :
    Spells (sql ++ sql') (tokens ++ tokens') := by
  intro rest
  rw [String.toList_append, List.append_assoc, h, h', Option.map_map]
  simp only [Function.comp_def, List.append_assoc]

theorem doubled (sql : String) : Spells (doubledPercents sql) (sql.toList.map some) := by
  intro rest
  rw [doubledPercents, String.toList_ofList]
  exact percents?_doubled _ _

theorem plain (h : '%' ∉ sql.toList) : Spells sql (sql.toList.map some) := by
  have same : doubledPercents sql = sql := by
    rw [doubledPercents, Quoting.doubled_of_notMem h, String.ofList_toList]
  have spelled := doubled sql
  rwa [same] at spelled

theorem placeholder : Spells "%s" [none] := fun _ => rfl

end Spells

/-! ## Outlines -/

namespace Part

variable {d : Dialect} {style : BindStyle}

/-- An outline one character at a time. -/
def characters (outline : List (Option String)) : List (Option Char) :=
  outline.flatMap fun
    | some sql => sql.toList.map some
    | none => [none]

/-- Characters with texts in their gaps. -/
def written (tokens : List (Option Char)) (holes : List String) : String :=
  filled (tokens.map (Option.map Char.toString)) holes

theorem count_none_map (tokens : List (Option Char)) :
    (tokens.map (Option.map Char.toString)).count none = tokens.count none := by
  rw [List.count_eq_countP, List.countP_map, List.count_eq_countP]
  refine List.countP_congr fun x _ => ?_
  cases x <;> simp

theorem written_append {xs ys : List (Option Char)} {holes holes' : List String}
    (h : xs.count none = holes.length) :
    written (xs ++ ys) (holes ++ holes') = written xs holes ++ written ys holes' := by
  rw [written, List.map_append, filled_append ((count_none_map xs).trans h)]
  rfl

theorem written_text_append (s : List Char) (tokens : List (Option Char)) (holes : List String) :
    written (s.map some ++ tokens) holes = String.ofList s ++ written tokens holes := by
  induction s with
  | nil => exact String.empty_append.symm
  | cons c s ih =>
    show c.toString ++ written (s.map some ++ tokens) holes = _
    rw [ih, ← String.append_assoc]
    refine congrArg (· ++ _) (String.toList_inj.1 ?_)
    simp [Char.toString]

theorem count_none_map_some (s : List Char) : (s.map some).count none = 0 := by
  simp [List.count_eq_zero]

/-- The characters of an outline have its gaps. -/
theorem count_characters (outline : List (Option String)) :
    (characters outline).count none = outline.count none := by
  induction outline with
  | nil => rfl
  | cons x outline ih =>
    cases x with
    | some sql =>
      show (sql.toList.map some ++ characters outline).count none = _
      rw [List.count_append, count_none_map_some, ih, Nat.zero_add,
        List.count_cons_of_ne (by simp)]
    | none =>
      show (none :: characters outline).count none = _
      rw [List.count_cons_self, List.count_cons_self, ih]

theorem written_characters (outline : List (Option String)) (holes : List String) :
    written (characters outline) holes = filled outline holes := by
  induction outline generalizing holes with
  | nil => rfl
  | cons x outline ih =>
    cases x with
    | some sql =>
      show written (sql.toList.map some ++ characters outline) holes = _
      rw [written_text_append, ih, String.ofList_toList]
      rfl
    | none =>
      cases holes with
      | nil => exact ih []
      | cons hole holes => exact congrArg (hole ++ ·) (ih holes)

/-- An outline whose own texts have no percent signs, with placeholders that have one each. -/
theorem spells_filled {outline : List (Option String)}
    (plain : ∀ sql, some sql ∈ outline → '%' ∉ sql.toList) :
    Spells (filled outline (List.replicate (outline.count none) "%s")) (characters outline) := by
  induction outline with
  | nil => exact .empty
  | cons x outline ih =>
    have rest := ih fun sql hsql => plain sql (List.mem_cons_of_mem _ hsql)
    cases x with
    | some sql =>
      rw [List.count_cons_of_ne (by simp)]
      exact (Spells.plain (plain sql List.mem_cons_self)).append rest
    | none =>
      rw [List.count_cons_self]
      exact Spells.placeholder.append rest

theorem plain_gaps (n : Nat) : ∀ sql, some sql ∈ gaps n → '%' ∉ sql.toList := by
  induction n using gaps.induct with
  | case1 | case2 => simp [gaps]
  | case3 n ih =>
    intro sql h
    simp only [gaps, List.mem_cons, reduceCtorEq, Option.some.injEq, false_or] at h
    obtain rfl | h := h
    · decide
    · exact ih sql h

/-- A parameter writes no percent signs beside its placeholders. -/
theorem plain_outline {n : Node} {b : BindParam} {name : String} (plain : '%' ∉ d.emptySet.toList) :
    ∀ sql, some sql ∈ (param n b name).outline d → '%' ∉ sql.toList := by
  intro sql h
  unfold outline at h
  dsimp only at h
  split at h
  · split at h
    · obtain rfl := Option.some.inj (List.mem_singleton.1 h)
      exact plain
    · simp only [List.mem_cons, List.mem_append, Option.some.injEq, List.not_mem_nil, or_false] at h
      obtain rfl | h | rfl := h
      · decide
      · exact plain_gaps _ sql h
      · decide
  · cases List.mem_singleton.1 h

end Part

/-! ## Layouts and templates -/

namespace Layout.Rendering

variable {d : Dialect} {style : BindStyle}

theorem items_restyled (r : Rendering) : r.items (d.restyled style) = r.items d := rfl

/-- A layout has parameters in it, not placeholders, so it does not depend on their style. -/
theorem layout_restyled (r : Rendering) : r.layout (d.restyled style) = r.layout d := by
  induction r using induct d with
  | step r ih =>
    rw [← layouts_items, ← layouts_items, items_restyled]
    refine congrArg concat (List.map_congr_left fun item h => ?_)
    cases item with
    | own x => rfl
    | operator sql => rfl
    | part r' => exact ih r' h

end Layout.Rendering

/-- A segment with its percent signs doubled. -/
def Segment.doubled : Segment → Segment
  | .text sql => .text (doubledPercents sql)
  | .bind slot name isExpanding => .bind slot name isExpanding

/-- A template with its percent signs doubled. -/
def Template.doubled (t : Template) : Template := ⟨t.segments.map Segment.doubled⟩

namespace Template

variable {d : Dialect} {style : BindStyle} {survey : Survey} {inline : Bool}

theorem escaped_of_format (h : d.bindStyle = .format) (sql : String) :
    escaped d sql = doubledPercents sql := if_pos h

theorem escaped_restyled (other : style ≠ .format) (sql : String) :
    escaped (d.restyled style) sql = sql := if_neg other

theorem doubledPercents_append (sql sql' : String) :
    doubledPercents (sql ++ sql') = doubledPercents sql ++ doubledPercents sql' := by
  rw [doubledPercents, String.toList_append, Quoting.doubled_append, String.ofList_append]
  rfl

theorem isEmpty_doubledPercents (sql : String) :
    (doubledPercents sql).isEmpty = sql.isEmpty := by
  rw [Bool.eq_iff_iff, String.isEmpty_iff, String.isEmpty_iff, ← String.toList_eq_nil_iff,
    ← String.toList_eq_nil_iff, doubledPercents, String.toList_ofList]
  cases sql.toList with
  | nil => exact Iff.rfl
  | cons c s =>
    refine iff_of_false (fun empty => ?_) (List.cons_ne_nil c s)
    have first := congrArg List.length empty
    simp only [Quoting.doubled, List.flatMap_cons, List.length_append, List.length_nil] at first
    split at first <;> simp at first

theorem escaped_ne_empty {sql : String} (some : sql ≠ "") : escaped d sql ≠ "" := by
  unfold escaped
  split
  · intro empty
    have same := isEmpty_doubledPercents sql
    rw [doubledPercents, empty] at same
    exact some (String.isEmpty_iff.1 same.symm)
  · exact some

theorem pushText_doubled (reversed : List Segment) (sql : String) :
    pushText (reversed.map Segment.doubled) (doubledPercents sql) =
      (pushText reversed sql).map Segment.doubled := by
  unfold pushText
  rw [isEmpty_doubledPercents]
  split
  · rfl
  · obtain _ | ⟨_ | _, rest⟩ := reversed
    · rfl
    · show [Segment.text _] ++ _ = [Segment.text _] ++ _
      rw [doubledPercents_append]
    · rfl

theorem settle_doubled (survey : Survey) (inline : Bool) (format : d.bindStyle = .format)
    (other : style ≠ .format) (pieces : List Piece) (namer : Namer) (reversed : List Segment) :
    settle d survey inline pieces namer (reversed.map Segment.doubled) =
      (settle (d.restyled style) survey inline pieces namer reversed).map
        (List.map Segment.doubled) := by
  induction pieces generalizing namer reversed with
  | nil => rfl
  | cons piece rest ih =>
    have pushed (sql : String) (namer : Namer) :
        settle d survey inline rest namer
            (pushText (reversed.map Segment.doubled) (escaped d sql)) =
          (settle (d.restyled style) survey inline rest namer
            (pushText reversed (escaped (d.restyled style) sql))).map
              (List.map Segment.doubled) := by
      rw [escaped_of_format format, escaped_restyled other, pushText_doubled, ih]
    cases piece with
    | text sql => exact pushed sql namer
    | anonymous n => exact pushed _ _
    | bind n b =>
      rw [settle, settle]
      cases inline with
      | true =>
        have same : inlined (d.restyled style) b = inlined d b := rfl
        rw [if_pos rfl, if_pos rfl, same]
        cases inlined d b with
        | error fault => rfl
        | ok sql => exact pushed sql namer
      | false =>
        rw [if_neg Bool.false_ne_true, if_neg Bool.false_ne_true]
        cases survey.slot? n with
        | none => rfl
        | some slot => exact ih _ (.bind slot _ _ :: reversed)

/-- The template of a tree is the one for placeholders in another style with the percent signs
doubled. -/
theorem template_doubled (format : d.bindStyle = .format) (other : style ≠ .format) (n : Node) :
    n.template d survey inline = (n.template (d.restyled style) survey inline).map doubled := by
  have layouts : Layout.statement (d.restyled style) [] n = Layout.statement d [] n :=
    Layout.Rendering.layout_restyled ⟨.statement, [], n⟩
  unfold Node.template ofLayout
  rw [layouts]
  have settled := settle_doubled survey inline format other (Layout.statement d [] n).pieces
    (.start survey.identifiers) []
  rw [List.map_nil] at settled
  rw [settled]
  cases settle (d.restyled style) survey inline (Layout.statement d [] n).pieces
    (.start survey.identifiers) [] with
  | error fault => rfl
  | ok reversed =>
    cases (Layout.statement d [] n).fault with
    | some fault => rfl
    | none =>
      show Except.ok (Template.mk _) = Except.ok (Template.mk _)
      rw [List.map_reverse]

/-! ## Statements -/

/-- Whether a statement stands for one with placeholders of another style: its text spells
characters with as many placeholders as it has parameters, and the other one has these characters. -/
structure Stands (d : Dialect) (s s' : Statement) (tokens : List (Option Char)) : Prop where
  spells : Spells s.sql tokens
  gaps : tokens.count none = s.params.size
  params : s'.params = s.params
  sql : s'.sql = Part.written tokens (placeholders d 0 s.params.entries)

variable {binds : List Node} {s : Statement}

theorem exists_of_fill_bind {before slot : Nat} {name : String} {isExpanding : Bool}
    {filled : String × List (String × Value)}
    (h : fill d binds before (.bind slot name isExpanding) = .ok filled) :
    ∃ n b, binds[slot]? = some n ∧ n.kind = .bind b := by
  rw [fill] at h
  split at h
  · cases h
  · next value found =>
    unfold valueAt? at found
    split at found
    · next n hslot =>
      split at found
      · next b hn => exact ⟨n, b, hslot, hn⟩
      · cases found
    · cases found

/-- The placeholders are all alike. -/
theorem placeholders_of_format (h : d.bindStyle = .format) (before : Nat)
    (params : List (String × Value)) :
    placeholders d before params = List.replicate params.length "%s" := by
  refine List.eq_replicate_iff.2 ⟨length_placeholders d before params, fun sql hsql => ?_⟩
  obtain ⟨entry, -, rfl⟩ := List.mem_map.1 hsql
  rw [h]
  rfl

theorem fill_doubled (style : BindStyle) (format : d.bindStyle = .format)
    (plain : '%' ∉ d.emptySet.toList) {before : Nat} {segment : Segment}
    {filled : String × List (String × Value)}
    (h : fill d binds before segment.doubled = .ok filled) :
    ∃ tokens, Spells filled.1 tokens ∧ tokens.count none = filled.2.length ∧
      fill (d.restyled style) binds before segment =
        .ok (Part.written tokens (placeholders (d.restyled style) before filled.2), filled.2) := by
  cases segment with
  | text sql =>
    cases h
    refine ⟨sql.toList.map some, .doubled sql, Part.count_none_map_some _, ?_⟩
    have written := Part.written_text_append sql.toList [] []
    rw [List.append_nil, String.ofList_toList] at written
    exact congrArg (fun sql => Except.ok (sql, [])) (written.trans String.append_empty).symm
  | bind slot name isExpanding =>
    obtain ⟨n, b, hslot, hn⟩ := exists_of_fill_bind h
    rw [Segment.doubled, fill_of_bind hslot hn] at h
    dsimp only at h
    cases h
    refine ⟨Part.characters ((Part.param n { b with isExpanding := isExpanding } name).outline d),
      ?_, ?_, ?_⟩
    · rw [placeholders_of_format format, ← Part.count_outline (d := d)]
      exact Part.spells_filled (Part.plain_outline plain)
    · rw [Part.count_characters, Part.count_outline]
    · rw [fill_of_bind hslot hn, Part.written_characters]
      rfl

/-- A template with its percent signs doubled is assembled to a statement that stands for that of
the template. -/
theorem assemble_doubled (style : BindStyle) (format : d.bindStyle = .format)
    (plain : '%' ∉ d.emptySet.toList) (reversed : List Segment)
    (h : assemble ⟨(reversed.map Segment.doubled).reverse⟩ d binds = .ok s) :
    ∃ s' tokens, assemble ⟨reversed.reverse⟩ (d.restyled style) binds = .ok s' ∧
      Stands (d.restyled style) s s' tokens := by
  induction reversed generalizing s with
  | nil =>
    cases h
    exact ⟨⟨"", .empty⟩, [], rfl, .empty, rfl, rfl, rfl⟩
  | cons segment reversed ih =>
    rw [List.map_cons, List.reverse_cons, assemble_append] at h
    rw [List.reverse_cons, assemble_append]
    cases front : assemble ⟨(reversed.map Segment.doubled).reverse⟩ d binds with
    | error fault =>
      rw [front] at h
      cases h
    | ok s₀ =>
      rw [front] at h
      obtain ⟨s₀', tokens₀, front', spells₀, gaps₀, params₀, sql₀⟩ := ih front
      cases last : fill d binds s₀.params.size segment.doubled with
      | error fault =>
        dsimp only [Except.bind] at h
        rw [last] at h
        cases h
      | ok filled =>
        dsimp only [Except.bind] at h
        rw [last] at h
        cases h
        obtain ⟨tokens, spells, gaps, last'⟩ := fill_doubled style format plain last
        rw [front']
        dsimp only [Except.bind]
        rw [params₀, last']
        refine ⟨_, tokens₀ ++ tokens, rfl, spells₀.append spells, ?_, rfl, ?_⟩
        · rw [List.count_append, gaps₀, gaps, ParamList.size, ParamList.size, List.length_append]
        · have count : tokens₀.count none =
              (placeholders (d.restyled style) 0 s₀.params.entries).length := by
            rw [gaps₀, length_placeholders, ParamList.size]
          dsimp only
          rw [placeholders_append, Part.written_append count, sql₀, Nat.zero_add]
          rfl

end Template

end SqlAlgebra
