import Mathlib.Data.List.Chain
import SqlAlgebra.Proofs.Template.Inline
import SqlAlgebra.Proofs.Value.Numerals

/-!
# Minus signs in a text

Two minus signs side by side start a comment.  Those that matter here are written by operators and
by numbers: what the caller wrote and what stands between quotes is no concern of the renderer.  So
the characters of a statement carry a mark that says whether an operator or a number wrote them.
-/

namespace SqlAlgebra

open List (Forall₂)

/-- A text each of whose characters has the same mark. -/
def marked (mark : Bool) (sql : String) : List (Char × Bool) := sql.toList.map (·, mark)

/-- A minus sign that an operator or a number wrote. -/
def minusSign : Char × Bool := ('-', true)

/-- Whether no two minus signs of operators and numbers stand side by side. -/
def NoComment (cs : List (Char × Bool)) : Prop :=
  cs.IsChain fun a b => ¬(a = minusSign ∧ b = minusSign)

/-- Whether the first character is a minus sign of an operator or a number. -/
def StartsWithMinus (cs : List (Char × Bool)) : Prop := cs.head? = some minusSign

instance (cs : List (Char × Bool)) : Decidable (NoComment cs) :=
  inferInstanceAs (Decidable (List.IsChain _ cs))

instance (cs : List (Char × Bool)) : Decidable (StartsWithMinus cs) :=
  inferInstanceAs (Decidable (_ = _))

/-! ## Texts one after another -/

variable {cs cs' : List (Char × Bool)} {sql : String}

theorem noComment_append : NoComment (cs ++ cs') ↔ NoComment cs ∧ NoComment cs' ∧
    ¬(cs.getLast? = some minusSign ∧ StartsWithMinus cs') := by
  unfold NoComment StartsWithMinus
  rw [List.isChain_append]
  refine and_congr_right fun _ => and_congr_right fun _ => ?_
  constructor
  · rintro apart ⟨last, first⟩
    exact apart minusSign last minusSign first ⟨rfl, rfl⟩
  · rintro apart a last b first ⟨rfl, rfl⟩
    exact apart ⟨last, first⟩

theorem noComment_append_of_not_starts (h : ¬StartsWithMinus cs') :
    NoComment (cs ++ cs') ↔ NoComment cs ∧ NoComment cs' := by
  rw [noComment_append]
  exact and_congr_right fun _ => and_iff_left fun met => h met.2

theorem noComment_append_of_last (h : cs.getLast? ≠ some minusSign) :
    NoComment (cs ++ cs') ↔ NoComment cs ∧ NoComment cs' := by
  rw [noComment_append]
  exact and_congr_right fun _ => and_iff_left fun met => h met.1

theorem startsWithMinus_append : StartsWithMinus (cs ++ cs') ↔
    StartsWithMinus cs ∨ cs = [] ∧ StartsWithMinus cs' := by
  cases cs <;> simp [StartsWithMinus]

/-! ### Text without marks -/

theorem notMem_marked_false (sql : String) : minusSign ∉ marked false sql := by
  simp [marked, minusSign]

theorem noComment_of_notMem (h : minusSign ∉ cs) : NoComment cs := by
  induction cs with
  | nil => exact List.isChain_nil
  | cons c cs ih =>
    rw [List.mem_cons, not_or] at h
    exact List.isChain_cons.2 ⟨fun _ _ both => h.1 both.1.symm, ih h.2⟩

theorem not_startsWithMinus_of_notMem (h : minusSign ∉ cs) : ¬StartsWithMinus cs :=
  fun first => h (List.mem_of_mem_head? first)

theorem getLast?_ne_of_notMem (h : minusSign ∉ cs) : cs.getLast? ≠ some minusSign :=
  fun last => h (List.mem_of_getLast? last)

/-! ### Numerals -/

theorem HasNumeralParts.notMem_marked (h : HasNumeralParts sql) : minusSign ∉ marked true sql := by
  intro mem
  obtain ⟨c, hc, same⟩ := List.mem_map.1 mem
  obtain rfl : c = '-' := congrArg Prod.fst same
  exact absurd (h '-' hc) (by decide)

theorem marked_append (mark : Bool) (sql sql' : String) :
    marked mark (sql ++ sql') = marked mark sql ++ marked mark sql' := by
  rw [marked, String.toList_append, List.map_append]
  rfl

/-- A numeral starts with a minus sign exactly if it is negative, and has no comment in it. -/
theorem IsNumeral.minusSigns {negative : Bool} (h : IsNumeral negative sql) :
    NoComment (marked true sql) ∧ (StartsWithMinus (marked true sql) ↔ negative = true) := by
  obtain ⟨magnitude, rest, some, front, back, mark, marks, rfl⟩ := h
  have some : marked true magnitude ≠ [] := by
    rw [marked, Ne, List.map_eq_nil_iff, String.toList_eq_nil_iff]
    exact some
  have quiet (cs : List (Char × Bool)) : ¬StartsWithMinus (marked true magnitude ++ cs) := by
    rw [startsWithMinus_append]
    rintro (first | ⟨empty, -⟩)
    · exact not_startsWithMinus_of_notMem front.notMem_marked first
    · exact some empty
  have inside : NoComment (marked true (mark ++ rest)) := by
    rw [marked_append]
    refine (noComment_append_of_not_starts (not_startsWithMinus_of_notMem back.notMem_marked)).2
      ⟨?_, noComment_of_notMem back.notMem_marked⟩
    obtain rfl | rfl := marks
    · exact List.isChain_nil
    · exact List.isChain_singleton _
  have whole : NoComment (marked true magnitude ++ marked true (mark ++ rest)) :=
    (noComment_append_of_last (getLast?_ne_of_notMem front.notMem_marked)).2
      ⟨noComment_of_notMem front.notMem_marked, inside⟩
  rw [String.append_assoc, marked_append, marked_append]
  cases negative with
  | false => exact ⟨whole, iff_of_false (quiet _) Bool.false_ne_true⟩
  | true =>
    refine ⟨(noComment_append_of_not_starts (quiet _)).2 ⟨List.isChain_singleton _, whole⟩, ?_⟩
    exact iff_of_true rfl rfl

/-! ## What pieces become -/

/-- A text with marked characters in its gaps. -/
def markedFilled : List (Option String) → List (List (Char × Bool)) → List (Char × Bool)
  | [], _ => []
  | some sql :: rest, holes => marked false sql ++ markedFilled rest holes
  | none :: rest, hole :: holes => hole ++ markedFilled rest holes
  | none :: rest, [] => markedFilled rest []

/-- The characters that a piece becomes.  Those of a text have the mark of the piece, those of a
value that is written out are marked if it is a number, and names and placeholders have no marks. -/
inductive BecomesMarked (d : Dialect) (inline : Bool) : Piece × Bool → List (Char × Bool) → Prop
  | text (sql : String) (mark : Bool) :
      BecomesMarked d inline (.text sql, mark) (marked mark (Template.escaped d sql))
  | anonymous (n : Node) (mark : Bool) (name : String) :
      BecomesMarked d inline (.anonymous n, mark) (marked false name)
  | placeholder {n : Node} {b : BindParam} (mark : Bool) (sql : String) :
      inline = false → BecomesMarked d inline (.bind n b, mark) (marked false sql)
  | literal {n : Node} {b : BindParam} {holes : List (List (Char × Bool))} (mark : Bool) :
      inline = true →
      Forall₂ (fun value hole => ∃ sql, d.literal value = .ok sql ∧
        hole = marked value.isNumber (Template.escaped d sql)) (Part.param n b "").values holes →
      BecomesMarked d inline (.bind n b, mark) (markedFilled ((Part.param n b "").outline d) holes)

/-- The characters that pieces become one after another. -/
inductive BecomeMarked (d : Dialect) (inline : Bool) :
    List (Piece × Bool) → List (Char × Bool) → Prop
  | nil : BecomeMarked d inline [] []
  | cons {piece : Piece × Bool} {pieces : List (Piece × Bool)} {cs cs' : List (Char × Bool)} :
      BecomesMarked d inline piece cs → BecomeMarked d inline pieces cs' →
      BecomeMarked d inline (piece :: pieces) (cs ++ cs')

variable {d : Dialect} {inline : Bool} {pieces pieces' : List (Piece × Bool)}

theorem becomeMarked_append :
    BecomeMarked d inline (pieces ++ pieces') cs ↔ ∃ front back, cs = front ++ back ∧
      BecomeMarked d inline pieces front ∧ BecomeMarked d inline pieces' back := by
  induction pieces generalizing cs with
  | nil =>
    constructor
    · exact fun h => ⟨[], cs, rfl, .nil, h⟩
    · rintro ⟨_, _, rfl, ⟨⟩, h⟩
      exact h
  | cons piece pieces ih =>
    constructor
    · rintro (_ | ⟨first, rest⟩)
      obtain ⟨front, back, rfl, h, h'⟩ := ih.1 rest
      exact ⟨_, back, (List.append_assoc _ _ _).symm, .cons first h, h'⟩
    · rintro ⟨_, back, rfl, _ | ⟨first, h⟩, h'⟩
      rw [List.append_assoc]
      exact .cons first (ih.2 ⟨_, back, rfl, h, h'⟩)

/-- Pieces of text without a mark and names of anonymous elements have no marked characters. -/
theorem BecomeMarked.notMem (h : BecomeMarked d inline pieces cs)
    (plain : ∀ piece ∈ pieces, piece.2 = false ∧ ∀ n b, piece.1 ≠ .bind n b) : minusSign ∉ cs := by
  induction h with
  | nil => exact List.not_mem_nil
  | @cons piece pieces first rest becomes _ ih =>
    rw [List.mem_append, not_or]
    refine ⟨?_, ih fun piece hp => plain piece (List.mem_cons_of_mem _ hp)⟩
    obtain ⟨unmarked, other⟩ := plain _ List.mem_cons_self
    cases becomes with
    | text sql mark =>
      obtain rfl : mark = false := unmarked
      exact notMem_marked_false _
    | anonymous n mark name => exact notMem_marked_false _
    | placeholder | literal => exact absurd rfl (other _ _)

/-! ### Parameters -/

theorem not_startsWithMinus_marked_append (some : sql ≠ "") :
    ¬StartsWithMinus (marked false sql ++ cs) := by
  rw [startsWithMinus_append]
  rintro (first | ⟨empty, -⟩)
  · exact not_startsWithMinus_of_notMem (notMem_marked_false sql) first
  · rw [marked, List.map_eq_nil_iff, String.toList_eq_nil_iff] at empty
    exact some empty

theorem noComment_marked_append (sql : String) :
    NoComment (marked false sql ++ cs) ↔ NoComment cs := by
  rw [noComment_append_of_last (getLast?_ne_of_notMem (notMem_marked_false sql))]
  exact and_iff_right (noComment_of_notMem (notMem_marked_false sql))

/-- The elements of a list have commas between them, or nothing follows but the parenthesis. -/
theorem noComment_gaps (n : Nat) {holes : List (List (Char × Bool))}
    (each : ∀ hole ∈ holes, NoComment hole) :
    NoComment (markedFilled (Part.gaps n ++ [some ")"]) holes) := by
  induction n using Part.gaps.induct generalizing holes with
  | case1 => exact (noComment_marked_append ")").2 List.isChain_nil
  | case2 =>
    have close : NoComment (marked false ")" ++ []) :=
      (noComment_marked_append ")").2 List.isChain_nil
    cases holes with
    | nil => exact close
    | cons hole holes =>
      exact (noComment_append_of_not_starts (not_startsWithMinus_marked_append (by decide))).2
        ⟨each hole List.mem_cons_self, close⟩
  | case3 n ih =>
    cases holes with
    | nil => exact (noComment_marked_append ", ").2 (ih (List.forall_mem_nil _))
    | cons hole holes =>
      exact (noComment_append_of_not_starts (not_startsWithMinus_marked_append (by decide))).2
        ⟨each hole List.mem_cons_self, (noComment_marked_append ", ").2
          (ih fun hole h => each hole (List.mem_cons_of_mem _ h))⟩

theorem HasNumeralParts.notMem_percent (h : HasNumeralParts sql) : '%' ∉ sql.toList :=
  fun mem => absurd (h '%' mem) (by decide)

theorem IsNumeral.notMem_percent {negative : Bool} (h : IsNumeral negative sql) :
    '%' ∉ sql.toList := by
  obtain ⟨magnitude, rest, -, front, back, mark, marks, rfl⟩ := h
  simp only [String.toList_append, List.mem_append, not_or]
  refine ⟨?_, ⟨front.notMem_percent, ?_⟩, back.notMem_percent⟩
  · cases negative <;> decide
  · obtain rfl | rfl := marks <;> decide

/-- A value that is written out starts with a minus sign if it is a negative number. -/
theorem minusSigns_literal {value : Value} (h : d.literal value = .ok sql) :
    NoComment (marked value.isNumber (Template.escaped d sql)) ∧
      (StartsWithMinus (marked value.isNumber (Template.escaped d sql)) ↔
        value.isNegative = true) := by
  cases number : value.isNumber with
  | true =>
    have numeral := isNumeral_literal number h
    rw [Template.escaped_of_notMem numeral.notMem_percent]
    exact numeral.minusSigns
  | false =>
    have positive : ¬value.isNegative = true := by
      cases value with
      | integer | real => cases number
      | _ => exact Bool.false_ne_true
    exact ⟨noComment_of_notMem (notMem_marked_false _),
      iff_of_false (not_startsWithMinus_of_notMem (notMem_marked_false _)) positive⟩

theorem noComment_of_literals {values : List Value} {holes : List (List (Char × Bool))}
    (each : Forall₂ (fun value hole => ∃ sql, d.literal value = .ok sql ∧
      hole = marked value.isNumber (Template.escaped d sql)) values holes) :
    ∀ hole ∈ holes, NoComment hole := by
  induction each with
  | nil => nofun
  | cons first _ ih =>
    obtain ⟨sql, found, rfl⟩ := first
    exact List.forall_mem_cons.2 ⟨(minusSigns_literal found).1, ih⟩

/-- A parameter has no comment in it, and starts with a minus sign if it is a negative number that
is written out. -/
theorem BecomesMarked.minusSigns {n : Node} {b : BindParam} {mark : Bool}
    (h : BecomesMarked d inline (.bind n b, mark) cs) :
    NoComment cs ∧ (StartsWithMinus cs ↔
      inline = true ∧ b.isExpanding = false ∧ b.value.isNegative = true) := by
  cases h with
  | placeholder mark sql placed =>
    refine ⟨noComment_of_notMem (notMem_marked_false sql),
      iff_of_false (not_startsWithMinus_of_notMem (notMem_marked_false sql)) ?_⟩
    rintro ⟨written, -⟩
    exact Bool.false_ne_true (placed.symm.trans written)
  | @literal _ _ holes mark written each =>
    have clean := noComment_of_literals each
    cases expanding : b.isExpanding with
    | false =>
      rw [Part.values, expanding] at each
      obtain _ | ⟨⟨sql, found, rfl⟩, ⟨⟩⟩ := each
      obtain ⟨inside, first⟩ := minusSigns_literal found
      rw [Part.outline_of_plain expanding, markedFilled, markedFilled, List.append_nil, first]
      exact ⟨inside, by simp [written]⟩
    | true =>
      have never : ¬(inline = true ∧ true = false ∧ b.value.isNegative = true) := by simp
      cases expand : b.value.expand with
      | nil =>
        rw [Part.outline_of_empty expanding expand, markedFilled, markedFilled, List.append_nil]
        exact ⟨noComment_of_notMem (notMem_marked_false _),
          iff_of_false (not_startsWithMinus_of_notMem (notMem_marked_false _)) never⟩
      | cons item items =>
        rw [Part.outline_of_cons expanding expand, markedFilled, noComment_marked_append]
        exact ⟨noComment_gaps _ clean,
          iff_of_false (not_startsWithMinus_marked_append (by decide)) never⟩

/-! ## The text of a template -/

theorem map_fst_marked (mark : Bool) (sql : String) :
    (marked mark sql).map Prod.fst = sql.toList := by
  rw [marked, List.map_map]
  exact List.map_id' _

theorem map_fst_markedFilled (outline : List (Option String)) {sqls : List String}
    {holes : List (List (Char × Bool))}
    (h : Forall₂ (fun sql hole => hole.map Prod.fst = sql.toList) sqls holes) :
    (markedFilled outline holes).map Prod.fst = (Part.filled outline sqls).toList := by
  induction outline generalizing sqls holes with
  | nil => rfl
  | cons x outline ih =>
    cases x with
    | some sql =>
      rw [markedFilled, Part.filled, List.map_append, String.toList_append, map_fst_marked, ih h]
    | none =>
      cases h with
      | nil => exact ih .nil
      | cons first rest =>
        rw [markedFilled, Part.filled, List.map_append, String.toList_append, first, ih rest]

theorem exists_marked_literals {values : List Value} {literals : List String}
    (each : Forall₂ (fun value text => d.literal value = .ok text) values literals) :
    ∃ holes, Forall₂ (fun value hole => ∃ sql, d.literal value = .ok sql ∧
        hole = marked value.isNumber (Template.escaped d sql)) values holes ∧
      Forall₂ (fun (sql : String) (hole : List (Char × Bool)) => hole.map Prod.fst = sql.toList)
        (literals.map (Template.escaped d)) holes := by
  induction each with
  | nil => exact ⟨[], .nil, .nil⟩
  | @cons value sql _ _ first _ ih =>
    obtain ⟨holes, written, texts⟩ := ih
    exact ⟨_, .cons ⟨sql, first, rfl⟩ written, .cons (map_fst_marked _ _) texts⟩

/-- What a parameter is written as, with marks. -/
theorem exists_marked_of_inlined {b : BindParam}
    (emptySet : Template.escaped d d.emptySet = d.emptySet) (h : Template.inlined d b = .ok sql)
    (n : Node) (mark : Bool) :
    ∃ cs, BecomesMarked d true (.bind n b, mark) cs ∧
      cs.map Prod.fst = (Template.escaped d sql).toList := by
  obtain ⟨literals, each, same⟩ :=
    (Part.Inlined.literal (n := n) "" h).exists_literals emptySet
  obtain ⟨holes, written, texts⟩ := exists_marked_literals each
  refine ⟨_, .literal mark rfl written, ?_⟩
  rw [map_fst_markedFilled _ texts, ← (Part.text.inj same)]

namespace Template

variable {survey : Survey} {binds : List Node} {reversed settled : List Segment} {namer : Namer}
  {s : Statement}

/-- The text of settled pieces is what these become, after the text before them. -/
theorem exists_marked_of_settle (emptySet : escaped d d.emptySet = d.emptySet)
    (h : settle d survey inline (pieces.map Prod.fst) namer reversed = .ok settled)
    (assembled : assemble ⟨settled.reverse⟩ d binds = .ok s) :
    ∃ s₀ cs, assemble ⟨reversed.reverse⟩ d binds = .ok s₀ ∧ BecomeMarked d inline pieces cs ∧
      s.sql.toList = s₀.sql.toList ++ cs.map Prod.fst := by
  induction pieces generalizing namer reversed with
  | nil =>
    cases h
    exact ⟨s, [], assembled, .nil, (List.append_nil _).symm⟩
  | cons piece pieces ih =>
    rcases piece with ⟨piece, mark⟩
    have pushed {sql : String} {namer : Namer} {front : List (Char × Bool)}
        (h : settle d survey inline (pieces.map Prod.fst) namer (pushText reversed sql) =
          .ok settled)
        (becomes : BecomesMarked d inline (piece, mark) front)
        (text : front.map Prod.fst = sql.toList) :
        ∃ s₀ cs, assemble ⟨reversed.reverse⟩ d binds = .ok s₀ ∧
          BecomeMarked d inline ((piece, mark) :: pieces) cs ∧
          s.sql.toList = s₀.sql.toList ++ cs.map Prod.fst := by
      obtain ⟨s₁, back, assembled₁, become, same⟩ := ih h
      rw [assembled_pushText] at assembled₁
      obtain ⟨s₀, assembled₀, rfl⟩ := exists_of_map assembled₁
      refine ⟨s₀, front ++ back, assembled₀, .cons becomes become, ?_⟩
      rw [same, List.map_append, text, String.toList_append, List.append_assoc]
    cases piece with
    | text sql => exact pushed h (.text sql mark) (map_fst_marked _ _)
    | anonymous n => exact pushed h (.anonymous n mark _) (map_fst_marked _ _)
    | bind n b =>
      rw [List.map_cons, settle] at h
      cases inline with
      | true =>
        rw [if_pos rfl] at h
        cases written : inlined d b with
        | error fault =>
          rw [written] at h
          cases h
        | ok sql =>
          rw [written] at h
          obtain ⟨front, becomes, text⟩ := exists_marked_of_inlined emptySet written n mark
          exact pushed h becomes text
      | false =>
        rw [if_neg Bool.false_ne_true] at h
        cases found : survey.slot? n with
        | none =>
          rw [found] at h
          cases h
        | some slot =>
          rw [found] at h
          obtain ⟨s₁, back, assembled₁, become, same⟩ := ih h
          rw [List.reverse_cons, assemble_append] at assembled₁
          cases assembled₀ : assemble ⟨reversed.reverse⟩ d binds with
          | error fault =>
            rw [assembled₀] at assembled₁
            cases assembled₁
          | ok s₀ =>
            rw [assembled₀] at assembled₁
            obtain ⟨filled, -, rfl⟩ := exists_of_map assembled₁
            refine ⟨s₀, _, rfl, .cons (.placeholder mark filled.1 rfl) become, ?_⟩
            rw [same, List.map_append, map_fst_marked, String.toList_append, List.append_assoc]

/-- The text of a template is what the pieces of its layout become. -/
theorem exists_marked_of_ofLayout {layout : Layout} {t : Template}
    (emptySet : escaped d d.emptySet = d.emptySet) (same : pieces.map Prod.fst = layout.pieces)
    (h : ofLayout d survey inline layout = .ok t) (assembled : t.assemble d binds = .ok s) :
    ∃ cs, BecomeMarked d inline pieces cs ∧ s.sql.toList = cs.map Prod.fst := by
  have settled := settled_of_ofLayout h
  rw [← same] at settled
  obtain ⟨s₀, cs, assembled₀, become, text⟩ := exists_marked_of_settle emptySet settled
    (by rw [List.reverse_reverse]; exact assembled)
  cases assembled₀
  exact ⟨cs, become, text⟩

end Template

end SqlAlgebra
