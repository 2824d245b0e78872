import SqlAlgebra.Dialect.Basic

/-!
# Numerals

A number that is written into a statement starts with a minus sign exactly if it is negative.  The
only other minus sign in it is that of an exponent, so no two of them meet.
-/

namespace SqlAlgebra

/-- Whether a character can stand in a numeral, minus signs aside. -/
def isNumeralPart (c : Char) : Bool := c.isDigit || c == '.' || c == 'e'

def HasNumeralParts (s : String) : Prop := ∀ c ∈ s.toList, isNumeralPart c = true

instance (s : String) : Decidable (HasNumeralParts s) :=
  List.decidableBAll (fun c => isNumeralPart c = true) s.toList

/-- Whether a text is that of a number with this sign: a magnitude, or the part of one up to the
minus sign of its exponent, and the rest of it. -/
def IsNumeral (negative : Bool) (sql : String) : Prop :=
  ∃ magnitude rest, magnitude ≠ "" ∧ HasNumeralParts magnitude ∧ HasNumeralParts rest ∧
    ∃ mark, (mark = "" ∨ mark = "-") ∧
      sql = (if negative then "-" else "") ++ (magnitude ++ mark ++ rest)

namespace Value

def isNumber : Value → Bool
  | .integer _ | .real _ => true
  | _ => false

/-- Whether a value is written with a minus sign, as the negative zero is. -/
def isNegative : Value → Bool
  | .integer n => n.toInt < 0
  | .real x => x.isNegative
  | _ => false

end Value

namespace HasNumeralParts

variable {s t : String}

theorem append (h : HasNumeralParts s) (h' : HasNumeralParts t) : HasNumeralParts (s ++ t) := by
  intro c hc
  rw [String.toList_append, List.mem_append] at hc
  obtain hc | hc := hc
  · exact h c hc
  · exact h' c hc

theorem ofList {cs : List Char} (h : ∀ c ∈ cs, isNumeralPart c = true) :
    HasNumeralParts (String.ofList cs) := by
  intro c hc
  rw [String.toList_ofList] at hc
  exact h c hc

theorem repr (n : Nat) : HasNumeralParts (Nat.repr n) := by
  intro c hc
  rw [Nat.toList_repr] at hc
  have digit : c.isDigit = true := Nat.isDigit_of_mem_toDigits (by decide) (by decide) hc
  rw [isNumeralPart, digit]
  rfl

theorem zeros (k : Nat) : ∀ c ∈ List.replicate k '0', isNumeralPart c = true := by
  intro c hc
  obtain rfl := List.eq_of_mem_replicate hc
  rfl

/-- A magnitude without a negative exponent is a numeral with either sign. -/
theorem isNumeral (h : HasNumeralParts s) (some : s ≠ "") (negative : Bool) :
    IsNumeral negative ((if negative then "-" else "") ++ s) :=
  ⟨s, "", some, h, by decide, "", .inl rfl, by rw [String.append_empty, String.append_empty]⟩

end HasNumeralParts

theorem repr_ne_empty (n : Nat) : Nat.repr n ≠ "" := by
  rw [Ne, ← String.toList_inj, Nat.toList_repr]
  exact Nat.toDigits_ne_nil

theorem isNumeral_toString (n : Int) : IsNumeral (n < 0) (toString n) := by
  cases n with
  | ofNat k =>
    have positive : decide (Int.ofNat k < 0) = false :=
      decide_eq_false (Int.not_lt.2 (Int.natCast_nonneg k))
    rw [positive]
    exact (HasNumeralParts.repr k).isNumeral (repr_ne_empty k) false
  | negSucc k =>
    have negative : decide (Int.negSucc k < 0) = true := decide_eq_true (Int.negSucc_lt_zero k)
    rw [negative]
    exact (HasNumeralParts.repr (k + 1)).isNumeral (repr_ne_empty (k + 1)) true

/-! ## Reals -/

namespace NumeralStyle

variable {style : NumeralStyle}

theorem hasNumeralParts_positional (d : Decimal) : HasNumeralParts (positional d) := by
  have digits := HasNumeralParts.repr d.digits
  unfold positional
  dsimp only
  split
  · have tail : HasNumeralParts ".0" := by decide
    refine .append (.ofList fun c hc => ?_) tail
    obtain hc | hc := List.mem_append.1 hc
    · exact digits c hc
    · exact HasNumeralParts.zeros _ c hc
  · split
    · have point : HasNumeralParts "." := by decide
      exact .append (.append (.ofList fun c hc => digits c (List.mem_of_mem_take hc)) point)
        (.ofList fun c hc => digits c (List.mem_of_mem_drop hc))
    · have front : HasNumeralParts "0." := by decide
      refine .append front (.ofList fun c hc => ?_)
      obtain hc | hc := List.mem_append.1 hc
      · exact HasNumeralParts.zeros _ c hc
      · exact digits c hc

theorem positional_ne_empty (d : Decimal) : positional d ≠ "" := by
  rw [Ne, ← String.toList_inj]
  unfold positional
  dsimp only
  split
  · simp
  · split <;> simp

/-- A number in exponent notation up to its exponent, and the exponent without its sign. -/
theorem exists_scientific (plain : style.exponentMark = "") (d : Decimal) :
    ∃ magnitude rest, magnitude ≠ "" ∧ HasNumeralParts magnitude ∧ HasNumeralParts rest ∧
      ∃ mark, (mark = "" ∨ mark = "-") ∧ style.scientific d = magnitude ++ mark ++ rest := by
  have digits := HasNumeralParts.repr d.digits
  unfold scientific
  dsimp only
  rw [plain]
  generalize d.exponent + ((Nat.repr d.digits).toList.length - 1 : Nat) = exponent
  generalize hf : (if (Nat.repr d.digits).toList.length = 1 then "" else
    "." ++ String.ofList ((Nat.repr d.digits).toList.drop 1)) = fraction
  have leading : ∀ c ∈ (Nat.repr d.digits).toList.take 1, isNumeralPart c = true :=
    fun c hc => digits c (List.mem_of_mem_take hc)
  have fractional : HasNumeralParts fraction := by
    subst hf
    have point : HasNumeralParts "." := by decide
    split
    · decide
    · exact point.append (.ofList fun c hc => digits c (List.mem_of_mem_drop hc))
  have letter : HasNumeralParts "e" := by decide
  refine ⟨_, Nat.repr exponent.natAbs, ?_,
    ((HasNumeralParts.ofList leading).append fractional).append letter, .repr _, _, ?_, rfl⟩
  · rw [Ne, ← String.toList_inj]
    simp
  · split
    · exact .inl rfl
    · exact .inr rfl

/-- A number that is finite is its sign and its magnitude in one of the notations. -/
theorem exists_write {x : Double} (finite : x.isFinite = true) :
    ∃ d, style.write x = (if x.isNegative then "-" else "") ++ positional d ∨
      style.write x = (if x.isNegative then "-" else "") ++ style.scientific d := by
  have number : x.isNaN = false := by
    rw [Double.isFinite, decide_eq_true_eq] at finite
    rw [Double.isNaN, decide_eq_false_iff_not]
    omega
  refine ⟨x.shortest style.tie, ?_⟩
  unfold write
  simp only [number, finite, Bool.not_true, Bool.false_eq_true, if_false]
  generalize (if x.isNegative = true then "-" else "") = sign
  split
  · exact .inl rfl
  · exact .inr rfl

end NumeralStyle

theorem isNumeral_text {x : Double} (finite : x.isFinite = true) :
    IsNumeral x.isNegative x.text := by
  obtain ⟨d, text | text⟩ := @NumeralStyle.exists_write .plain x finite
  · rw [Double.text, text]
    exact (NumeralStyle.hasNumeralParts_positional d).isNumeral
      (NumeralStyle.positional_ne_empty d) x.isNegative
  · obtain ⟨magnitude, rest, some, front, back, mark, marks, scientific⟩ :=
      @NumeralStyle.exists_scientific .plain rfl d
    rw [Double.text, text, scientific]
    exact ⟨magnitude, rest, some, front, back, mark, marks, rfl⟩

/-- A number is written as a numeral with its sign. -/
theorem isNumeral_literal {d : Dialect} {v : Value} {sql : String} (number : v.isNumber = true)
    (h : d.literal v = .ok sql) : IsNumeral v.isNegative sql := by
  cases v with
  | integer n =>
    cases h
    exact isNumeral_toString n.toInt
  | real x =>
    rw [Dialect.literal] at h
    split at h
    · next finite =>
      cases h
      exact isNumeral_text finite
    · cases h
  | _ => cases number

end SqlAlgebra
