import SqlAlgebra.Value.Basic

/-!
# Values that are the same

Whether values are the same is decided as a database would compare them, so a value that holds a NaN
is not the same as itself.  Apart from that it is an equivalence.
-/

namespace SqlAlgebra

theorem Double.same_trans {x y z : Double} (hxy : x.same y) (hyz : y.same z) : x.same z := by
  simp only [same, Bool.and_eq_true, Bool.or_eq_true, Bool.not_eq_true', beq_iff_eq, isZero] at *
  obtain ⟨⟨hx, -⟩, hxy⟩ := hxy
  obtain ⟨⟨-, hz⟩, hyz⟩ := hyz
  refine ⟨⟨hx, hz⟩, ?_⟩
  obtain hxy | ⟨zx, zy⟩ := hxy
  · obtain hyz | ⟨zy, zz⟩ := hyz
    · exact .inl (hxy.trans hyz)
    · exact .inr ⟨by rw [pattern, hxy]; exact zy, zz⟩
  · obtain hyz | ⟨-, zz⟩ := hyz
    · exact .inr ⟨zx, by rw [pattern, ← hyz]; exact zy⟩
    · exact .inr ⟨zx, zz⟩

theorem JsonNumber.same_symm {x y : JsonNumber} (h : x.same y) : y.same x := by
  cases x <;> cases y <;> simp only [same, beq_iff_eq, Bool.false_eq_true] at h ⊢
  · exact h.symm
  · rwa [Double.same_comm]

theorem JsonNumber.same_trans {x y z : JsonNumber} (hxy : x.same y) (hyz : y.same z) :
    x.same z := by
  cases x <;> cases y <;> simp only [same, beq_iff_eq, Bool.false_eq_true] at hxy <;>
    cases z <;> simp only [same, beq_iff_eq, Bool.false_eq_true] at hyz ⊢
  · exact hxy.trans hyz
  · exact Double.same_trans hxy hyz

namespace Json

mutual

theorem same_symm {a b : Json} (h : a.same b) : b.same a := by
  cases a <;> cases b <;> simp only [same, beq_iff_eq, Bool.false_eq_true] at h ⊢
  · exact h.symm
  · exact JsonNumber.same_symm h
  · exact h.symm
  · exact sameItems_symm h
  · exact sameMembers_symm h

theorem sameItems_symm {as bs : List Json} (h : sameItems as bs) : sameItems bs as := by
  cases as <;> cases bs <;> simp only [sameItems, Bool.and_eq_true, Bool.false_eq_true] at h ⊢
  exact ⟨same_symm h.1, sameItems_symm h.2⟩

theorem sameMembers_symm {as bs : List (String × Json)} (h : sameMembers as bs) :
    sameMembers bs as := by
  cases as with
  | nil =>
    cases bs with
    | nil => rfl
    | cons => simp [sameMembers] at h
  | cons a as =>
    rcases a with ⟨k, a⟩
    cases bs with
    | nil => simp [sameMembers] at h
    | cons b bs =>
      rcases b with ⟨l, b⟩
      simp only [sameMembers, Bool.and_eq_true, beq_iff_eq] at h ⊢
      exact ⟨⟨h.1.1.symm, same_symm h.1.2⟩, sameMembers_symm h.2⟩

end

mutual

theorem same_trans {a b c : Json} (hab : a.same b) (hbc : b.same c) : a.same c := by
  cases a <;> cases b <;> simp only [same, beq_iff_eq, Bool.false_eq_true] at hab <;>
    cases c <;> simp only [same, beq_iff_eq, Bool.false_eq_true] at hbc ⊢
  · exact hab.trans hbc
  · exact JsonNumber.same_trans hab hbc
  · exact hab.trans hbc
  · exact sameItems_trans hab hbc
  · exact sameMembers_trans hab hbc
termination_by structural a

theorem sameItems_trans {as bs cs : List Json} (hab : sameItems as bs) (hbc : sameItems bs cs) :
    sameItems as cs := by
  cases as <;> cases bs <;> simp only [sameItems, Bool.and_eq_true, Bool.false_eq_true] at hab <;>
    cases cs <;> simp only [sameItems, Bool.and_eq_true, Bool.false_eq_true] at hbc ⊢
  exact ⟨same_trans hab.1 hbc.1, sameItems_trans hab.2 hbc.2⟩
termination_by structural as

theorem sameMembers_trans {as bs cs : List (String × Json)} (hab : sameMembers as bs)
    (hbc : sameMembers bs cs) : sameMembers as cs := by
  cases as with
  | nil =>
    cases bs with
    | nil => exact hbc
    | cons => simp [sameMembers] at hab
  | cons a as =>
    rcases a with ⟨k, a⟩
    cases bs with
    | nil => simp [sameMembers] at hab
    | cons b bs =>
      rcases b with ⟨l, b⟩
      cases cs with
      | nil => simp [sameMembers] at hbc
      | cons c cs =>
        rcases c with ⟨m, c⟩
        simp only [sameMembers, Bool.and_eq_true, beq_iff_eq] at hab hbc ⊢
        exact ⟨⟨hab.1.1.trans hbc.1.1, same_trans hab.1.2 hbc.1.2⟩,
          sameMembers_trans hab.2 hbc.2⟩
termination_by structural as

end

end Json

namespace Value

mutual

theorem same_symm {a b : Value} (h : a.same b) : b.same a := by
  cases a <;> cases b <;> simp only [same, beq_iff_eq, Bool.false_eq_true] at h ⊢
  · exact h.symm
  · exact h.symm
  · rwa [Double.same_comm]
  · exact h.symm
  · exact h.symm
  · exact h.symm
  · exact Json.same_symm h
  · exact sameItems_symm h

theorem sameItems_symm {as bs : List Value} (h : sameItems as bs) : sameItems bs as := by
  cases as <;> cases bs <;> simp only [sameItems, Bool.and_eq_true, Bool.false_eq_true] at h ⊢
  exact ⟨same_symm h.1, sameItems_symm h.2⟩

end

mutual

theorem same_trans {a b c : Value} (hab : a.same b) (hbc : b.same c) : a.same c := by
  cases a <;> cases b <;> simp only [same, beq_iff_eq, Bool.false_eq_true] at hab <;>
    cases c <;> simp only [same, beq_iff_eq, Bool.false_eq_true] at hbc ⊢
  · exact hab.trans hbc
  · exact hab.trans hbc
  · exact Double.same_trans hab hbc
  · exact hab.trans hbc
  · exact hab.trans hbc
  · exact hab.trans hbc
  · exact Json.same_trans hab hbc
  · exact sameItems_trans hab hbc
termination_by structural a

theorem sameItems_trans {as bs cs : List Value} (hab : sameItems as bs) (hbc : sameItems bs cs) :
    sameItems as cs := by
  cases as <;> cases bs <;> simp only [sameItems, Bool.and_eq_true, Bool.false_eq_true] at hab <;>
    cases cs <;> simp only [sameItems, Bool.and_eq_true, Bool.false_eq_true] at hbc ⊢
  exact ⟨same_trans hab.1 hbc.1, sameItems_trans hab.2 hbc.2⟩
termination_by structural as

end

/-- Whether values are equal or compare as the same.  Every value is in this sense the same as
itself. -/
def SameAs (a b : Value) : Prop := a = b ∨ a.same b

variable {a b c : Value}

theorem SameAs.refl (a : Value) : a.SameAs a := .inl rfl

theorem SameAs.symm (h : a.SameAs b) : b.SameAs a := h.imp Eq.symm same_symm

theorem SameAs.trans (hab : a.SameAs b) (hbc : b.SameAs c) : a.SameAs c := by
  obtain rfl | hab := hab
  · exact hbc
  · obtain rfl | hbc := hbc
    · exact .inr hab
    · exact .inr (same_trans hab hbc)

theorem sameAs_of_sameItems {as bs : List Value} (h : sameItems as bs) {i : Nat}
    (ha : as[i]? = some a) (hb : bs[i]? = some b) : a.SameAs b := by
  induction as generalizing bs i with
  | nil => cases ha
  | cons x xs ih =>
    cases bs with
    | nil => cases hb
    | cons y ys =>
      simp only [sameItems, Bool.and_eq_true] at h
      cases i with
      | zero =>
        cases ha
        cases hb
        exact .inr h.1
      | succ i => exact ih h.2 ha hb

/-- Values that are the same have the same elements. -/
theorem SameAs.expand (h : a.SameAs b) {i : Nat} {x y : Value} (hx : a.expand[i]? = some x)
    (hy : b.expand[i]? = some y) : x.SameAs y := by
  obtain rfl | h := h
  · exact .inl (Option.some.inj (hx.symm.trans hy))
  · have single (same : sameItems [a] [b]) (ha : a.expand = [a]) (hb : b.expand = [b]) :
        x.SameAs y := sameAs_of_sameItems same (ha ▸ hx) (hb ▸ hy)
    cases a <;> cases b <;> first
      | exact single (by rw [sameItems, h]; rfl) rfl rfl
      | (rw [same] at h; exact sameAs_of_sameItems h hx hy)
      | simp [same] at h

end Value

end SqlAlgebra
