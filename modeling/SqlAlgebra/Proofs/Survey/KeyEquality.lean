import SqlAlgebra.Proofs.Survey.Likeness
import SqlAlgebra.Proofs.Survey.Lockstep
import SqlAlgebra.Proofs.Tree.Coherence

/-!
# When keys are equal

Two trees have the same key exactly when they unfold to the same shape, with the same of all that a
key shows, and their FROM elements, labels and bound parameters correspond one to one.
-/

namespace SqlAlgebra.Node

open Survey (Entered Walked ordinals slots)

variable {a b m n : Node} {bound : Nat} {key key' : Key} {s t : Survey}

theorem isBind_of_isTracked (h : n.isTracked) (ho : n.hasOrdinal = false) :
    ∃ p, n.kind = .bind p := by
  unfold isTracked at h
  rw [ho, Bool.false_or] at h
  split at h
  · exact ⟨_, ‹_›⟩
  · cases h

theorem within_of_key? (h : (n.surveyed bound).buffer.key? = some key) :
    Survey.Within key (n.surveyed bound) := by
  unfold KeyBuffer.key? at h
  split at h
  · cases h
  · next fits =>
    have written : (n.surveyed bound).written = key := Option.some.inj h
    exact ⟨Bool.eq_false_iff.2 fits, ⟨[], by rw [written, List.append_nil]⟩⟩

/-- What was read of two trees whose surveys went in lockstep holds at all their places. -/
theorem entered_of_beside (hm : m.IsCoherent) (hn : n.IsCoherent)
    (advance : Survey.Advance m n (.start bound) (.start bound) s t)
    (walked : Walked (ordinals s t) (slots s t) m n) (h : Beside m n a b) :
    Entered (ordinals s t) (slots s t) a b := by
  have entered {a b : Node} (ha : Occurs a m) (hb : Occurs b n)
      (walked : Walked (ordinals s t) (slots s t) a b) :
      Entered (ordinals s t) (slots s t) a b := by
    cases walked with
    | again _ _ ho =>
      -- an element that was met before is the element that was entered then
      obtain none | ⟨c, d, hc, hd, eq, entered⟩ := advance.entered _ ho
      · cases none
      · obtain rfl := hm c a hc ha (congrArg Prod.fst eq)
        obtain rfl := hn d b hd hb (congrArg Prod.snd eq)
        exact entered
    | entered form ordinal slot children => exact ⟨form, ordinal, slot, children⟩
  induction h with
  | root => exact entered .root .root walked
  | child hab hc ih =>
    have hcd := Beside.child hab hc
    exact entered hcd.occurs_left hcd.occurs_right (ih.children _ _ hc)

theorem sameObjects_of_entered (hm : m.IsCoherent) (hn : n.IsCoherent) (hs : s.Tidy) (ht : t.Tidy)
    (h : ∀ {a b : Node}, Beside m n a b → Entered (ordinals s t) (slots s t) a b) :
    SameObjects m n := by
  rintro a b c d ⟨hab, ha, hb⟩ ⟨hcd, hc, hd⟩
  have ea := h hab
  have ec := h hcd
  have left (eq : a.id = c.id) : a = c := hm _ _ hab.occurs_left hcd.occurs_left eq
  have right (eq : b.id = d.id) : b = d := hn _ _ hab.occurs_right hcd.occurs_right eq
  cases hoa : a.hasOrdinal <;> cases hoc : c.hasOrdinal
  · obtain ⟨p, hp⟩ := isBind_of_isTracked ha hoa
    obtain ⟨q, hq⟩ := isBind_of_isTracked hc hoc
    exact Survey.zip_nodup hs.binds ht.binds (ea.slot p hp) (ec.slot q hq)
  · constructor
    · intro eq
      rw [left eq, hoc] at hoa
      cases hoa
    · intro eq
      rw [ea.form.hasOrdinal, right eq, ← ec.form.hasOrdinal, hoc] at hoa
      cases hoa
  · constructor
    · intro eq
      rw [left eq, hoc] at hoa
      cases hoa
    · intro eq
      rw [ea.form.hasOrdinal, right eq, ← ec.form.hasOrdinal, hoc] at hoa
      cases hoa
  · exact Survey.zip_nodup hs.defined ht.defined (ea.ordinal hoa) (ec.ordinal hoc)

/-- Trees with the same key are alike. -/
theorem sameShape_of_key? (hm : m.IsCoherent) (hn : n.IsCoherent)
    (hk : (m.surveyed bound).buffer.key? = some key)
    (hk' : (n.surveyed bound).buffer.key? = some key) : SameShape m n ∧ SameObjects m n := by
  have start : Survey.Lockstep (.start bound) (.start bound) := ⟨rfl, rfl, rfl, rfl⟩
  obtain ⟨advance, walked⟩ :=
    Survey.inStep_of_occurs .root .root start (within_of_key? hk) (within_of_key? hk')
  have entered {a b : Node} (h : Beside m n a b) := entered_of_beside hm hn advance walked h
  refine ⟨fun _ _ h => (entered h).form, sameObjects_of_entered hm hn ?_ ?_ entered⟩
  · exact (Survey.tidy_start bound).survey m
  · exact (Survey.tidy_start bound).survey n

theorem key?_of_sameShape (shape : SameShape m n) (objects : SameObjects m n) (bound : Nat) :
    (m.surveyed bound).buffer.key? = (n.surveyed bound).buffer.key? := by
  rw [((shape.correspondence objects).surveyed .root bound).buffer]

/-- Keys are equal exactly if the trees unfold to the same shape and their FROM elements, labels and
bound parameters correspond one to one. -/
theorem key_eq_iff_sameShape_sameObjects (hm : m.IsCoherent) (hn : n.IsCoherent)
    (hk : (m.surveyed bound).buffer.key? = some key)
    (hk' : (n.surveyed bound).buffer.key? = some key') :
    key = key' ↔ SameShape m n ∧ SameObjects m n := by
  constructor
  · rintro rfl
    exact sameShape_of_key? hm hn hk hk'
  · rintro ⟨shape, objects⟩
    rw [key?_of_sameShape shape objects, hk'] at hk
    exact (Option.some.inj hk).symm

section Sample

variable (i : Identity) (value : Int64)

def sampleTable : Node := ⟨i, .table ⟨"t", none, []⟩, .null, [], []⟩

def sampleColumn : Node := ⟨i + 1, .column "a" (some (sampleTable i)) false, .integer, [], []⟩

def sampleParam : Node :=
  ⟨i + 2, .bind ⟨some "a", .integer value, true, false, false⟩, .integer, [], []⟩

def sampleCriterion : Node :=
  ⟨i + 3, .binary (sampleColumn i) .eq (sampleParam i value), .boolean, [], []⟩

/-- The column `a` of the table `t` where it has a value, with identities from `i` on. -/
def sampleSelect : Node :=
  ⟨i + 4, .select ⟨[sampleColumn i], [sampleTable i], some (sampleCriterion i value), [], none, [],
    none, none, false, true⟩, .null, [], []⟩

def sampleParts : List Node :=
  [sampleTable i, sampleColumn i, sampleParam i value, sampleCriterion i value,
    sampleSelect i value]

theorem mem_sampleParts_of_child :
    ∀ x ∈ sampleParts i value, ∀ c ∈ x.children, c ∈ sampleParts i value := by
  simp [sampleParts, children, Kind.children, Select.children, sampleTable, sampleColumn,
    sampleParam, sampleCriterion, sampleSelect]

theorem mem_sampleParts {x : Node} (hx : Occurs x (sampleSelect i value)) :
    x ∈ sampleParts i value :=
  mem_of_occurs (by simp [sampleParts]) (mem_sampleParts_of_child i value) hx

theorem isCoherent_sampleSelect : (sampleSelect i value).IsCoherent := by
  refine isCoherent_of_list (sampleParts i value) (by simp [sampleParts])
    (mem_sampleParts_of_child i value) ?_
  simp [sampleParts, sampleTable, sampleColumn, sampleParam, sampleCriterion, sampleSelect]

end Sample

theorem key_eq_iff_sampleSelect :
    ∃ key key', ((sampleSelect 0 1).surveyed 100).buffer.key? = some key ∧
      ((sampleSelect 5 2).surveyed 100).buffer.key? = some key' ∧
        (key = key' ↔ SameShape (sampleSelect 0 1) (sampleSelect 5 2) ∧
          SameObjects (sampleSelect 0 1) (sampleSelect 5 2)) := by
  obtain ⟨key, hk⟩ := Option.isSome_iff_exists.1
    (show ((sampleSelect 0 1).surveyed 100).buffer.key?.isSome = true by decide +kernel)
  obtain ⟨key', hk'⟩ := Option.isSome_iff_exists.1
    (show ((sampleSelect 5 2).surveyed 100).buffer.key?.isSome = true by decide +kernel)
  exact ⟨key, key', hk, hk', key_eq_iff_sameShape_sameObjects (isCoherent_sampleSelect 0 1)
    (isCoherent_sampleSelect 5 2) hk hk'⟩

end SqlAlgebra.Node
