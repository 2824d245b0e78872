import SqlAlgebra.Proofs.Survey.Coverage
import SqlAlgebra.Proofs.Survey.Likeness

/-!
# What surveys report

What was reported about a node is taken down where the node is met first.  So trees in which all
nodes correspond one to one, with the same reports, have the same reports in the same order.
-/

namespace SqlAlgebra

open List (Forall₂)
open Node

/-- A correspondence that matches all nodes one to one, with what was reported about them. -/
structure Node.FullCorrespondence (R : Node → Node → Prop) : Prop extends Correspondence R where
  identities : ∀ {a b c d : Node}, R a b → R c d → (a.id = c.id ↔ b.id = d.id)
  reports : ∀ {a b : Node}, R a b → a.diagnostics = b.diagnostics

namespace Survey

variable {R : Node → Node → Prop} {s t : Survey} {a b : Node} {xs ys : List Mark}

/-- Surveys that met corresponding nodes in the same order and have the same reports. -/
structure Alongside (R : Node → Node → Prop) (s t : Survey) : Prop where
  visited : Forall₂ (fun i j => ∃ a b, R a b ∧ a.id = i ∧ b.id = j) s.visited t.visited
  diagnostics : s.diagnostics = t.diagnostics

/-- What neither visits a node nor reports anything leaves surveys alongside. -/
theorem Alongside.of_eq {s' t' : Survey} (h : Alongside R s t) (hs : s'.visited = s.visited)
    (ht : t'.visited = t.visited) (hs' : s'.diagnostics = s.diagnostics)
    (ht' : t'.diagnostics = t.diagnostics) : Alongside R s' t' := by
  refine ⟨?_, ?_⟩
  · rw [hs, ht]
    exact h.visited
  · rw [hs', ht', h.diagnostics]

theorem Alongside.contains_iff (hR : FullCorrespondence R) (h : Alongside R s t) (hab : R a b) :
    a.id ∈ s.visited ↔ b.id ∈ t.visited := by
  have visited := h.visited
  generalize s.visited = seen at visited
  generalize t.visited = seen' at visited
  induction visited with
  | nil => simp
  | cons same _ ih =>
    obtain ⟨c, d, hcd, rfl, rfl⟩ := same
    rw [List.mem_cons, List.mem_cons]
    exact or_congr (hR.identities hab hcd) ih

theorem Alongside.visit (hR : FullCorrespondence R) (h : Alongside R s t) (hab : R a b) :
    Alongside R (s.visit a) (t.visit b) := by
  unfold Survey.visit
  by_cases known : a.id ∈ s.visited
  · have known' : b.id ∈ t.visited := (h.contains_iff hR hab).1 known
    rw [if_pos (List.contains_iff_mem.2 known), if_pos (List.contains_iff_mem.2 known')]
    exact h
  · have unknown' : b.id ∉ t.visited := fun mem => known ((h.contains_iff hR hab).2 mem)
    rw [if_neg fun mem => known (List.contains_iff_mem.1 mem),
      if_neg fun mem => unknown' (List.contains_iff_mem.1 mem)]
    refine ⟨.cons ⟨a, b, hab, rfl, rfl⟩ h.visited, ?_⟩
    show s.diagnostics ++ a.diagnostics = t.diagnostics ++ b.diagnostics
    rw [h.diagnostics, hR.reports hab]

theorem Alongside.entered (hR : FullCorrespondence R) (h : Alongside R s t) (hab : R a b) :
    Alongside R (s.entered a) (t.entered b) := by
  unfold Survey.entered
  rw [← (hR.like hab).hasOrdinal]
  refine Alongside.of_eq (Alongside.visit hR ?_ hab) rfl rfl rfl rfl
  split
  · exact h.of_eq rfl rfl rfl rfl
  · exact h

theorem Alongside.takeAll (hR : FullCorrespondence R) (like : Like R s t) (h : Alongside R s t)
    (marks : Forall₂ (Mark.Like R) xs ys)
    (child : ∀ c, .child c ∈ xs → ∀ {s t : Survey} {d : Node}, Like R s t → Alongside R s t →
      R c d → Alongside R (survey s c) (survey t d)) :
    Alongside R (s.takeAll xs) (t.takeAll ys) := by
  induction marks generalizing s t with
  | nil => exact h
  | @cons x y xs ys hxy marks ih =>
    -- one mark alone, for both surveys
    have one : Like R (s.takeAll [x]) (t.takeAll [y]) :=
      like.takeAll hR.toCorrespondence (.cons hxy .nil)
        fun c _ _ _ _ like hcd => like.survey hR.toCorrespondence hcd
    rw [takeAll_cons, takeAll_cons]
    refine ih one ?_ fun c hc => child c (List.mem_cons_of_mem _ hc)
    have other (hx : ∀ c, x ≠ .child c) (hy : ∀ c, y ≠ .child c) :
        Alongside R (s.take x) (t.take y) := by
      obtain ⟨-, -, visited, -, diagnostics⟩ := has_take s hx
      obtain ⟨-, -, visited', -, diagnostics'⟩ := has_take t hy
      exact h.of_eq visited visited' diagnostics diagnostics'
    cases hxy with
    | child hab => exact child _ List.mem_cons_self like h hab
    | put | name | anonymous | slot => exact other nofun nofun

/-- Surveys of trees that correspond fully go on alongside. -/
theorem Alongside.survey (hR : FullCorrespondence R) (like : Like R s t) (h : Alongside R s t)
    (hab : R a b) : Alongside R (survey s a) (survey t b) := by
  induction a using Node.induct generalizing s t b with
  | step a ih =>
    have same := hR.like hab
    have tracked (ho : a.hasOrdinal = true) : a.isTracked = true := by
      rw [isTracked, ho]
      rfl
    have inside : Alongside R ((s.entered a).takeAll a.marks) ((t.entered b).takeAll b.marks) :=
      (h.entered hR hab).takeAll hR (like.entered hR.toCorrespondence hab) (same.marks hab)
        fun c hc _ _ _ like h hcd => ih c (mem_children_of_mark hc) like h hcd
    rw [survey_eq, survey_eq, ← same.hasOrdinal]
    by_cases ho : a.hasOrdinal = true
    · rw [if_pos ho, if_pos ho, like.ordinal? hR.toCorrespondence hab (tracked ho)]
      cases t.ordinal? b with
      | some i => exact h.of_eq rfl rfl rfl rfl
      | none => exact inside
    · rw [if_neg ho, if_neg ho]
      exact inside

end Survey

/-- Trees that correspond fully have the same reports. -/
theorem Node.FullCorrespondence.diagnostics_eq {R : Node → Node → Prop} {m n : Node}
    (hR : FullCorrespondence R) (h : R m n) (bound : Nat) :
    (m.surveyed bound).diagnostics = (n.surveyed bound).diagnostics :=
  (Survey.Alongside.survey hR (.start bound) ⟨.nil, rfl⟩ h).diagnostics

end SqlAlgebra
