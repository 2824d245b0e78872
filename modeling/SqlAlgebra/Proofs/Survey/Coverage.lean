import SqlAlgebra.Proofs.Survey.Lockstep

/-!
# What a survey covers

A survey goes into an element that it numbers only once, and takes down what was reported about a
node only where it meets the node first.  In a coherent tree nothing is missed by that: when a
survey is over, every node of the tree was visited, and what was reported about it, its identifiers
and its slot were taken down.  And nothing else was: what a survey has is of a node of the tree.
-/

namespace SqlAlgebra

open Node

namespace Survey

variable {s t u : Survey} {root n x : Node} {mark : Mark} {marks : List Mark}

theorem mem_identifiers_of_mem {name : String} (h : name ∈ s.identifiers) (ident : String) :
    name ∈ (s.identifier ident).identifiers := by
  show name ∈ if s.identifiers.contains ident then s.identifiers else ident :: s.identifiers
  split
  · exact h
  · exact List.mem_cons_of_mem _ h

theorem mem_identifiers_identifier (s : Survey) (ident : String) :
    ident ∈ (s.identifier ident).identifiers := by
  show ident ∈ if s.identifiers.contains ident then s.identifiers else ident :: s.identifiers
  split
  · next known => exact List.contains_iff_mem.1 known
  · exact List.mem_cons_self

theorem identifiers_slotted (s : Survey) (n : Node) :
    (s.slotted n).identifiers = s.identifiers := by
  unfold slotted
  split <;> rfl

/-- Whether a survey has what a mark says. -/
def Has (s : Survey) : Mark → Prop
  | .name ident => ident ∈ s.identifiers
  | .slot n => n.id ∈ s.binds.map Node.id
  | .child n => n.id ∈ s.visited
  | _ => True

/-- Whether a survey has all that a node says. -/
structure Records (s : Survey) (n : Node) : Prop where
  diagnostics : n.diagnostics ⊆ s.diagnostics
  marks : ∀ mark ∈ n.marks, s.Has mark

/-- Whether a later survey has all that an earlier one had. -/
structure Keeps (s t : Survey) : Prop where
  visited : s.visited ⊆ t.visited
  diagnostics : s.diagnostics ⊆ t.diagnostics
  identifiers : s.identifiers ⊆ t.identifiers
  binds : s.binds.map Node.id ⊆ t.binds.map Node.id

namespace Keeps

theorem refl (s : Survey) : s.Keeps s := ⟨fun _ h => h, fun _ h => h, fun _ h => h, fun _ h => h⟩

theorem trans (h : s.Keeps t) (h' : t.Keeps u) : s.Keeps u :=
  ⟨fun _ hx => h'.visited (h.visited hx), fun _ hx => h'.diagnostics (h.diagnostics hx),
    fun _ hx => h'.identifiers (h.identifiers hx), fun _ hx => h'.binds (h.binds hx)⟩

theorem push (h : s.Keeps t) (e : KeyElement) : s.Keeps (t.push e) :=
  ⟨h.visited, h.diagnostics, h.identifiers, h.binds⟩

theorem has (h : s.Keeps t) (hs : s.Has mark) : t.Has mark := by
  cases mark with
  | name ident => exact h.identifiers hs
  | slot n => exact h.binds hs
  | child n => exact h.visited hs
  | _ => trivial

theorem records (h : s.Keeps t) (hs : s.Records n) : t.Records n :=
  ⟨fun _ hd => h.diagnostics (hs.diagnostics hd), fun mark hm => h.has (hs.marks mark hm)⟩

theorem slotted (s : Survey) (n : Node) : s.Keeps (s.slotted n) := by
  unfold Survey.slotted
  split
  · exact (refl s).push _
  · refine ⟨fun _ h => h, fun _ h => h, fun _ h => h, fun i hi => ?_⟩
    show i ∈ (s.binds ++ [n]).map Node.id
    rw [List.map_append]
    exact List.mem_append_left _ hi

theorem identifier (s : Survey) (ident : String) : s.Keeps (s.identifier ident) :=
  ⟨fun _ h => h, fun _ h => h, fun _ h => mem_identifiers_of_mem h ident, fun _ h => h⟩

theorem visit (s : Survey) (n : Node) : s.Keeps (s.visit n) := by
  unfold Survey.visit
  split
  · exact .refl s
  · exact ⟨fun _ h => List.mem_cons_of_mem _ h, fun _ h => List.mem_append_left _ h, fun _ h => h,
      fun _ h => h⟩

end Keeps

theorem mem_visited_visit (s : Survey) (n : Node) : n.id ∈ (s.visit n).visited := by
  unfold visit
  split
  · next known => exact List.contains_iff_mem.1 known
  · exact List.mem_cons_self

theorem mem_of_mem_visited_visit {i : Identity} (h : i ∈ (s.visit n).visited) :
    i = n.id ∨ i ∈ s.visited := by
  unfold visit at h
  split at h
  · exact .inr h
  · exact List.mem_cons.1 h

/-- What was reported about a node is taken down where the node is met first. -/
theorem diagnostics_visit (h : n.id ∉ s.visited) :
    (s.visit n).diagnostics = s.diagnostics ++ n.diagnostics := by
  unfold visit
  rw [if_neg (by simpa using h)]

/-! ### Coming to a node -/

theorem keeps_entered (s : Survey) (n : Node) : s.Keeps (s.entered n) := by
  have defined : s.Keeps (if n.hasOrdinal then s.define n else s) := by
    split
    · exact ⟨fun _ h => h, fun _ h => h, fun _ h => h, fun _ h => h⟩
    · exact .refl s
  exact (defined.trans (.visit _ n)).push _

theorem mem_visited_entered_iff {i : Identity} :
    i ∈ (s.entered n).visited ↔ i = n.id ∨ i ∈ s.visited := by
  constructor
  · intro h
    refine (mem_of_mem_visited_visit h).imp_right fun h => ?_
    split at h <;> exact h
  · rintro (rfl | h)
    · exact mem_visited_visit _ n
    · exact (keeps_entered s n).visited h

theorem defined_entered_subset (hs : s.defined ⊆ s.visited) :
    (s.entered n).defined ⊆ (s.entered n).visited := by
  intro i hi
  rw [mem_visited_entered_iff]
  have hi : i ∈ ((if n.hasOrdinal then s.define n else s).visit n).defined := hi
  rw [visit_defined] at hi
  split at hi
  · exact (List.mem_cons.1 hi).imp_right fun known => hs known
  · exact .inr (hs hi)

theorem diagnostics_entered (h : n.id ∉ s.visited) :
    (s.entered n).diagnostics = s.diagnostics ++ n.diagnostics := by
  show ((if n.hasOrdinal then s.define n else s).visit n).diagnostics = _
  split
  · exact diagnostics_visit (s := s.define n) h
  · exact diagnostics_visit h

theorem mem_binds_slotted_self (s : Survey) (n : Node) :
    n.id ∈ (s.slotted n).binds.map Node.id := by
  unfold slotted
  cases found : s.slot? n with
  | some slot => exact List.mem_of_getElem? (slot?_eq_some found)
  | none =>
    show n.id ∈ (s.binds ++ [n]).map Node.id
    rw [List.map_append]
    exact List.mem_append_right _ List.mem_cons_self

/-- A mark that is no child is taken down at once, without visiting anything. -/
theorem has_take (s : Survey) (h : ∀ c, mark ≠ .child c) :
    s.Keeps (s.take mark) ∧ (s.take mark).Has mark ∧ (s.take mark).visited = s.visited ∧
      (s.take mark).defined = s.defined ∧ (s.take mark).diagnostics = s.diagnostics := by
  cases mark with
  | put e => exact ⟨(Keeps.refl s).push e, trivial, rfl, rfl, rfl⟩
  | name ident => exact ⟨.identifier s ident, mem_identifiers_identifier s ident, rfl, rfl, rfl⟩
  | anonymous =>
    exact ⟨⟨fun _ h => h, fun _ h => h, fun _ h => h, fun _ h => h⟩, trivial, rfl, rfl, rfl⟩
  | slot n =>
    refine ⟨.slotted s n, mem_binds_slotted_self s n, ?_⟩
    show (s.slotted n).visited = s.visited ∧ (s.slotted n).defined = s.defined ∧
      (s.slotted n).diagnostics = s.diagnostics
    unfold slotted
    split <;> exact ⟨rfl, rfl, rfl⟩
  | child n => exact absurd rfl (h n)

/-- Whether what a survey visited between two times was recorded by the later one. -/
structure Covers (root : Node) (s t : Survey) : Prop extends s.Keeps t where
  defined : t.defined ⊆ t.visited
  closed : ∀ ⦃x : Node⦄, Occurs x root → x.id ∈ t.visited → x.id ∈ s.visited ∨ t.Records x

theorem Covers.refl (h : s.defined ⊆ s.visited) : Covers root s s :=
  ⟨.refl s, h, fun _ _ => .inl⟩

theorem Covers.trans (h : Covers root s t) (h' : Covers root t u) : Covers root s u := by
  refine ⟨h.toKeeps.trans h'.toKeeps, h'.defined, fun x hx hid => ?_⟩
  obtain hid | recorded := h'.closed hx hid
  · exact (h.closed hx hid).imp_right h'.toKeeps.records
  · exact .inr recorded

/-- Marks are taken down one after another. -/
theorem covers_takeAll (hs : s.defined ⊆ s.visited)
    (child : ∀ c s, .child c ∈ marks → s.defined ⊆ s.visited →
      c.id ∈ (survey s c).visited ∧ Covers root s (survey s c)) :
    Covers root s (s.takeAll marks) ∧ ∀ mark ∈ marks, (s.takeAll marks).Has mark := by
  induction marks generalizing s with
  | nil => exact ⟨.refl hs, fun _ h => absurd h List.not_mem_nil⟩
  | cons mark marks ih =>
    have first : Covers root s (s.take mark) ∧ (s.take mark).Has mark := by
      by_cases hc : ∃ c, mark = .child c
      · obtain ⟨c, rfl⟩ := hc
        obtain ⟨mem, covers⟩ := child c s List.mem_cons_self hs
        exact ⟨covers, mem⟩
      · obtain ⟨keeps, has, visited, defined, -⟩ := has_take s fun c h => hc ⟨c, h⟩
        refine ⟨⟨keeps, ?_, fun x _ hid => .inl (visited ▸ hid)⟩, has⟩
        rw [visited, defined]
        exact hs
    obtain ⟨covers, rest⟩ := ih first.1.defined fun c s hc =>
      child c s (List.mem_cons_of_mem _ hc)
    refine ⟨first.1.trans covers, fun m hm => ?_⟩
    obtain rfl | hm := List.mem_cons.1 hm
    · exact covers.toKeeps.has first.2
    · exact rest m hm

theorem covers_survey (coherent : root.IsCoherent) (hn : Occurs n root)
    (hs : s.defined ⊆ s.visited) :
    n.id ∈ (survey s n).visited ∧ Covers root s (survey s n) := by
  induction n using Node.induct generalizing s with
  | step n ih =>
    rw [survey_eq]
    split
    · next ordinal known =>
      refine ⟨?_, (Keeps.refl s).push _, hs, fun _ _ => .inl⟩
      split at known
      · obtain ⟨j, hj, -⟩ := ordinal?_eq_some known
        exact hs (List.mem_of_getElem? hj)
      · cases known
    · -- the node is visited before its children, so that they find it defined
      obtain ⟨covers, has⟩ := covers_takeAll (defined_entered_subset hs)
        fun c s (hc : .child c ∈ n.marks) hs => ih c (mem_children_of_mark hc)
          (.trans (.deeper (mem_children_of_mark hc) .root) hn) hs
      refine ⟨covers.visited (mem_visited_entered_iff.2 (.inl rfl)),
        (keeps_entered s n).trans covers.toKeeps, covers.defined, fun x hx hid => ?_⟩
      obtain hid | recorded := covers.closed hx hid
      · obtain hid | before := mem_visited_entered_iff.1 hid
        · obtain rfl := coherent x n hx hn hid
          by_cases met : x.id ∈ s.visited
          · exact .inl met
          · refine .inr ⟨fun d hd => covers.diagnostics ?_, has⟩
            rw [diagnostics_entered met]
            exact List.mem_append_right _ hd
        · exact .inl before
      · exact .inr recorded

/-- Whether what a survey has is of nodes of a tree. -/
structure From (root : Node) (s : Survey) : Prop where
  diagnostics : ∀ d ∈ s.diagnostics, ∃ x, Occurs x root ∧ d ∈ x.diagnostics
  identifiers : ∀ ident ∈ s.identifiers, ∃ x, Occurs x root ∧ .name ident ∈ x.marks

theorem From.takeAll (h : From root s) (hn : Occurs n root) (sub : ∀ mark ∈ marks, mark ∈ n.marks)
    (child : ∀ c s, .child c ∈ marks → From root s → From root (Node.survey s c)) :
    From root (s.takeAll marks) := by
  refine keeps_takeAll (fun mark hm s hs => ?_) h
  by_cases hc : ∃ c, mark = .child c
  · obtain ⟨c, rfl⟩ := hc
    exact child c s hm hs
  · refine ⟨?_, fun ident hi => ?_⟩
    · obtain ⟨-, -, -, -, diagnostics⟩ := has_take s fun c h => hc ⟨c, h⟩
      rw [diagnostics]
      exact hs.diagnostics
    · cases mark with
      | name name =>
        have hi : ident ∈ if s.identifiers.contains name then s.identifiers
          else name :: s.identifiers := hi
        split at hi
        · exact hs.identifiers ident hi
        · obtain rfl | hi := List.mem_cons.1 hi
          · exact ⟨n, hn, sub _ hm⟩
          · exact hs.identifiers ident hi
      | slot x => exact hs.identifiers ident (identifiers_slotted s x ▸ hi)
      | child c => exact absurd ⟨c, rfl⟩ hc
      | _ => exact hs.identifiers ident hi

theorem From.visit (h : From root s) (hn : Occurs n root) : From root (s.visit n) := by
  unfold Survey.visit
  split
  · exact h
  · refine ⟨fun d hd => ?_, h.identifiers⟩
    obtain hd | hd := List.mem_append.1 hd
    · exact h.diagnostics d hd
    · exact ⟨n, hn, hd⟩

theorem From.push (h : From root s) (e : KeyElement) : From root (s.push e) :=
  ⟨h.diagnostics, h.identifiers⟩

theorem From.survey (h : From root s) (hn : Occurs n root) : From root (survey s n) := by
  refine keeps_over (fun s e h => h.push e) (fun s n hn _ h => From.push (From.visit ?_ hn) _)
    (fun s n hn h below => h.takeAll hn (fun _ h => h) fun c s hc => below c hc s) hn h
  split
  · exact ⟨h.diagnostics, h.identifiers⟩
  · exact h

end Survey

namespace Node

variable {n x : Node} {bound : Nat}

/-- A survey of a coherent tree has all that the nodes of the tree say. -/
theorem records_of_occurs (coherent : n.IsCoherent) (hx : Occurs x n) (bound : Nat) :
    (n.surveyed bound).Records x := by
  obtain ⟨root, covers⟩ := Survey.covers_survey (s := .start bound) coherent .root
    fun _ h => absurd h List.not_mem_nil
  have each {y : Node} (hy : Occurs y n) (hid : y.id ∈ (n.surveyed bound).visited) :
      (n.surveyed bound).Records y :=
    (covers.closed hy hid).resolve_left List.not_mem_nil
  have reached {y : Node} (hxy : Occurs x y) (hy : Occurs y n)
      (hid : y.id ∈ (n.surveyed bound).visited) : (n.surveyed bound).Records x := by
    induction hxy with
    | root => exact each hy hid
    | @deeper d y hd _ ih =>
      refine ih (.trans (.deeper hd .root) hy) ((each hy hid).marks (.child d) ?_)
      rw [children_eq_marks] at hd
      obtain ⟨mark, hm, hd⟩ := List.mem_filterMap.1 hd
      cases mark <;> simp only [Mark.child?, Option.some.injEq, reduceCtorEq] at hd
      exact hd ▸ hm
  exact reached hx .root root

theorem from_surveyed (n : Node) (bound : Nat) : Survey.From n (n.surveyed bound) :=
  Survey.From.survey ⟨fun _ h => absurd h List.not_mem_nil, fun _ h => absurd h List.not_mem_nil⟩
    .root

/-- What a survey reports is what was reported about the nodes of the tree. -/
theorem mem_diagnostics_iff (coherent : n.IsCoherent) {d : Diagnostic} :
    d ∈ (n.surveyed bound).diagnostics ↔ ∃ x, Occurs x n ∧ d ∈ x.diagnostics := by
  constructor
  · exact (from_surveyed n bound).diagnostics d
  · rintro ⟨x, hx, hd⟩
    exact (records_of_occurs coherent hx bound).diagnostics hd

/-- The identifiers of a survey are the names among the marks of the nodes of the tree. -/
theorem mem_identifiers_iff (coherent : n.IsCoherent) {ident : String} :
    ident ∈ (n.surveyed bound).identifiers ↔ ∃ x, Occurs x n ∧ .name ident ∈ x.marks := by
  constructor
  · exact (from_surveyed n bound).identifiers ident
  · rintro ⟨x, hx, hi⟩
    exact (records_of_occurs coherent hx bound).marks _ hi

/-- Every bound parameter of a coherent tree has a slot. -/
theorem exists_slot (coherent : n.IsCoherent) (hx : Occurs x n) {p : BindParam}
    (kind : x.kind = .bind p) : ∃ slot, (n.surveyed bound).slot? x = some slot := by
  have mem : x.id ∈ (n.surveyed bound).binds.map Node.id := by
    refine (records_of_occurs coherent hx bound).marks (.slot x) ?_
    rw [marks, kind]
    exact List.mem_cons_self
  cases found : (n.surveyed bound).slot? x with
  | some slot => exact ⟨slot, rfl⟩
  | none => exact absurd mem (Survey.slot?_eq_none found)

end Node

end SqlAlgebra
