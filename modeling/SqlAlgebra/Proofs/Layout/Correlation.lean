import Mathlib.Logic.Relation
import SqlAlgebra.Proofs.Layout.Sources
import SqlAlgebra.Proofs.Tree.Heap

/-!
# What a FROM list shows

The FROM list of a SELECT is described here without its filters: the FROM elements that its columns
and its criteria refer to and those that it lists, without the members of joins among them and
without what the statements around it provide.  An element that is left out as a member of a join is
still in scope, because some outermost join that contains it is either shown or provided from
outside, together with all its members.
-/

namespace SqlAlgebra

namespace Node

/-- Whether the FROM elements that a node refers to are those that its children refer to. -/
def looksInside (n : Node) : Bool :=
  match n.kind with
  | .column _ _ _ | .tableValued _ | .table _ | .alias _ _ | .subquery _ _ | .join _
  | .scalarSubquery _ | .select _ | .compound _ _ | .textualSelect _ _ | .labelReference _ => false
  | _ => true

/-- Whether an expression refers to a FROM element, by a column of it, by its whole row, or as it
stands.  References in nested statements and behind labels do not count. -/
inductive SourceOf (x : Node) : Node → Prop where
  | column {n : Node} {name : String} {isLiteral : Bool} :
      n.kind = .column name (some x) isLiteral → SourceOf x n
  | wholeRow {n : Node} : n.kind = .tableValued x → SourceOf x n
  | itself : x.isFromClause → SourceOf x x
  | inside {c n : Node} : n.looksInside → c ∈ n.children → SourceOf x c → SourceOf x n

variable {a b c n x y : Node} {ns : List Node} {seen : List Identity}

theorem mem_sources_iff : x ∈ n.sources ↔ x.SourceOf n := by
  constructor
  · intro h
    induction n using Node.induct with
    | step n ih =>
      have inside (hn : n.looksInside) (hx : x ∈ n.children.attach.flatMap fun c => c.1.sources) :
          x.SourceOf n := by
        obtain ⟨⟨c, hc⟩, -, hx⟩ := List.mem_flatMap.1 hx
        exact .inside hn hc (ih c hc hx)
      have itself (hn : n.isFromClause) (hx : x ∈ [n]) : x.SourceOf n := by
        obtain rfl := List.mem_singleton.1 hx
        exact .itself hn
      rw [Node.sources] at h
      rcases n with ⟨i, kind, type, annotations, diagnostics⟩
      cases kind with
      | column name source isLiteral =>
        obtain rfl := Option.mem_toList.1 h
        exact .column rfl
      | tableValued element =>
        obtain rfl := List.mem_singleton.1 h
        exact .wholeRow rfl
      | table | «alias» | subquery | join => exact itself rfl h
      | scalarSubquery | select | compound | textualSelect | labelReference => cases h
      | _ => exact inside rfl h
  · intro h
    induction h with
    | column hn =>
      rw [Node.sources, hn]
      exact List.mem_singleton_self x
    | wholeRow hn =>
      rw [Node.sources, hn]
      exact List.mem_singleton_self x
    | itself hx =>
      rw [Node.sources]
      rcases x with ⟨i, kind, type, annotations, diagnostics⟩
      cases kind <;> first | exact absurd hx Bool.false_ne_true | exact List.mem_singleton_self _
    | @inside c n hn hc _ ih =>
      have mem : x ∈ n.children.attach.flatMap fun c => c.1.sources :=
        List.mem_flatMap.2 ⟨⟨c, hc⟩, List.mem_attach _ _, ih⟩
      rw [Node.sources]
      rcases n with ⟨i, kind, type, annotations, diagnostics⟩
      cases kind <;> first | exact absurd hn Bool.false_ne_true | exact mem

theorem SourceOf.occurs (h : x.SourceOf n) : Occurs x n := by
  induction h with
  | column hn => exact .deeper (by rw [children, hn]; exact List.mem_singleton_self _) .root
  | wholeRow hn => exact .deeper (by rw [children, hn]; exact List.mem_singleton_self _) .root
  | itself _ => exact .root
  | inside _ hc _ ih => exact .deeper hc ih

/-- Whether a node is the left or the right side of a join. -/
def SideOf (x n : Node) : Prop := ∃ j : Join Node, n.kind = .join j ∧ (x = j.left ∨ x = j.right)

/-- Whether a node is a member of a join, at any depth. -/
def MemberOf : Node → Node → Prop := Relation.TransGen SideOf

theorem SideOf.mem_children (h : x.SideOf n) : x ∈ n.children := by
  obtain ⟨j, hn, rfl | rfl⟩ := h
  · rw [children, hn]
    exact List.mem_cons_self
  · rw [children, hn]
    exact List.mem_cons_of_mem _ List.mem_cons_self

theorem MemberOf.occurs (h : x.MemberOf n) : Occurs x n := by
  induction h with
  | single hx => exact .deeper hx.mem_children .root
  | tail _ hn ih => exact .deeper hn.mem_children ih

/-- A member of a join is smaller than the join, so going outwards in a statement ends. -/
theorem MemberOf.sizeOf_lt (h : x.MemberOf n) : sizeOf x < sizeOf n := by
  induction h with
  | single hx => exact sizeOf_child hx.mem_children
  | tail _ hn ih => exact Nat.lt_trans ih (sizeOf_child hn.mem_children)

theorem mem_innerMembers_iff : x ∈ n.innerMembers ↔ x.MemberOf n := by
  constructor
  · intro h
    induction n using Node.induct with
    | step n ih =>
      have side {y : Node} (hy : y.SideOf n) (hx : x ∈ y.members) : x.MemberOf n := by
        rw [Simulation.members_eq] at hx
        obtain rfl | hx := List.mem_cons.1 hx
        · exact .single hy
        · exact .tail (ih y hy.mem_children hx) hy
      unfold innerMembers at h
      split at h
      · next j hn =>
        obtain h | h := List.mem_append.1 h
        · exact side ⟨j, hn, .inl rfl⟩ h
        · exact side ⟨j, hn, .inr rfl⟩ h
      · cases h
  · intro h
    have side {x n : Node} (hx : x.SideOf n) {y : Node} (hy : y ∈ x.members) :
        y ∈ n.innerMembers := by
      obtain ⟨j, hn, rfl | rfl⟩ := hx
      · rw [innerMembers, hn]
        exact List.mem_append_left _ hy
      · rw [innerMembers, hn]
        exact List.mem_append_right _ hy
    induction h with
    | single hx => exact side hx (Simulation.members_eq _ ▸ List.mem_cons_self)
    | tail _ hn ih => exact side hn (Simulation.members_eq _ ▸ List.mem_cons_of_mem _ ih)

theorem mem_members_iff : x ∈ n.members ↔ x = n ∨ x.MemberOf n := by
  rw [Simulation.members_eq, List.mem_cons, mem_innerMembers_iff]

theorem mem_distinctOutside_iff (ids : ∀ a ∈ ns, ∀ b ∈ ns, a.id = b.id → a = b) :
    x ∈ distinctOutside seen ns ↔ x ∈ ns ∧ x.id ∉ seen := by
  induction ns generalizing seen with
  | nil => simp [distinctOutside]
  | cons n rest ih =>
    have ih {seen : List Identity} := @ih seen fun a ha b hb =>
      ids a (List.mem_cons_of_mem _ ha) b (List.mem_cons_of_mem _ hb)
    rw [distinctOutside]
    by_cases hn : n.id ∈ seen
    · rw [if_pos (List.contains_iff_mem.2 hn), ih, List.mem_cons]
      constructor
      · rintro ⟨hx, fresh⟩
        exact ⟨.inr hx, fresh⟩
      · rintro ⟨rfl | hx, fresh⟩
        · exact absurd hn fresh
        · exact ⟨hx, fresh⟩
    · rw [if_neg (fun h => hn (List.contains_iff_mem.1 h)), List.mem_cons, ih, List.mem_cons,
        List.mem_cons, not_or]
      constructor
      · rintro (rfl | ⟨hx, -, fresh⟩)
        · exact ⟨.inl rfl, hn⟩
        · exact ⟨.inr hx, fresh⟩
      · rintro ⟨rfl | hx, fresh⟩
        · exact .inl rfl
        · by_cases same : x.id = n.id
          · exact .inl (ids x (List.mem_cons_of_mem _ hx) n List.mem_cons_self same)
          · exact .inr ⟨hx, same, fresh⟩

theorem id_notMem_of_mem_distinctOutside (h : x ∈ distinctOutside seen ns) : x.id ∉ seen := by
  induction ns generalizing seen with
  | nil => cases h
  | cons n rest ih =>
    rw [distinctOutside] at h
    split at h
    · exact ih h
    · next fresh =>
      obtain rfl | h := List.mem_cons.1 h
      · exact fun hx => fresh (List.contains_iff_mem.2 hx)
      · exact fun hx => ih h (List.mem_cons_of_mem _ hx)

theorem nodup_distinctOutside : ((distinctOutside seen ns).map id).Nodup := by
  induction ns generalizing seen with
  | nil => exact List.nodup_nil
  | cons n rest ih =>
    rw [distinctOutside]
    split
    · exact ih
    · rw [List.map_cons, List.nodup_cons]
      refine ⟨fun h => ?_, ih⟩
      obtain ⟨x, hx, same⟩ := List.mem_map.1 h
      exact id_notMem_of_mem_distinctOutside hx (same ▸ List.mem_cons_self)

end Node

namespace Frame

/-- Whether a FROM element is in scope inside a statement. -/
def Provides (f : Frame) (x : Node) : Prop := x.id ∈ f.provides

/-- Whether a frame is that of a statement with FROM elements of a heap. -/
def Formed (K : Heap) (f : Frame) : Prop :=
  ∃ froms columns, (∀ x ∈ froms, K x) ∧ f = .ofSources froms columns

variable {K : Heap} {next : Identity} {f : Frame} {froms columns : List Node} {x y : Node}

theorem provides_ofSources_iff (heap : K.Valid next) (hf : ∀ y ∈ froms, K y) (hx : K x) :
    (ofSources froms columns).Provides x ↔ ∃ y ∈ froms, x = y ∨ x.MemberOf y := by
  unfold Provides ofSources
  simp only [List.mem_map, List.mem_flatMap]
  constructor
  · rintro ⟨z, ⟨y, hy, hz⟩, same⟩
    rw [Node.mem_members_iff] at hz
    have occurs : Node.Occurs z y := hz.elim (fun eq => eq ▸ .root) Node.MemberOf.occurs
    obtain rfl := heap.unique (heap.occurs (hf y hy) occurs) hx same
    exact ⟨y, hy, hz⟩
  · rintro ⟨y, hy, hx⟩
    exact ⟨x, ⟨y, hy, Node.mem_members_iff.2 hx⟩, rfl⟩

/-- With a join its members are in scope. -/
theorem Formed.member (heap : K.Valid next) (formed : f.Formed K) (hy : K y) (h : f.Provides y)
    (hx : x.MemberOf y) : f.Provides x := by
  obtain ⟨froms, columns, hf, rfl⟩ := formed
  rw [provides_ofSources_iff heap hf hy] at h
  rw [provides_ofSources_iff heap hf (heap.occurs hy hx.occurs)]
  obtain ⟨z, hz, rfl | outer⟩ := h
  · exact ⟨y, hz, .inr hx⟩
  · exact ⟨z, hz, .inr (.trans hx outer)⟩

end Frame

namespace Select

/-- Whether the columns or the criteria of a SELECT refer to a FROM element. -/
def RefersTo (s : Select Node) (x : Node) : Prop :=
  (∃ c ∈ s.columns, x.SourceOf c) ∨ ∃ c ∈ s.criteria, x.SourceOf c

/-- Whether a FROM element is found for a SELECT: it is referred to or listed. -/
def Finds (s : Select Node) (x : Node) : Prop := s.RefersTo x ∨ x ∈ s.froms

/-- Whether a node is a member of a join found for a SELECT. -/
def Joins (s : Select Node) (x : Node) : Prop := ∃ y, s.Finds y ∧ x.MemberOf y

/-- Whether a FROM element is found for a SELECT and is not a member of a join that is. -/
def Candidate (s : Select Node) (x : Node) : Prop := s.Finds x ∧ ¬ s.Joins x

/-- Whether a FROM element is left out of a SELECT because a statement around it provides it. -/
def LeavesOut (s : Select Node) (frames : List Frame) (x : Node) : Prop :=
  s.autoCorrelate ∧ ∃ f ∈ frames, f.Provides x

/-- The candidates that are not left out. -/
def remaining (s : Select Node) (frames : List Frame) : List Node :=
  s.candidates.filter fun n => !(s.autoCorrelate && frames.any fun f => f.provides.contains n.id)

/-- The candidates that remain are shown, unless candidates are left out and none remains. -/
theorem shownFroms_eq (s : Select Node) (frames : List Frame) :
    s.shownFroms frames =
      if s.autoCorrelate && !s.candidates.isEmpty && (s.remaining frames).isEmpty then
        .error .allCorrelated
      else .ok (s.remaining frames) := by
  unfold shownFroms remaining
  cases s.autoCorrelate with
  | false => simp
  | true =>
    cases frames with
    | nil => simp
    | cons f frames =>
      cases s.candidates with
      | nil => simp
      | cons n ns => simp

/-- What a SELECT shows as its FROM list inside statements with some frames. -/
structure Shows (s : Select Node) (frames : List Frame) (froms : List Node) : Prop where
  once : (froms.map Node.id).Nodup
  unjoined : ∀ x ∈ froms, ¬ s.Joins x
  provided : ∀ x, s.RefersTo x →
    (Frame.ofSources froms s.columns).Provides x ∨ s.LeavesOut frames x
  uncorrelated : ∀ x ∈ froms, ¬ s.LeavesOut frames x
  exact : ∀ x, x ∈ froms ↔ s.Candidate x ∧ ¬ s.LeavesOut frames x

section Heap

variable {K : Heap} {next : Identity} {n x y : Node} {s : Select Node} {frames : List Frame}
  {froms : List Node}

theorem Finds.occurs_child (h : s.Finds x) : ∃ c ∈ s.children, Node.Occurs x c := by
  obtain (⟨c, hc, hx⟩ | ⟨c, hc, hx⟩) | hx := h
  · exact ⟨c, by simp [children, hc], hx.occurs⟩
  · exact ⟨c, by simp [children, Option.mem_def.1 hc], hx.occurs⟩
  · exact ⟨x, by simp [children, hx], .root⟩

theorem Finds.sizeOf_lt (h : s.Finds x) : sizeOf x < sizeOf s := by
  obtain ⟨c, hc, hx⟩ := h.occurs_child
  exact Nat.lt_of_le_of_lt (Node.sizeOf_occurs hx) (sizeOf_child hc)

/-- Whatever is found is in scope with a candidate: it is one, or an outermost join around it is. -/
theorem Finds.exists_candidate {x : Node} (h : s.Finds x) :
    ∃ y, s.Candidate y ∧ (x = y ∨ x.MemberOf y) := by
  by_cases hx : s.Joins x
  · obtain ⟨y, hy, inner⟩ := hx
    -- The joins grow on the way outwards, and what is found is smaller than the statement.
    have larger := inner.sizeOf_lt
    have bound := hy.sizeOf_lt
    obtain ⟨z, hz, rfl | outer⟩ := hy.exists_candidate
    · exact ⟨y, hz, .inr inner⟩
    · exact ⟨z, hz, .inr (.trans inner outer)⟩
  · exact ⟨x, ⟨h, hx⟩, .inl rfl⟩
termination_by sizeOf s - sizeOf x

variable (heap : K.Valid next) (root : K n) (hn : n.kind = .select s)

include heap root hn

theorem Finds.mem_heap (h : s.Finds x) : K x := by
  obtain ⟨c, hc, hx⟩ := h.occurs_child
  exact heap.occurs root (.deeper (by rw [Node.children, hn]; exact hc) hx)

theorem mem_candidates_iff : x ∈ s.candidates ↔ s.Candidate x := by
  have found (x : Node) : x ∈ s.columns.flatMap Node.sources ++
      s.criteria.toList.flatMap Node.sources ++ s.froms ↔ s.Finds x := by
    simp only [List.mem_append, List.mem_flatMap, Node.mem_sources_iff, Option.mem_toList]
    rfl
  have mem {x : Node} (h : s.Finds x) : K x := h.mem_heap heap root hn
  unfold candidates
  dsimp only
  rw [Node.mem_distinctOutside_iff fun a ha b hb =>
    heap.unique (mem ((found a).1 ha)) (mem ((found b).1 hb)), found]
  refine and_congr_right fun hx => not_congr ?_
  simp only [List.mem_map, List.mem_flatMap, found, Node.mem_innerMembers_iff]
  constructor
  · rintro ⟨z, ⟨y, hy, hz⟩, same⟩
    obtain rfl := heap.unique (heap.occurs (mem hy) hz.occurs) (mem hx) same
    exact ⟨y, hy, hz⟩
  · rintro ⟨y, hy, inner⟩
    exact ⟨x, ⟨y, hy, inner⟩, rfl⟩

theorem mem_remaining_iff : x ∈ s.remaining frames ↔ s.Candidate x ∧ ¬ s.LeavesOut frames x := by
  rw [remaining, List.mem_filter, mem_candidates_iff heap root hn, LeavesOut]
  cases s.autoCorrelate <;> simp [Frame.Provides]

/-- None of the candidates remains exactly if the statements around provide them all. -/
theorem isEmpty_remaining_iff (on : s.autoCorrelate) : (s.remaining frames).isEmpty ↔
    ∀ x, s.Candidate x → ∃ f ∈ frames, f.Provides x := by
  rw [List.isEmpty_iff, List.eq_nil_iff_forall_not_mem]
  refine forall_congr' fun x => ?_
  rw [mem_remaining_iff heap root hn, LeavesOut, not_and_not_right]
  simp only [on, true_and]

/-- A list that shows the candidates which are not left out gives scope to all that is referred to.
-/
theorem shows_of_exact (around : ∀ f ∈ frames, f.Formed K) (once : (froms.map Node.id).Nodup)
    (exact : ∀ x, x ∈ froms ↔ s.Candidate x ∧ ¬ s.LeavesOut frames x) : s.Shows frames froms where
  once := once
  unjoined x hx := ((exact x).1 hx).1.2
  provided x hx := by
    have mem {x : Node} (h : s.Finds x) : K x := h.mem_heap heap root hn
    obtain ⟨y, hy, inner⟩ := Finds.exists_candidate (.inl hx)
    by_cases out : s.LeavesOut frames y
    · obtain ⟨on, f, hf, provides⟩ := out
      obtain rfl | inner := inner
      · exact .inr ⟨on, f, hf, provides⟩
      · exact .inr ⟨on, f, hf, (around f hf).member heap (mem hy.1) provides inner⟩
    · left
      rw [Frame.provides_ofSources_iff heap (fun z hz => mem ((exact z).1 hz).1.1) (mem (.inl hx))]
      exact ⟨y, (exact y).2 ⟨hy, out⟩, inner⟩
  uncorrelated x hx := ((exact x).1 hx).2
  exact := exact

/-- The FROM list of a SELECT, if it has one, shows what it should. -/
theorem shows_of_shownFroms (around : ∀ f ∈ frames, f.Formed K)
    (shown : s.shownFroms frames = .ok froms) : s.Shows frames froms := by
  have once : ((s.remaining frames).map Node.id).Nodup :=
    Node.nodup_distinctOutside.sublist (List.filter_sublist.map _)
  rw [shownFroms_eq] at shown
  split at shown
  · cases shown
  · cases shown
    exact shows_of_exact heap root hn around once fun x => mem_remaining_iff heap root hn

/-- The statements inside a SELECT stand in frames of the same heap again. -/
theorem Shows.formed_inside (h : s.Shows frames froms) (around : ∀ f ∈ frames, f.Formed K) :
    ∀ f ∈ Frame.ofSources froms s.columns :: frames, f.Formed K := by
  intro f hf
  obtain rfl | hf := List.mem_cons.1 hf
  · exact ⟨froms, s.columns, fun x hx => ((h.exact x).1 hx).1.1.mem_heap heap root hn, rfl⟩
  · exact around f hf

/-- A SELECT shows the FROM elements that it finds, each once, without members of joins and without
what the statements around it provide; all that it refers to is in scope.  It fails exactly if it
has candidates and the statements around it provide them all. -/
theorem shows_and_allCorrelated_iff (around : ∀ f ∈ frames, f.Formed K) :
    (∀ froms, s.shownFroms frames = .ok froms → s.Shows frames froms) ∧
      ∀ fault, s.shownFroms frames = .error fault ↔
        fault = .allCorrelated ∧ s.autoCorrelate ∧ (∃ x, s.Candidate x) ∧
          ∀ x, s.Candidate x → ∃ f ∈ frames, f.Provides x := by
  refine ⟨fun froms => shows_of_shownFroms heap root hn around, fun fault => ?_⟩
  have found : (!s.candidates.isEmpty) = true ↔ ∃ x, s.Candidate x := by
    simp only [Bool.not_eq_true', List.isEmpty_eq_false_iff_exists_mem,
      mem_candidates_iff heap root hn]
  rw [shownFroms_eq]
  split
  · next none =>
    rw [Bool.and_eq_true, Bool.and_eq_true, found] at none
    obtain ⟨⟨on, some⟩, empty⟩ := none
    constructor
    · rintro ⟨⟩
      exact ⟨rfl, on, some, (isEmpty_remaining_iff heap root hn on).1 empty⟩
    · rintro ⟨rfl, -⟩
      rfl
  · next left =>
    constructor
    · rintro ⟨⟩
    · rintro ⟨-, on, some, all⟩
      rw [Bool.and_eq_true, Bool.and_eq_true, found] at left
      exact absurd ⟨⟨on, some⟩, (isEmpty_remaining_iff heap root hn on).2 all⟩ left

end Heap

section Sample

def sampleElement (i : Identity) (name : String) : Node :=
  ⟨i, .table ⟨name, none, []⟩, .null, [], []⟩

def sampleReference (i : Identity) (element : Node) : Node :=
  ⟨i, .column "a" (some element) false, .integer, [], []⟩

def sampleCondition : Node := ⟨3, .truth true, .boolean, [], []⟩

/-- The tables `t` and `u` joined. -/
def sampleJoin : Node :=
  ⟨4, .join ⟨sampleElement 0 "t", sampleElement 1 "u", sampleCondition, .inner⟩, .null, [], []⟩

/-- A column of `t` from the join, with a criterion on a table `v` that is not listed. -/
def sampleInner : Select Node :=
  ⟨[sampleReference 5 (sampleElement 0 "t")], [sampleJoin],
    some (sampleReference 6 (sampleElement 2 "v")), [], none, [], none, none, false, true⟩

def sampleNodes : List Node :=
  [sampleElement 0 "t", sampleElement 1 "u", sampleElement 2 "v", sampleCondition, sampleJoin,
    sampleReference 5 (sampleElement 0 "t"), sampleReference 6 (sampleElement 2 "v"),
    ⟨7, .select sampleInner, .null, [], []⟩]

theorem valid_sampleNodes : Heap.Valid (· ∈ sampleNodes) 8 := by
  refine Heap.valid_of_list ?_ ?_ ?_
  · simp [sampleNodes, sampleInner, sampleJoin, sampleCondition, sampleReference, sampleElement,
      Node.children, Kind.children, Select.children]
  · simp [sampleNodes, sampleJoin, sampleCondition, sampleReference, sampleElement]
  · simp [sampleNodes, sampleJoin, sampleCondition, sampleReference, sampleElement]

/-- Inside a statement that provides `v` only the join is shown. -/
theorem shows_sampleInner :
    ∃ froms, sampleInner.shownFroms [.ofSources [sampleElement 2 "v"] []] = .ok froms ∧
      froms.map Node.id = [4] ∧
        sampleInner.Shows [.ofSources [sampleElement 2 "v"] []] froms := by
  have around : ∀ f ∈ [Frame.ofSources [sampleElement 2 "v"] []], f.Formed (· ∈ sampleNodes) := by
    intro f hf
    obtain rfl := List.mem_singleton.1 hf
    exact ⟨_, _, by simp [sampleNodes], rfl⟩
  have spec := shows_and_allCorrelated_iff (n := ⟨7, .select sampleInner, .null, [], []⟩)
    (s := sampleInner) valid_sampleNodes (by simp [sampleNodes]) rfl around
  have shown : (sampleInner.shownFroms [.ofSources [sampleElement 2 "v"] []]).toOption.map
      (List.map Node.id) = some [4] := by
    decide +kernel
  cases eq : sampleInner.shownFroms [.ofSources [sampleElement 2 "v"] []] with
  | error fault =>
    rw [eq] at shown
    cases shown
  | ok froms =>
    rw [eq] at shown
    exact ⟨froms, rfl, Option.some.inj shown, spec.1 froms eq⟩

end Sample

end Select

end SqlAlgebra
