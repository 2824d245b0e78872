import SqlAlgebra.Proofs.Survey.Coverage
import SqlAlgebra.Proofs.Tree.Coherence
import SqlAlgebra.Proofs.Tree.Mapping
import SqlAlgebra.Proofs.Tree.Offers

/-!
# The order of a survey

A survey goes from a node to its children in the order of their places.  What it visits are the
nodes of the tree in the order in which their places are come to, each node once, and it takes down
what was reported about them in this order.  An element that has an ordinal is not gone into again,
and any other node is, but all below a node that is met again has been visited by then: nothing that
a survey is still busy with can be met again, since it lies above.
-/

namespace SqlAlgebra

open Node

namespace Node

variable {x n : Node}

/-- The nodes of a tree at all their places, each before those below it. -/
def places (n : Node) : List Node := n.walk fun _ => false

theorem places_eq (n : Node) : n.places = n :: n.children.flatMap places := walk_eq_of_goes rfl

/-- The nodes of a tree, each at the first of its places. -/
def nodes (n : Node) : List Node := distinctOutside [] n.places

theorem mem_places_iff : x ∈ n.places ↔ Occurs x n := by
  rw [places, mem_walk_iff]
  refine ⟨Met.occurs, fun h => ?_⟩
  induction h with
  | root => exact .root
  | deeper hc _ ih => exact .deeper Bool.false_ne_true hc ih

end Node

namespace Survey

variable {s t u : Survey} {root n : Node} {ns ms : List Node} {marks : List Mark} {b : Nat}

/-- Whether a later survey visited some nodes more, and took down what was reported about them. -/
structure Gains (s : Survey) (ns : List Node) (t : Survey) : Prop where
  visited : t.visited = (ns.map Node.id).reverse ++ s.visited
  diagnostics : t.diagnostics = s.diagnostics ++ ns.flatMap Node.diagnostics

theorem Gains.refl (s : Survey) : s.Gains [] s := ⟨rfl, (List.append_nil _).symm⟩

theorem Gains.trans (h : s.Gains ns t) (h' : t.Gains ms u) : s.Gains (ns ++ ms) u := by
  constructor
  · rw [h'.visited, h.visited, List.map_append, List.reverse_append, List.append_assoc]
  · rw [h'.diagnostics, h.diagnostics, List.flatMap_append, List.append_assoc]

theorem Gains.mem_iff (h : s.Gains ns t) {i : Identity} :
    i ∈ t.visited ↔ i ∈ ns.map Node.id ++ s.visited := by
  rw [h.visited, List.mem_append, List.mem_append, List.mem_reverse]

/-- After the nodes that some places hold come those that further places hold. -/
theorem Gains.append (h : s.Gains (distinctOutside s.visited ns) t)
    (h' : t.Gains (distinctOutside t.visited ms) u) :
    s.Gains (distinctOutside s.visited (ns ++ ms)) u := by
  rw [distinctOutside_append, distinctOutside_congr fun m _ => h.mem_iff.symm]
  exact h.trans h'

/-- Whether all below the visited nodes of a tree that are small enough was visited. -/
def Closed (root : Node) (b : Nat) (s : Survey) : Prop :=
  ∀ y, Occurs y root → sizeOf y < b → y.id ∈ s.visited → ∀ x, Occurs x y → x.id ∈ s.visited

theorem Closed.of_gains (h : s.Closed root b) (coherent : root.IsCoherent) (hn : Occurs n root)
    (gains : s.Gains (distinctOutside s.visited n.places) t) : t.Closed root b := by
  have ids (a c : Node) (ha : a ∈ n.places) (hc : c ∈ n.places) (same : a.id = c.id) : a = c :=
    coherent a c ((mem_places_iff.1 ha).trans hn) ((mem_places_iff.1 hc).trans hn) same
  have below {x : Node} (hx : Occurs x n) : x.id ∈ t.visited := by
    rw [gains.mem_iff, List.mem_append]
    by_cases known : x.id ∈ s.visited
    · exact .inr known
    · exact .inl (List.mem_map_of_mem ((mem_distinctOutside_iff fun a ha c hc => ids a c ha hc).2
        ⟨mem_places_iff.2 hx, known⟩))
  intro y hy small met x hx
  rw [gains.mem_iff, List.mem_append] at met
  obtain new | known := met
  · obtain ⟨z, hz, same⟩ := List.mem_map.1 new
    have hz := mem_places_iff.1 (mem_of_mem_distinctOutside hz)
    obtain rfl := coherent z y (hz.trans hn) hy same
    exact below (hx.trans hz)
  · rw [gains.mem_iff]
    exact List.mem_append_right _ (h y hy small known x hx)

theorem gains_takeAll (coherent : root.IsCoherent) (hs : s.defined ⊆ s.visited)
    (closed : s.Closed root b) (inside : ∀ c, .child c ∈ marks → Occurs c root)
    (child : ∀ (c : Node) (s : Survey), .child c ∈ marks → s.defined ⊆ s.visited →
      s.Closed root b → s.Gains (distinctOutside s.visited c.places) (survey s c)) :
    s.Gains (distinctOutside s.visited ((marks.filterMap Mark.child?).flatMap places))
      (s.takeAll marks) := by
  induction marks generalizing s with
  | nil => exact .refl s
  | cons mark marks ih =>
    have rest {t : Survey} (ht : t.defined ⊆ t.visited) (closed : t.Closed root b) :=
      ih ht closed (fun c hc => inside c (List.mem_cons_of_mem _ hc))
        fun c s hc => child c s (List.mem_cons_of_mem _ hc)
    rw [takeAll_cons]
    by_cases hc : ∃ c, mark = .child c
    · obtain ⟨c, rfl⟩ := hc
      have first := child c s List.mem_cons_self hs closed
      have hc := inside c List.mem_cons_self
      rw [List.filterMap_cons_some (by rfl), List.flatMap_cons]
      exact first.append (rest (covers_survey coherent hc hs).2.defined
        (closed.of_gains coherent hc first))
    · obtain ⟨-, -, visited, defined, diagnostics⟩ := has_take s fun c h => hc ⟨c, h⟩
      have noChild : mark.child? = none := by
        cases mark with
        | child c => exact absurd ⟨c, rfl⟩ hc
        | _ => rfl
      have same : s.Gains [] (s.take mark) :=
        ⟨visited, diagnostics.trans (List.append_nil _).symm⟩
      rw [List.filterMap_cons_none noChild]
      have later := rest (t := s.take mark) (by rw [visited, defined]; exact hs)
        (by unfold Closed; rw [visited]; exact closed)
      rw [visited] at later
      exact same.trans later

/-- A survey goes into a node unless the node has an ordinal already. -/
theorem survey_eq_entered (first : n.hasOrdinal = true → n.id ∉ s.defined) :
    survey s n = (s.entered n).takeAll n.marks := by
  have unknown : (if n.hasOrdinal then s.ordinal? n else none) = none := by
    split
    · next has =>
      by_contra known
      obtain ⟨ordinal, known⟩ := Option.ne_none_iff_exists'.1 known
      obtain ⟨j, hj, -⟩ := ordinal?_eq_some known
      exact first has (List.mem_of_getElem? hj)
    · rfl
  rw [survey_eq, unknown]

/-- A node that is met again adds nothing: all below it was visited. -/
theorem gains_push (hn : Occurs n root) (small : sizeOf n < b) (closed : s.Closed root b)
    (known : n.id ∈ s.visited) (e : KeyElement) :
    s.Gains (distinctOutside s.visited n.places) (s.push e) := by
  rw [distinctOutside_eq_nil fun x hx => closed n hn small known x (mem_places_iff.1 hx)]
  exact ⟨rfl, (List.append_nil _).symm⟩

theorem gains_visit (s : Survey) (n : Node) :
    s.Gains (distinctOutside s.visited [n]) (s.visit n) := by
  by_cases known : n.id ∈ s.visited
  · rw [distinctOutside_eq_nil (by simpa using known)]
    have same : s.visit n = s := if_pos (List.contains_iff_mem.2 known)
    rw [same]
    exact .refl s
  · rw [distinctOutside_cons_of_notMem known]
    refine ⟨?_, ?_⟩
    · unfold visit
      rw [if_neg (by simpa using known)]
      rfl
    · rw [diagnostics_visit known]
      simp [distinctOutside]

theorem gains_entered (s : Survey) (n : Node) :
    s.Gains (distinctOutside s.visited [n]) (s.entered n) := by
  unfold entered
  split
  · exact ⟨(gains_visit (s.define n) n).visited, (gains_visit (s.define n) n).diagnostics⟩
  · exact ⟨(gains_visit s n).visited, (gains_visit s n).diagnostics⟩

/-- What lies above a node that is gone into is left aside: it is not smaller. -/
theorem Closed.entered (closed : s.Closed root b) (coherent : root.IsCoherent)
    (hn : Occurs n root) (small : sizeOf n < b) : (s.entered n).Closed root (sizeOf n) := by
  intro y hy smaller met x hx
  rw [mem_visited_entered_iff] at met ⊢
  obtain same | known := met
  · obtain rfl := coherent y n hy hn same
    exact absurd smaller (Nat.lt_irrefl _)
  · exact .inr (closed y hy (Nat.lt_trans smaller small) known x hx)

/-- A survey of a node visits what is new among the nodes at the places of the tree, in the order of
the places. -/
theorem gains_survey (coherent : root.IsCoherent) (hn : Occurs n root)
    (hs : s.defined ⊆ s.visited) (small : sizeOf n < b) (closed : s.Closed root b) :
    s.Gains (distinctOutside s.visited n.places) (survey s n) := by
  induction n using Node.induct generalizing s b with
  | step n ih =>
    rw [survey_eq]
    split
    · next ordinal known =>
      refine gains_push hn small closed ?_ _
      split at known
      · obtain ⟨j, hj, -⟩ := ordinal?_eq_some known
        exact hs (List.mem_of_getElem? hj)
      · cases known
    · have inside (c : Node) (hc : .child c ∈ n.marks) : Occurs c root :=
        .trans (.deeper (mem_children_of_mark hc) .root) hn
      have below := gains_takeAll coherent (defined_entered_subset hs)
        (closed.entered coherent hn small) inside fun c s hc hs closed =>
          ih c (mem_children_of_mark hc) (inside c hc) hs
            (sizeOf_child (mem_children_of_mark hc)) closed
      rw [← children_eq_marks] at below
      rw [places_eq]
      exact (gains_entered s n).append below

end Survey

namespace Node

variable {x n : Node}

/-- A survey of a coherent tree visits each node of it once, in the order of the places, and takes
down what was reported about the nodes in this order. -/
theorem gains_surveyed (coherent : n.IsCoherent) (bound : Nat) :
    (Survey.start bound).Gains n.nodes (n.surveyed bound) :=
  Survey.gains_survey coherent .root (fun _ h => absurd h List.not_mem_nil) (Nat.lt_succ_self _)
    fun _ _ _ h => absurd h List.not_mem_nil

theorem mem_nodes_iff (coherent : n.IsCoherent) : x ∈ n.nodes ↔ Occurs x n := by
  rw [nodes, mem_distinctOutside_iff fun a ha b hb =>
    coherent a b (mem_places_iff.1 ha) (mem_places_iff.1 hb), mem_places_iff]
  exact and_iff_left List.not_mem_nil

/-- The children of a node, its places and its marks agree.  A callback is called for the children
in their order: where it fails, all fails, where it gives the children themselves, nothing is given,
and otherwise the node is given with the results as its children and with nothing else changed.  It
is in this way that a tree is transformed.  A survey that goes into a node goes to its children in
their order, and so it visits the distinct nodes of a tree in the order of their places. -/
theorem traversals_agree (n : Node) :
    (∀ (σ : Type) (f : Node → StateT σ Build Node) (s : σ) (i : Identity),
      (∀ e, n.children.mapM f s i = .error e → n.mapChildren? f s i = .error e) ∧
        ∀ news s' i', n.children.mapM f s i = .ok ((news, s'), i') →
          (news.map id = n.children.map id → n.mapChildren? f s i = .ok ((none, s'), i')) ∧
            (news.map id ≠ n.children.map id → ∃ out, n.mapChildren? f s i =
              .ok ((some out, s'), i') ∧ out.children = news ∧ out.kind.outline = n.kind.outline ∧
                out.type = n.type ∧ out.annotations = n.annotations ∧
                  out.diagnostics = n.diagnostics)) ∧
      (∀ (σ : Type) (offer : Node → StateT σ Build (Option Node))
        (settle : Node → Option Node → StateT σ Build Node) (memo : Memo),
        transform offer (fun n news => settle n (n.withChildren? news)) n memo =
          (match memo.lookup n.id with
          | some done => pure (done, memo)
          | none => do
            match ← offer n with
            | some replacement => pure (replacement, (n.id, replacement) :: memo)
            | none => do
              let (changed?, memo) ← (n.mapChildren? (transforming offer fun n news =>
                settle n (n.withChildren? news))).run memo
              let out ← settle n changed?
              pure (out, (n.id, out) :: memo))) ∧
      (∀ s : Survey, (n.hasOrdinal = true → n.id ∉ s.defined) →
        survey s n = (s.entered n).takeAll n.marks ∧
          n.marks.filterMap Mark.child? = n.children) ∧
      (n.IsCoherent → (n.nodes.map id).Nodup ∧ (∀ x, x ∈ n.nodes ↔ Occurs x n) ∧
        ∀ bound, (n.surveyed bound).visited.reverse = n.nodes.map id ∧
          (n.surveyed bound).diagnostics = n.nodes.flatMap Node.diagnostics) := by
  refine ⟨fun σ f s i => ⟨fun e run => mapChildren?_error run, fun news s' i' run =>
      ⟨mapChildren?_same run, mapChildren?_other run⟩⟩,
    fun σ offer settle memo => transform_eq settle n memo,
    fun s first => ⟨Survey.survey_eq_entered first, (children_eq_marks n).symm⟩,
    fun coherent => ⟨nodup_distinctOutside, fun x => mem_nodes_iff coherent, fun bound => ?_⟩⟩
  have gains := gains_surveyed coherent bound
  constructor
  · rw [gains.visited, List.reverse_append, List.reverse_reverse]
    rfl
  · rw [gains.diagnostics]
    rfl

section Sample

def sampleNoted (i : Identity) (sql : String) : Node :=
  ⟨i, .text sql, .null, [], [⟨.implicitCoercion, sql, .whereHaving⟩]⟩

/-- A list in which one text stands before and after another. -/
def sampleThrice : Node :=
  ⟨2, .clauseList .and [sampleNoted 0 "a", sampleNoted 1 "b", sampleNoted 0 "a"], .boolean, [], []⟩

theorem isCoherent_sampleThrice : sampleThrice.IsCoherent := by
  refine isCoherent_of_list [sampleNoted 0 "a", sampleNoted 1 "b", sampleThrice] ?_ ?_ ?_
  · simp
  · simp [children, Kind.children, sampleNoted, sampleThrice]
  · simp [sampleNoted, sampleThrice]

/-- A text that stands in a list twice is called back for twice, and is visited once. -/
theorem traversals_agree_sampleThrice :
    sampleThrice.mapChildren? (pure : Node → StateT Unit Build Node) () 9 = .ok ((none, ()), 9) ∧
      (∃ out, sampleThrice.mapChildren?
        (fun _ => pure (sampleNoted 1 "b") : Node → StateT Unit Build Node) () 9 =
          .ok ((some out, ()), 9) ∧ out.children = List.replicate 3 (sampleNoted 1 "b")) ∧
        (sampleThrice.surveyed 10).visited.reverse = [2, 0, 1] := by
  obtain ⟨calls, -, -, order⟩ := traversals_agree sampleThrice
  refine ⟨?_, ?_, ?_⟩
  · exact ((calls Unit pure () 9).2 sampleThrice.children () 9 rfl).1 rfl
  · obtain ⟨out, run, given, -⟩ := ((calls Unit (fun _ => pure (sampleNoted 1 "b")) () 9).2
      (List.replicate 3 (sampleNoted 1 "b")) () 9 rfl).2 (by decide)
    exact ⟨out, run, given⟩
  · obtain ⟨-, -, visits⟩ := order isCoherent_sampleThrice
    rw [(visits 10).1]
    simp [nodes, places_eq, children, Kind.children, sampleThrice, sampleNoted, distinctOutside]

end Sample

end Node

end SqlAlgebra
