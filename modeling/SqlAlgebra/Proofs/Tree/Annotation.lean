import SqlAlgebra.Proofs.Tree.Sharing

/-!
# Trees without annotations

Taking the annotations off a tree copies the nodes that have some and the nodes above them.  The
copies are put together as the originals were: a node that stands at several places is copied once,
and different nodes have different copies.
-/

namespace SqlAlgebra.Node

variable {K H : Heap} {low next' : Identity} {n x y out : Node} {f : Node → Node}

/-- What a node with these children is changed to when its annotations are taken off. -/
def bared? (n : Node) (news : List Node) : Option Node :=
  match n.withChildren? news with
  | none => if n.annotations.isEmpty then none else some { n with annotations := [] }
  | some changed => some { changed with annotations := [] }

/-- Taking the annotations off goes over the tree and replaces nothing. -/
theorem deepDeannotate_eq (n : Node) :
    n.deepDeannotate =
      transform (fun _ => pure none) (fun n news => liftM (finishWith bared? n news)) n [] () >>=
        fun done => pure done.1.1 := by
  have strip : (fun (n : Node) (news : List Node) =>
      (match n.withChildren? news with
        | none => n.deannotate
        | some changed => Build.copy { changed with annotations := [] } :
          StateT Unit Build Node)) = fun n news => liftM (finishWith bared? n news) := by
    funext n news
    unfold finishWith bared? deannotate
    cases n.withChildren? news with
    | some changed => rfl
    | none =>
      dsimp only
      by_cases bare : n.annotations.isEmpty = true
      · rw [if_pos bare, if_pos bare]
      · rw [if_neg bare, if_neg bare]
  unfold deepDeannotate
  rw [← strip]
  rfl

theorem reuses_bared : Reuses bared? := by
  intro n news m length changed c hc
  unfold bared? at changed
  cases inner : n.withChildren? news with
  | some m' =>
    rw [inner] at changed
    cases changed
    exact reuses_withChildren length inner c hc
  | none =>
    rw [inner] at changed
    dsimp only at changed
    by_cases bare : n.annotations.isEmpty = true
    · rw [if_pos bare] at changed
      cases changed
    · rw [if_neg bare] at changed
      cases changed
      exact .inr hc

/-- Whether a map takes the nodes of a tree to nodes without annotations.  A node stays itself if it
has none and its children stay themselves, and new nodes have the identities from `low` on. -/
structure Strips (low : Identity) (n : Node) (f : Node → Node) : Prop where
  image : ∀ x, Occurs x n →
    f x = { x with id := (f x).id, kind := x.kind.refill (x.children.map f), annotations := [] }
  kept : ∀ x, Occurs x n → x.annotations = [] → (∀ c ∈ x.children, f c = c) → f x = x
  fresh : ∀ x, Occurs x n → f x = x ∨ low ≤ (f x).id
  apart : ∀ x y, Occurs x n → Occurs y n → (f x).id = (f y).id → x = y

theorem Strips.annotations (h : Strips low n f) (hx : Occurs x n) : (f x).annotations = [] := by
  rw [h.image x hx]

theorem Strips.children (h : Strips low n f) (hx : Occurs x n) :
    (f x).children = x.children.map f := by
  rw [h.image x hx]
  exact Kind.children_refill (List.length_map _)

/-- What stands in a tree without annotations comes from a node of the tree before. -/
theorem Strips.exists_of_occurs (h : Strips low n f) (hy : Occurs y (f n)) :
    ∃ x, Occurs x n ∧ y = f x := by
  have below {m : Node} (hm : Occurs m n) (hy : Occurs y (f m)) : ∃ x, Occurs x n ∧ y = f x := by
    generalize hr : f m = r at hy
    induction hy generalizing m with
    | root => exact ⟨m, hm, hr.symm⟩
    | deeper hc _ ih =>
      rw [← hr, h.children hm] at hc
      obtain ⟨c, mem, rfl⟩ := List.mem_map.1 hc
      exact ih (.trans (.deeper mem .root) hm) rfl
  exact below .root hy

/-- A part of a tree in which there are no annotations stays the same. -/
theorem Strips.untouched (h : Strips low n f) (hx : Occurs x n)
    (bare : ∀ y, Occurs y x → y.annotations = []) : f x = x := by
  induction x using Node.induct with
  | step x ih =>
    refine h.kept x hx (bare x .root) fun c hc => ?_
    exact ih c hc (.trans (.deeper hc .root) hx) fun y hy => bare y (.deeper hc hy)

/-- A map that says what became of nodes for which nothing was given. -/
theorem Outcomes.strips {log : List Offer} (h : Outcomes bared? low log f)
    (left : ∀ x, Occurs x n → (x, none) ∈ log) : Strips low n f := by
  have child {x c : Node} (hx : Occurs x n) (hc : c ∈ x.children) : Occurs c n :=
    .trans (.deeper hc .root) hx
  have same_iff {x : Node} (hx : Occurs x n) :
      sameAll (x.children.map f) x.children = true ↔ ∀ c ∈ x.children, f c = c :=
    h.sameAll_iff fun c hc => ⟨none, left c (child hx hc)⟩
  have image {x : Node} (hx : Occurs x n) :
      f x = { x with id := (f x).id, kind := x.kind.refill (x.children.map f), annotations := [] } ∧
        (x.annotations = [] → (∀ c ∈ x.children, f c = c) → f x = x) := by
    by_cases same : sameAll (x.children.map f) x.children = true
    · have itself : x.children.map f = x.children := by
        rw [List.map_congr_left ((same_iff hx).1 same), List.map_id']
      have unchanged : x.withChildren? (x.children.map f) = none := by
        rw [withChildren?, if_pos same]
      rw [itself, Node.children, Kind.refill_children]
      obtain ⟨none, eq⟩ | ⟨m, some, -, eq⟩ := (h.finished (left x hx)).cases_of_map
      · rw [bared?, unchanged] at none
        dsimp only at none
        by_cases bare : x.annotations.isEmpty = true
        · rw [eq]
          refine ⟨?_, fun _ _ => rfl⟩
          rcases x with ⟨id, kind, type, annotations, diagnostics⟩
          obtain rfl : annotations = [] := List.isEmpty_iff.1 bare
          rfl
        · rw [if_neg bare] at none
          cases none
      · rw [bared?, unchanged] at some
        dsimp only at some
        by_cases bare : x.annotations.isEmpty = true
        · rw [if_pos bare] at some
          cases some
        · rw [if_neg bare] at some
          cases some
          exact ⟨eq, fun none => absurd (List.isEmpty_iff.2 none) bare⟩
    · have changed : bared? x (x.children.map f) =
          some { x with kind := x.kind.refill (x.children.map f), annotations := [] } := by
        rw [bared?, withChildren?, if_neg same]
      obtain ⟨none, -⟩ | ⟨m, some, -, eq⟩ := (h.finished (left x hx)).cases_of_map
      · rw [changed] at none
        cases none
      · rw [changed] at some
        cases some
        exact ⟨eq, fun _ all => absurd ((same_iff hx).2 all) same⟩
  refine ⟨fun x hx => (image hx).1, fun x hx => (image hx).2,
    fun x hx => (h.finished (left x hx)).itself_or_new, fun x y hx hy => ?_⟩
  exact h.apart (left x hx) (left y hy)

/-- The annotations of a tree can be taken off, and what comes of it stands in a valid heap. -/
theorem exists_strips (hK : K.Valid low) (hn : K n) :
    ∃ next' f, n.deepDeannotate low = .ok (f n, next') ∧ Strips low n f ∧
      ∃ H : Heap, H.Valid next' ∧ H (f n) := by
  have answers : Answers (fun _ _ => True)
      (fun _ => pure none : Node → StateT Unit Build (Option Node)) :=
    ⟨fun _ _ _ _ _ => trivial, fun _ _ _ _ _ => .pure ⟨nofun, trivial⟩⟩
  cases run : transform (fun _ => pure none) (fun n news => liftM (finishWith bared? n news)) n [] ()
      low with
  | error e =>
    obtain ⟨log, x, s', i', -, fails⟩ := breaks_of_transform run
    cases fails
  | ok done =>
    obtain ⟨⟨⟨out, memo⟩, ⟨⟩⟩, next'⟩ := done
    obtain ⟨log, f, calls, -, nodup, offered, outcomes, rfl, H, valid, hout⟩ :=
      exists_outcomes hK hn answers reuses_bared trivial run
    have never {x : Node} {o : Option Node} (hx : (x, o) ∈ log) : o = none := by
      obtain ⟨s₀, i₀, s₁, i₁, call⟩ := calls.answered hx
      cases call
      rfl
    have left {x : Node} (hx : Occurs x n) : (x, none) ∈ log := by
      obtain ⟨o, mem⟩ := (offered x).2 <| .of_occurs hx fun y ⟨r, hr⟩ => nomatch never hr
      exact never mem ▸ mem
    refine ⟨next', f, ?_, outcomes.strips fun x => left, H, valid, hout⟩
    rw [deepDeannotate_eq]
    exact Build.bind_run run

end SqlAlgebra.Node
