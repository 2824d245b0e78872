import SqlAlgebra.Proofs.Tree.Likeness

/-!
# FROM lists of trees that are alike

A simulation relates the places of two trees so that whatever decides a FROM list is the same on
both sides: which FROM elements coincide, which of them a join contains, and which an enclosing
statement provides.
-/

namespace SqlAlgebra

open List (Forall₂)
open Node

/-- Trees that are rendered alike.  `R` relates all places, `S` those where a FROM element is
expected and `T` the targets of changes.  FROM elements, labels and bound parameters correspond one
to one, and so does whatever stands in a FROM position, also where the target of a change provides
it. -/
structure Simulation (R S T : Node → Node → Prop) : Prop where
  like : ∀ {a b : Node}, R a b → a.Like R S T b
  fromPlace : ∀ {a b : Node}, S a b → R a b
  target : ∀ {a b : Node}, T a b → R a b
  tracked : ∀ {a b c d : Node}, R a b → R c d → a.isTracked → (a.id = c.id ↔ b.id = d.id)
  places : ∀ {a b c d : Node}, S a b → S c d → (a.id = c.id ↔ b.id = d.id)
  provided : ∀ {a b c d : Node}, S a b → T c d → (a.id = c.id ↔ b.id = d.id)

/-- The places whose identity counts in a FROM list. -/
def Placed (R S : Node → Node → Prop) (a b : Node) : Prop := S a b ∨ R a b ∧ a.isTracked

namespace Simulation

variable {R S T : Node → Node → Prop} {a b c d : Node}

theorem of_placed (h : Simulation R S T) (hab : Placed R S a b) : R a b :=
  hab.elim h.fromPlace (·.1)

theorem identity (h : Simulation R S T) (hab : Placed R S a b) (hcd : Placed R S c d ∨ T c d) :
    a.id = c.id ↔ b.id = d.id := by
  obtain hS | ⟨hR, ha⟩ := hab
  · obtain (hS' | ⟨hR', hc⟩) | hT := hcd
    · exact h.places hS hS'
    · rw [eq_comm, h.tracked hR' (h.fromPlace hS) hc, eq_comm]
    · exact h.provided hS hT
  · obtain hcd | hT := hcd
    · exact h.tracked hR (h.of_placed hcd) ha
    · exact h.tracked hR (h.target hT) ha

theorem likeAll (h : Simulation R S T) (hab : R a b) : a.Like R R R b :=
  (h.like hab).mono (fun _ _ h => h) (fun _ _ => h.fromPlace) fun _ _ => h.target

theorem flatMap_forall₂ {α β γ δ : Type} {P : α → β → Prop} {Q : γ → δ → Prop} {xs : List α}
    {ys : List β} {f : α → List γ} {g : β → List δ} (h : Forall₂ P xs ys)
    (hfg : ∀ x ∈ xs, ∀ y, P x y → Forall₂ Q (f x) (g y)) :
    Forall₂ Q (xs.flatMap f) (ys.flatMap g) := by
  induction h with
  | nil => exact .nil
  | @cons x y xs ys hxy _ ih =>
    rw [List.flatMap_cons, List.flatMap_cons]
    exact List.rel_append (hfg x List.mem_cons_self y hxy)
      (ih fun x hx => hfg x (List.mem_cons_of_mem _ hx))

theorem sources (h : Simulation R S T) (hab : R a b) :
    Forall₂ (Placed R S) a.sources b.sources := by
  induction a using Node.induct generalizing b with
  | step a ih =>
    have attached (n : Node) :
        (n.children.attach.flatMap fun c => c.1.sources) = n.children.flatMap Node.sources := by
      rw [List.flatMap_def, List.flatMap_def, List.attach_map_val]
    have below : Forall₂ (Placed R S) (a.children.attach.flatMap fun c => c.1.sources)
        (b.children.attach.flatMap fun c => c.1.sources) := by
      rw [attached, attached]
      exact flatMap_forall₂ (h.likeAll hab).kind.children fun c hc d hcd => ih c hc hcd
    have itself : a.isTracked → Forall₂ (Placed R S) [a] [b] :=
      fun ha => .cons (.inr ⟨hab, ha⟩) .nil
    have like := h.like hab
    rw [Node.sources, Node.sources]
    rcases a with ⟨i, k, type, annotations, diagnostics⟩
    rcases b with ⟨i', k', type', annotations', diagnostics'⟩
    cases like.kind with
    | column _ _ hs =>
      cases hs with
      | none => exact .nil
      | some hs => exact .cons (.inl hs) .nil
    | tableValued hs => exact .cons (.inl hs) .nil
    | table | «alias» | subquery | join => exact itself rfl
    | scalarSubquery | select | compound | textualSelect | labelReference => exact .nil
    | _ => exact below

theorem members_eq (n : Node) : n.members = n :: n.innerMembers := by
  rcases n with ⟨i, k, type, annotations, diagnostics⟩
  cases k <;> rw [Node.members] <;> rfl

theorem innerMembers (h : Simulation R S T) (hab : R a b) :
    Forall₂ (Placed R S) a.innerMembers b.innerMembers := by
  induction a using Node.induct generalizing b with
  | step a ih =>
    have like := h.like hab
    unfold Node.innerMembers
    rcases a with ⟨i, k, type, annotations, diagnostics⟩
    rcases b with ⟨i', k', type', annotations', diagnostics'⟩
    cases like.kind with
    | @join kind left right on left' right' on' hl hr _ =>
      have hl' := ih left (by simp [children, Kind.children]) (h.fromPlace hl)
      have hr' := ih right (by simp [children, Kind.children]) (h.fromPlace hr)
      show Forall₂ (Placed R S) (left.members ++ right.members) (left'.members ++ right'.members)
      rw [members_eq, members_eq, members_eq, members_eq]
      exact List.rel_append (.cons (.inl hl) hl') (.cons (.inl hr) hr')
    | _ => exact .nil

/-- Identities that stand for each other. -/
def Identified (P : Node → Node → Prop) (i j : Identity) : Prop :=
  ∃ c d, P c d ∧ c.id = i ∧ d.id = j

theorem identified {P : Node → Node → Prop} {ns ns' : List Node} (h : Forall₂ P ns ns') :
    Forall₂ (Identified P) (ns.map Node.id) (ns'.map Node.id) := by
  rw [List.forall₂_map_left_iff, List.forall₂_map_right_iff]
  exact h.imp fun c d hcd => ⟨c, d, hcd, rfl, rfl⟩

theorem contains (h : Simulation R S T) {is js : List Identity}
    (his : Forall₂ (Identified fun c d => Placed R S c d ∨ T c d) is js) (hab : Placed R S a b) :
    is.contains a.id = js.contains b.id := by
  induction his with
  | nil => rfl
  | cons hij _ ih =>
    obtain ⟨c, d, hcd, rfl, rfl⟩ := hij
    rw [List.contains_cons, List.contains_cons, ih]
    have same : (a.id == c.id) = (b.id == d.id) := by
      rw [Bool.eq_iff_iff, beq_iff_eq, beq_iff_eq]
      exact h.identity hab hcd
    rw [same]

theorem distinctOutside (h : Simulation R S T) {seen seen' : List Identity} {ns ns' : List Node}
    (hseen : Forall₂ (Identified fun c d => Placed R S c d ∨ T c d) seen seen')
    (hns : Forall₂ (Placed R S) ns ns') :
    Forall₂ (Placed R S) (Node.distinctOutside seen ns) (Node.distinctOutside seen' ns') := by
  induction hns generalizing seen seen' with
  | nil => exact .nil
  | @cons a b ns ns' hab _ ih =>
    unfold Node.distinctOutside
    rw [h.contains hseen hab]
    split
    · exact ih hseen
    · exact .cons hab (ih (.cons ⟨a, b, .inl hab, rfl, rfl⟩ hseen))

/-- Frames that provide the same and offer the same columns. -/
structure Frames (R S T : Node → Node → Prop) (f g : Frame) : Prop where
  provides : Forall₂ (Identified fun c d => Placed R S c d ∨ T c d) f.provides g.provides
  columns : Forall₂ R f.columns g.columns

theorem ofSources (h : Simulation R S T) {froms froms' columns columns' : List Node}
    (hf : Forall₂ (fun c d => Placed R S c d ∨ T c d) froms froms')
    (hc : Forall₂ R columns columns') :
    Frames R S T (Frame.ofSources froms columns) (Frame.ofSources froms' columns') := by
  refine ⟨identified (flatMap_forall₂ hf fun c _ d hcd => ?_), hc⟩
  have hR : R c d := hcd.elim h.of_placed h.target
  rw [members_eq, members_eq]
  exact .cons hcd ((h.innerMembers hR).imp fun _ _ => .inl)

variable {s s' : Select Node} {frames frames' : List Frame}

theorem candidates (h : Simulation R S T) (hs : Kind.Like R S T (.select s) (.select s')) :
    Forall₂ (Placed R S) s.candidates s'.candidates := by
  rcases s with ⟨columns, froms, criteria, groupBy, having, orderBy, limit, offset, d, a⟩
  rcases s' with ⟨columns', froms', criteria', groupBy', having', orderBy', limit', offset', d', a'⟩
  cases hs with
  | select _ _ h₁ h₂ h₃ _ _ _ _ _ =>
    have sources {ns ns' : List Node} (hns : Forall₂ R ns ns') :
        Forall₂ (Placed R S) (ns.flatMap Node.sources) (ns'.flatMap Node.sources) :=
      flatMap_forall₂ hns fun _ _ _ hcd => h.sources hcd
    have found := List.rel_append
      (List.rel_append (sources h₁) (sources (Kind.forall₂_toList_iff.2 h₃)))
      (h₂.imp fun _ _ hcd => (Or.inl hcd : Placed R S _ _))
    refine h.distinctOutside (identified ?_) found
    exact (flatMap_forall₂ found fun _ _ _ hcd => h.innerMembers (h.of_placed hcd)).imp
      fun _ _ => .inl

/-- The FROM lists that are shown. -/
inductive Shown (R S : Node → Node → Prop) :
    Except CompileFault (List Node) → Except CompileFault (List Node) → Prop where
  | error (fault : CompileFault) : Shown R S (.error fault) (.error fault)
  | ok {froms froms' : List Node} :
      Forall₂ (Placed R S) froms froms' → Shown R S (.ok froms) (.ok froms')

theorem isEmpty_eq {α β : Type} {P : α → β → Prop} {xs : List α} {ys : List β}
    (h : Forall₂ P xs ys) :
    xs.isEmpty = ys.isEmpty := by
  cases h <;> rfl

theorem filter_forall₂ {α β : Type} {P : α → β → Prop} {xs : List α} {ys : List β} {p : α → Bool}
    {q : β → Bool} (h : Forall₂ P xs ys) (hpq : ∀ x y, P x y → p x = q y) :
    Forall₂ P (xs.filter p) (ys.filter q) := by
  induction h with
  | nil => exact .nil
  | @cons x y xs ys hxy _ ih =>
    rw [List.filter_cons, List.filter_cons, hpq x y hxy]
    split
    · exact .cons hxy ih
    · exact ih

/-- Corresponding SELECTs show corresponding FROM lists. -/
theorem shownFroms (h : Simulation R S T) (hs : Kind.Like R S T (.select s) (.select s'))
    (hf : Forall₂ (Frames R S T) frames frames') :
    Shown R S (s.shownFroms frames) (s'.shownFroms frames') := by
  have candidates := h.candidates hs
  have provided {c d : Node} (hcd : Placed R S c d) :
      (frames.any fun f => f.provides.contains c.id) =
        frames'.any fun f => f.provides.contains d.id := by
    induction hf with
    | nil => rfl
    | cons hfg _ ih => rw [List.any_cons, List.any_cons, ih, h.contains hfg.provides hcd]
  have remaining := filter_forall₂ (p := fun n => !frames.any fun f => f.provides.contains n.id)
    (q := fun n => !frames'.any fun f => f.provides.contains n.id) candidates
    fun c d hcd => by rw [provided hcd]
  have correlate : s.autoCorrelate = s'.autoCorrelate := by
    cases hs with
    | select => rfl
  unfold Select.shownFroms
  dsimp only
  rw [correlate, isEmpty_eq hf, isEmpty_eq candidates]
  split
  · exact .ok candidates
  · rw [isEmpty_eq remaining]
    split
    · exact .error _
    · exact .ok remaining

end Simulation

end SqlAlgebra
