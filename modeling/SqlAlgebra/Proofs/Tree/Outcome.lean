import SqlAlgebra.Proofs.Tree.Transform

/-!
# How steps end

A building step gives a result or fails.  What is said of its results and of its errors together is
carried through sequences of steps: a result of the first step is what the next one starts from, and
an error of any step is the error of the whole.  Where a tree is gone over, the errors are those of
the steps that are taken at its nodes.
-/

namespace SqlAlgebra.Build

variable {α β σ : Type} {P Q : α → Prop} {R : β → Prop} {E E' : Error → Prop}

/-- Whether a step ends in a result of the kind `Q` or in an error of the kind `E`. -/
structure Ends (x : Build α) (Q : α → Prop) (E : Error → Prop) : Prop where
  result : ∀ ⦃i : Identity⦄ ⦃a : α⦄ ⦃i' : Identity⦄, x i = .ok (a, i') → Q a
  error : ∀ ⦃i : Identity⦄ ⦃e : Error⦄, x i = .error e → E e

theorem bind_error {x : Build α} {f : α → Build β} {i : Identity} {e : Error}
    (run : (x >>= f) i = .error e) :
    x i = .error e ∨ ∃ a i₁, x i = .ok (a, i₁) ∧ f a i₁ = .error e := by
  change (x i >>= fun p => f p.1 p.2) = _ at run
  cases first : x i with
  | error e' =>
    rw [first] at run
    cases run
    exact .inl rfl
  | ok p =>
    rw [first] at run
    exact .inr ⟨p.1, p.2, rfl, run⟩

namespace Ends

theorem pure {a : α} (h : Q a) : Ends (pure a) Q E := by
  constructor
  · rintro i b i' ⟨⟩
    exact h
  · rintro i e ⟨⟩

theorem throw {e : Error} (h : E e) : Ends (throw e) Q E := by
  constructor
  · rintro i b i' ⟨⟩
  · rintro i e' ⟨⟩
    exact h

theorem mono {x : Build α} (hx : Ends x P E) (hQ : ∀ a, P a → Q a) (hE : ∀ e, E e → E' e) :
    Ends x Q E' :=
  ⟨fun _ _ _ run => hQ _ (hx.result run), fun _ _ run => hE _ (hx.error run)⟩

theorem imp {x : Build α} (hx : Ends x P E) (hQ : ∀ a, P a → Q a) : Ends x Q E :=
  hx.mono hQ fun _ he => he

theorem weaken {x : Build α} (hx : Ends x Q E) (hE : ∀ e, E e → E' e) : Ends x Q E' :=
  hx.mono (fun _ ha => ha) hE

theorem bind {x : Build α} {f : α → Build β} (hx : Ends x Q E) (hf : ∀ a, Q a → Ends (f a) R E) :
    Ends (x >>= f) R E := by
  constructor
  · intro i b i' run
    obtain ⟨a, i₁, first, rest⟩ := bind_ok run
    exact (hf a (hx.result first)).result rest
  · intro i e run
    obtain first | ⟨a, i₁, first, rest⟩ := bind_error run
    · exact hx.error first
    · exact (hf a (hx.result first)).error rest

theorem ite {c : Prop} [Decidable c] {x y : Build α} (hx : c → Ends x Q E) (hy : ¬c → Ends y Q E) :
    Ends (if c then x else y) Q E := by
  by_cases h : c
  · rw [if_pos h]
    exact hx h
  · rw [if_neg h]
    exact hy h

/-- Each result of a list of steps is one of the steps' own. -/
theorem mapM_exists {l : List β} {f : β → Build α} {R : β → α → Prop}
    (hf : ∀ b ∈ l, Ends (f b) (R b) E) :
    Ends (l.mapM f) (fun as => ∀ b ∈ l, ∃ a ∈ as, R b a) E := by
  induction l with
  | nil =>
    rw [List.mapM_nil]
    exact pure fun _ hb => nomatch hb
  | cons b l ih =>
    rw [List.mapM_cons]
    refine (hf b List.mem_cons_self).bind fun a ha => ?_
    refine (ih fun b hb => hf b (List.mem_cons_of_mem _ hb)).bind fun as has => pure fun b' hb => ?_
    rcases List.mem_cons.1 hb with rfl | hb
    · exact ⟨a, List.mem_cons_self, ha⟩
    · obtain ⟨a', ha', hr⟩ := has b' hb
      exact ⟨a', List.mem_cons_of_mem _ ha', hr⟩

end Ends

/-- Whether a step with a state of its own ends in a result of the kind `Q` or in an error of the
kind `E`. -/
def EndsOver (x : StateT σ Build α) (Q : α → Prop) (E : Error → Prop) : Prop :=
  ∀ s, Ends (x s) (fun p => Q p.1) E

namespace EndsOver

theorem pure {a : α} (h : Q a) : EndsOver (pure a : StateT σ Build α) Q E := fun _ => Ends.pure h

theorem throw {e : Error} (h : E e) : EndsOver (throw e : StateT σ Build α) Q E :=
  fun _ => Ends.throw h

theorem mono {x : StateT σ Build α} (hx : EndsOver x P E) (hQ : ∀ a, P a → Q a)
    (hE : ∀ e, E e → E' e) : EndsOver x Q E' :=
  fun s => (hx s).mono (fun p hp => hQ p.1 hp) hE

theorem imp {x : StateT σ Build α} (hx : EndsOver x P E) (hQ : ∀ a, P a → Q a) : EndsOver x Q E :=
  hx.mono hQ fun _ he => he

theorem weaken {x : StateT σ Build α} (hx : EndsOver x Q E) (hE : ∀ e, E e → E' e) :
    EndsOver x Q E' :=
  hx.mono (fun _ ha => ha) hE

theorem bind {x : StateT σ Build α} {f : α → StateT σ Build β} (hx : EndsOver x Q E)
    (hf : ∀ a, Q a → EndsOver (f a) R E) : EndsOver (x >>= f) R E :=
  fun s => (hx s).bind fun p hp => hf p.1 hp p.2

theorem map {x : StateT σ Build α} {f : α → β} (hx : EndsOver x Q E) (h : ∀ a, Q a → R (f a)) :
    EndsOver (f <$> x) R E := by
  rw [map_eq_pure_bind]
  exact hx.bind fun a ha => pure (h a ha)

theorem lift {x : Build α} (hx : Ends x Q E) : EndsOver (liftM x : StateT σ Build α) Q E := by
  intro s
  show Ends (x >>= fun a => Pure.pure (a, s)) _ _
  exact hx.bind fun _ ha => Ends.pure ha

theorem modify (f : σ → σ) : EndsOver (modify f) (fun _ => True) E := fun _ => Ends.pure trivial

theorem ite {c : Prop} [Decidable c] {x y : StateT σ Build α} (hx : c → EndsOver x Q E)
    (hy : ¬c → EndsOver y Q E) : EndsOver (if c then x else y) Q E := by
  by_cases h : c
  · rw [if_pos h]
    exact hx h
  · rw [if_neg h]
    exact hy h

theorem mapM_exists {l : List β} {f : β → StateT σ Build α} {R : β → α → Prop}
    (hf : ∀ b ∈ l, EndsOver (f b) (R b) E) :
    EndsOver (l.mapM f) (fun as => ∀ b ∈ l, ∃ a ∈ as, R b a) E := by
  induction l with
  | nil =>
    rw [List.mapM_nil]
    exact pure fun _ hb => nomatch hb
  | cons b l ih =>
    rw [List.mapM_cons]
    refine (hf b List.mem_cons_self).bind fun a ha => ?_
    refine (ih fun b hb => hf b (List.mem_cons_of_mem _ hb)).bind fun as has => pure fun b' hb => ?_
    rcases List.mem_cons.1 hb with rfl | hb
    · exact ⟨a, List.mem_cons_self, ha⟩
    · obtain ⟨a', ha', hr⟩ := has b' hb
      exact ⟨a', List.mem_cons_of_mem _ ha', hr⟩

theorem mapM {l : List β} {f : β → StateT σ Build α} (hf : ∀ b ∈ l, EndsOver (f b) Q E) :
    EndsOver (l.mapM f) (fun _ => True) E :=
  (mapM_exists (R := fun _ => Q) hf).imp fun _ _ => trivial

theorem foldlM {l : List β} {f : α → β → StateT σ Build α}
    (hf : ∀ b ∈ l, ∀ a, EndsOver (f a b) (fun _ => True) E) (a : α) :
    EndsOver (l.foldlM f a) (fun _ => True) E := by
  induction l generalizing a with
  | nil =>
    rw [List.foldlM_nil]
    exact pure trivial
  | cons b l ih =>
    rw [List.foldlM_cons]
    refine (hf b List.mem_cons_self a).bind fun a' _ => ?_
    exact ih (fun b hb => hf b (List.mem_cons_of_mem _ hb)) a'

end EndsOver

/-! ## What is built -/

theorem ends_reported (kind : Kind Node) (type : SqlType) (diagnostics : List Diagnostic) :
    Ends (reported kind type diagnostics)
      (fun n => n.kind = kind ∧ n.type = type ∧ n.diagnostics = diagnostics) E := by
  constructor
  · rintro i n i' ⟨⟩
    exact ⟨rfl, rfl, rfl⟩
  · rintro i e ⟨⟩

theorem ends_typed (kind : Kind Node) (type : SqlType) :
    Ends (typed kind type) (fun n => n.kind = kind) E :=
  (ends_reported kind type []).imp fun _ h => h.1

theorem ends_copy (n : Node) :
    Ends (copy n) (fun m => m.kind = n.kind ∧ m.diagnostics = n.diagnostics) E := by
  constructor
  · rintro i m i' ⟨⟩
    exact ⟨rfl, rfl⟩
  · rintro i e ⟨⟩

end SqlAlgebra.Build

namespace SqlAlgebra.Node

open Build (Ends EndsOver)

variable {σ : Type} {E : Error → Prop} {offer : Node → StateT σ Build (Option Node)}
  {finish : Node → List Node → StateT σ Build Node}

/-- Going over a tree fails only as the steps at its nodes do. -/
theorem endsOver_transform (hoffer : ∀ n, EndsOver (offer n) (fun _ => True) E)
    (hfinish : ∀ n news, EndsOver (finish n news) (fun _ => True) E) (n : Node) (memo : Memo) :
    EndsOver (transform offer finish n memo) (fun _ => True) E := by
  induction n using Node.induct generalizing memo with
  | step n ih =>
    rw [transform]
    split
    · exact .pure trivial
    · refine (hoffer n).bind fun offered _ => ?_
      cases offered with
      | some replacement => exact .pure trivial
      | none =>
        refine (EndsOver.foldlM (fun c _ done => ?_) _).bind fun done _ =>
          (hfinish n done.1).bind fun _ _ => .pure trivial
        exact (ih c.1 c.2 done.2).bind fun _ _ => .pure trivial

theorem ends_rebuild (n : Node) (news : List Node) : Ends (n.rebuild news) (fun _ => True) E := by
  unfold rebuild
  split
  · exact .pure trivial
  · exact (Build.ends_copy _).imp fun _ _ => trivial

theorem endsOver_substitute (h : ∀ n, EndsOver (offer n) (fun _ => True) E) (n : Node) :
    EndsOver (substitute offer n) (fun _ => True) E :=
  (endsOver_transform h (fun n news => .lift (ends_rebuild n news)) n []).bind fun _ _ =>
    .pure trivial

end SqlAlgebra.Node
