import SqlAlgebra.Deferred
import SqlAlgebra.Proofs.Tree.Heap

/-!
# Looking for deferred expressions

The search for a deferred expression looks at every node of a tree once, and finds one if there is
one.
-/

namespace SqlAlgebra.Node

variable {n x : Node} {seen seen' : List Identity}

/-- A search that found nothing: the nodes that were looked at since are not deferred, and their
children were looked at too. -/
structure Searched (K : Heap) (seen seen' : List Identity) : Prop where
  keeps : seen ⊆ seen'
  closed : ∀ ⦃x : Node⦄, K x → x.id ∈ seen' →
    x.id ∈ seen ∨ x.isDeferred = false ∧ ∀ c ∈ x.children, c.id ∈ seen'

theorem searched_of_lookForDeferred {K : Heap} {next : Identity} (valid : K.Valid next) (hn : K n)
    (h : n.lookForDeferred seen = some seen') : n.id ∈ seen' ∧ Searched K seen seen' := by
  induction n using Node.induct generalizing seen seen' with
  | step n ih =>
    have each (l : List { c // c ∈ n.children }) {seen seen' : List Identity}
        (h : l.foldlM (fun seen c => lookForDeferred c.1 seen) seen = some seen') :
        (∀ c ∈ l, c.1.id ∈ seen') ∧ Searched K seen seen' := by
      induction l generalizing seen with
      | nil =>
        cases h
        exact ⟨(fun c hc => nomatch hc), fun _ h => h, fun _ _ h => .inl h⟩
      | cons c l ihl =>
        rw [List.foldlM_cons] at h
        obtain ⟨mid, first, rest⟩ := Option.bind_eq_some_iff.1 h
        obtain ⟨mem, before⟩ := ih c.1 c.2 (valid.closed hn _ c.2) first
        obtain ⟨mems, after⟩ := ihl rest
        refine ⟨fun d hd => ?_, fun i hi => after.keeps (before.keeps hi), fun x hx hid => ?_⟩
        · rcases List.mem_cons.1 hd with rfl | hd
          · exact after.keeps mem
          · exact mems d hd
        · obtain hid | done := after.closed hx hid
          · obtain hid | ⟨plain, below⟩ := before.closed hx hid
            · exact .inl hid
            · exact .inr ⟨plain, fun c hc => after.keeps (below c hc)⟩
          · exact .inr done
    rw [lookForDeferred] at h
    split at h
    · next known =>
      cases h
      exact ⟨by simpa using known, fun _ h => h, fun _ _ h => .inl h⟩
    · split at h
      · cases h
      · next plain =>
        obtain ⟨mems, searched⟩ := each _ h
        have children : ∀ c ∈ n.children, c.id ∈ seen' := fun c hc =>
          mems ⟨c, hc⟩ (List.mem_attach _ _)
        refine ⟨searched.keeps List.mem_cons_self,
          fun i hi => searched.keeps (List.mem_cons_of_mem _ hi), fun x hx hid => ?_⟩
        obtain hid | done := searched.closed hx hid
        · rcases List.mem_cons.1 hid with hid | hid
          · obtain rfl := valid.unique hx hn hid
            exact .inr ⟨by simpa using plain, children⟩
          · exact .inl hid
        · exact .inr done

theorem isDeferred_of_not_containsDeferred {K : Heap} {next : Identity} (valid : K.Valid next)
    (hn : K n) (h : n.containsDeferred = false) (hx : Occurs x n) : x.isDeferred = false := by
  unfold containsDeferred at h
  rw [Option.isNone_eq_false_iff, Option.isSome_iff_exists] at h
  obtain ⟨seen, found⟩ := h
  obtain ⟨mem, searched⟩ := searched_of_lookForDeferred valid hn found
  have each {y : Node} (hy : K y) (hid : y.id ∈ seen) :
      y.isDeferred = false ∧ ∀ c ∈ y.children, c.id ∈ seen :=
    (searched.closed hy hid).resolve_left (List.not_mem_nil)
  have reached {y : Node} (hy : K y) (hid : y.id ∈ seen) (hx : Occurs x y) : x.id ∈ seen := by
    induction hx with
    | root => exact hid
    | deeper hc _ ih => exact ih (valid.closed hy _ hc) ((each hy hid).2 _ hc)
  exact (each (valid.occurs hn hx) (reached hn mem hx)).1

theorem lookForDeferred_isSome (h : ∀ x, Occurs x n → x.isDeferred = false) :
    (n.lookForDeferred seen).isSome := by
  induction n using Node.induct generalizing seen with
  | step n ih =>
    have each (l : List { c // c ∈ n.children }) (seen : List Identity) :
        (l.foldlM (fun seen c => lookForDeferred c.1 seen) seen).isSome := by
      induction l generalizing seen with
      | nil => rfl
      | cons c l ihl =>
        obtain ⟨mid, first⟩ := Option.isSome_iff_exists.1
          (ih c.1 c.2 fun x hx => h x (.deeper c.2 hx))
        rw [List.foldlM_cons, first]
        exact ihl mid
    rw [lookForDeferred, h n .root]
    split
    · rfl
    · exact each _ _

theorem containsDeferred_eq_false (h : ∀ x, Occurs x n → x.isDeferred = false) :
    n.containsDeferred = false := by
  unfold containsDeferred
  rw [Option.isNone_eq_false_iff]
  exact lookForDeferred_isSome h

end SqlAlgebra.Node
