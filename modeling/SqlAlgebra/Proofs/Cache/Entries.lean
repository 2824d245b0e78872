import SqlAlgebra.Compiler

/-!
# What a template cache holds

Looking into the cache and making room in it never change the template that stands under a key.  So
a template comes into the cache only where it is kept under its key.
-/

namespace SqlAlgebra

namespace TemplateCache

variable {Time : Type} {cache : TemplateCache Time} {key k : TemplateKey} {t u : Template}

/-- The cache has a template under a key. -/
def Holds (cache : TemplateCache Time) (key : TemplateKey) (t : Template) : Prop :=
  ∃ entry, (key, entry) ∈ cache.entries ∧ entry.template = t

theorem mem_of_lookup {entries : List (TemplateKey × CachedTemplate Time)}
    {entry : CachedTemplate Time} (h : entries.lookup key = some entry) : (key, entry) ∈ entries := by
  obtain ⟨before, after, rfl, -⟩ := List.lookup_eq_some_iff.1 h
  exact List.mem_append_right _ List.mem_cons_self

theorem mem_of_mem_replace {entry e : CachedTemplate Time}
    {entries : List (TemplateKey × CachedTemplate Time)}
    (h : (k, e) ∈ replace key entry entries) : (k, e) ∈ entries ∨ k = key ∧ e = entry := by
  induction entries with
  | nil => cases h
  | cons first rest ih =>
    rcases first with ⟨k', old⟩
    rw [replace] at h
    split at h
    · next same =>
      rcases List.mem_cons.1 h with eq | h
      · obtain ⟨rfl, rfl⟩ := Prod.mk.inj eq
        exact .inr ⟨same, rfl⟩
      · exact .inl (List.mem_cons_of_mem _ h)
    · rcases List.mem_cons.1 h with eq | h
      · exact .inl (eq ▸ List.mem_cons_self)
      · exact (ih h).imp_left (List.mem_cons_of_mem _)

theorem mem_of_mem_evict {capacity : Nat} {recency : List (Time × TemplateKey)}
    {entries : List (TemplateKey × CachedTemplate Time)} {entry : TemplateKey × CachedTemplate Time}
    (h : entry ∈ (evict capacity recency entries).2) : entry ∈ entries := by
  induction recency generalizing entries with
  | nil => exact h
  | cons use rest ih =>
    rw [evict] at h
    split at h
    · exact h
    · exact (List.mem_filter.1 (ih h)).1

theorem not_holds_clear : ¬ cache.clear.Holds key t := by
  rintro ⟨_, mem, -⟩
  cases mem

variable [Clock Time]

theorem get_capacity (cache : TemplateCache Time) (key : TemplateKey) :
    (cache.get key).2.capacity = cache.capacity := by
  unfold get
  dsimp only
  split <;> rfl

theorem holds_of_get_fst (h : (cache.get key).1 = some t) : cache.Holds key t := by
  unfold get at h
  dsimp only at h
  split at h
  · cases h
  · next entry found => exact ⟨entry, mem_of_lookup found, Option.some.inj h⟩

theorem holds_of_get (h : (cache.get key).2.Holds k t) : cache.Holds k t := by
  obtain ⟨e, mem, rfl⟩ := h
  unfold get at mem
  dsimp only at mem
  split at mem
  · exact ⟨e, mem, rfl⟩
  · next entry found =>
    obtain mem | ⟨rfl, rfl⟩ := mem_of_mem_replace mem
    · exact ⟨e, mem, rfl⟩
    · exact ⟨entry, mem_of_lookup found, rfl⟩

theorem get_get_of_none (h : (cache.get key).1 = none) :
    ((cache.get key).2.get key).1 = none := by
  unfold get at h
  dsimp only at h
  split at h
  · next absent =>
    unfold get
    dsimp only
    rw [absent]
    dsimp only
    rw [absent]
  · cases h

theorem insertIfAbsent_capacity : (cache.insertIfAbsent key t).2.capacity = cache.capacity := by
  have get := get_capacity cache key
  unfold insertIfAbsent
  generalize cache.get key = looked at get
  rcases looked with ⟨_ | existing, cache'⟩
  · dsimp only
    split
    · exact get
    · exact get
  · exact get

theorem insertIfAbsent_fst_of_none (h : (cache.get key).1 = none) :
    (cache.insertIfAbsent key t).1 = t := by
  unfold insertIfAbsent
  generalize cache.get key = looked at h
  rcases looked with ⟨_ | existing, cache'⟩
  · dsimp only
    split <;> rfl
  · cases h

theorem holds_of_insertIfAbsent (h : (cache.insertIfAbsent key t).2.Holds k u) :
    cache.Holds k u ∨ k = key ∧ u = t ∧ cache.capacity ≠ 0 := by
  have capacity := get_capacity cache key
  have before {k : TemplateKey} {u : Template} (h : (cache.get key).2.Holds k u) := holds_of_get h
  unfold insertIfAbsent at h
  generalize cache.get key = looked at h capacity before
  rcases looked with ⟨_ | existing, cache'⟩
  · dsimp only at h
    split at h
    · exact .inl (before h)
    · next room =>
      obtain ⟨e, mem, rfl⟩ := h
      rcases List.mem_append.1 (mem_of_mem_evict mem) with mem | mem
      · exact .inl (before ⟨e, mem, rfl⟩)
      · obtain ⟨rfl, rfl⟩ := Prod.mk.inj (List.mem_singleton.1 mem)
        exact .inr ⟨rfl, rfl, capacity ▸ room⟩
  · exact .inl (before h)

theorem not_holds_empty {capacity : Nat} : ¬ (empty Time capacity).Holds key t := by
  rintro ⟨_, mem, -⟩
  cases mem

theorem get_fst : (cache.get key).1 = (cache.entries.lookup key).map CachedTemplate.template := by
  unfold get
  dsimp only
  split
  · next absent => rw [absent]; rfl
  · next found => rw [found]; rfl

/-- A cache with room keeps the first template that it gets. -/
theorem get_insertIfAbsent_empty {capacity : Nat} (h : capacity ≠ 0) :
    ((((empty Time capacity).get key).2.insertIfAbsent key t).2.get key).1 = some t := by
  have room : 1 ≤ capacity := Nat.one_le_iff_ne_zero.2 h
  have entries : (((empty Time capacity).get key).2.insertIfAbsent key t).2.entries =
    [(key, ⟨t, Clock.tick (Clock.tick (Clock.tick Clock.start))⟩)] := by
    simp [insertIfAbsent, get, empty, record, evict, h, room]
  rw [get_fst, entries, List.lookup_cons_self]
  rfl

end TemplateCache

end SqlAlgebra
