import Mathlib.Data.List.Nodup
import Mathlib.Data.List.Perm.Basic
import SqlAlgebra.Proofs.Cache.Entries

/-!
# The order of use

A template cache behaves like a list of keys with their templates in the order of their last use, of
which only as many as fit are kept.  Behind this stand a clock, and two tables that have to agree:
every entry is found under its key and under the time of its last use.  A use keeps them in agreement
as long as every tick of the clock leads to a later time.
-/

namespace SqlAlgebra

open Clock (number number_inj tick)

/-- Whether a tick leads from a time to the next number. -/
def Clock.Goes {Time : Type} [Clock Time] (now : Time) : Prop := number (tick now) = number now + 1

/-- The templates that are kept, the one used last first. -/
structure UseOrder where
  capacity : Nat
  uses : List (TemplateKey × Template)

namespace UseOrder

def empty (capacity : Nat) : UseOrder := ⟨capacity, []⟩

/-- Looks up a template and puts it first. -/
def get (order : UseOrder) (key : TemplateKey) : Option Template × UseOrder :=
  match order.uses.lookup key with
  | none => (none, order)
  | some t => (some t, { order with uses := (key, t) :: order.uses.filter fun use => use.1 ≠ key })

/-- Puts a template first, unless there is one under its key; the last ones go if there are too
many. -/
def insertIfAbsent (order : UseOrder) (key : TemplateKey) (t : Template) : Template × UseOrder :=
  match order.get key with
  | (some existing, order) => (existing, order)
  | (none, order) => (t, { order with uses := ((key, t) :: order.uses).take order.capacity })

def clear (order : UseOrder) : UseOrder := { order with uses := [] }

end UseOrder

/-- A use of a cache. -/
inductive CacheUse where
  | get (key : TemplateKey)
  | insertIfAbsent (key : TemplateKey) (template : Template)
  | clear

namespace UseOrder

/-- What a use gives back, and the order after it. -/
def step (order : UseOrder) : CacheUse → Option Template × UseOrder
  | .get key => order.get key
  | .insertIfAbsent key t => (some (order.insertIfAbsent key t).1, (order.insertIfAbsent key t).2)
  | .clear => (none, order.clear)

/-- What some uses give back, each with how many templates there are after it. -/
def answers (order : UseOrder) : List CacheUse → List (Option Template × Nat)
  | [] => []
  | use :: rest =>
    ((order.step use).1, (order.step use).2.uses.length) :: (order.step use).2.answers rest

/-- The order after some uses. -/
def after (order : UseOrder) : List CacheUse → UseOrder
  | [] => order
  | use :: rest => (order.step use).2.after rest

end UseOrder

namespace TemplateCache

variable {Time : Type}

/-- What a use gives back, and the cache after it. -/
def step [Clock Time] (cache : TemplateCache Time) : CacheUse → Option Template × TemplateCache Time
  | .get key => cache.get key
  | .insertIfAbsent key t => (some (cache.insertIfAbsent key t).1, (cache.insertIfAbsent key t).2)
  | .clear => (none, cache.clear)

/-- What some uses give back, each with the size after it. -/
def answers [Clock Time] (cache : TemplateCache Time) : List CacheUse → List (Option Template × Nat)
  | [] => []
  | use :: rest => ((cache.step use).1, (cache.step use).2.size) :: (cache.step use).2.answers rest

/-- The cache after some uses. -/
def after [Clock Time] (cache : TemplateCache Time) : List CacheUse → TemplateCache Time
  | [] => cache
  | use :: rest => (cache.step use).2.after rest

section Tables

variable {α : Type} {l l' : List (TemplateKey × α)}
  {entries : List (TemplateKey × CachedTemplate Time)} {recency : List (Time × TemplateKey)}
  {k key : TemplateKey} {e entry : CachedTemplate Time} {v : α} {t : Template} {now : Time}

theorem lookup_eq_some_iff (nodup : (l.map Prod.fst).Nodup) :
    l.lookup key = some v ↔ (key, v) ∈ l := by
  induction l with
  | nil => simp
  | cons first rest ih =>
    rcases first with ⟨k, w⟩
    rw [List.map_cons, List.nodup_cons] at nodup
    by_cases same : key = k
    · subst same
      have absent : (key, v) ∉ rest := fun h => nodup.1 (List.mem_map.2 ⟨_, h, rfl⟩)
      simp [absent, eq_comm]
    · have different : (key == k) = false := beq_false_of_ne same
      rw [List.lookup_cons, different, ih nodup.2]
      simp [same]

/-- Of a table with different keys, part of the rows has a row exactly if it has its key. -/
theorem mem_iff_of_subset (nodup : (l.map Prod.fst).Nodup) (sub : l' ⊆ l) :
    (key, v) ∈ l' ↔ (key, v) ∈ l ∧ key ∈ l'.map Prod.fst := by
  constructor
  · intro h
    exact ⟨sub h, List.mem_map_of_mem h⟩
  · rintro ⟨h, hkey⟩
    obtain ⟨⟨k, w⟩, hw, rfl⟩ := List.mem_map.1 hkey
    obtain ⟨-, rfl⟩ := Prod.mk.inj (List.inj_on_of_nodup_map nodup h (sub hw) rfl)
    exact hw

theorem map_fst_replace (key : TemplateKey) (entry : CachedTemplate Time)
    (entries : List (TemplateKey × CachedTemplate Time)) :
    (replace key entry entries).map Prod.fst = entries.map Prod.fst := by
  induction entries with
  | nil => rfl
  | cons first rest ih =>
    rw [replace]
    split
    · rfl
    · rw [List.map_cons, List.map_cons, ih]

theorem mem_replace_iff (nodup : (entries.map Prod.fst).Nodup) (h : key ∈ entries.map Prod.fst) :
    (k, e) ∈ replace key entry entries ↔ (k, e) ∈ entries ∧ k ≠ key ∨ k = key ∧ e = entry := by
  induction entries with
  | nil => cases h
  | cons first rest ih =>
    rcases first with ⟨k', old⟩
    rw [List.map_cons, List.nodup_cons] at nodup
    have absent (e : CachedTemplate Time) : (k', e) ∉ rest := fun h =>
      nodup.1 (List.mem_map.2 ⟨_, h, rfl⟩)
    rw [replace]
    by_cases same : k' = key
    · subst same
      rw [if_pos rfl, List.mem_cons, List.mem_cons, Prod.mk.injEq, Prod.mk.injEq]
      by_cases hk : k = k'
      · subst hk
        simp [absent]
      · simp [hk]
    · rw [if_neg same, List.mem_cons, List.mem_cons,
        ih nodup.2 ((List.mem_cons.1 h).resolve_left (Ne.symm same)), Prod.mk.injEq]
      by_cases hk : k = k'
      · subst hk
        simp [same]
      · simp [hk]

/-- The first uses of an order, with a new one, have the keys of the last times of use. -/
theorem map_fst_take {uses : List (TemplateKey × Template)}
    (h : uses.map Prod.fst = (recency.map Prod.snd).reverse) (key : TemplateKey) (t : Template)
    (now : Time) (capacity : Nat) :
    (((key, t) :: uses).take capacity).map Prod.fst =
      (((recency ++ [(now, key)]).drop
        ((recency ++ [(now, key)]).length - capacity)).map Prod.snd).reverse := by
  rw [List.map_take, List.map_cons, h, List.map_drop, List.reverse_drop, List.map_append,
    List.reverse_append, List.length_append, List.length_map]
  show _ = (key :: (recency.map Prod.snd).reverse).take _
  rw [List.take_eq_take_iff]
  simp
  omega

variable [Clock Time]

/-- A use after all others is the last one. -/
theorem record_of_later (later : ∀ use ∈ recency, number use.1 < number now) :
    record now key recency = recency ++ [(now, key)] := by
  induction recency with
  | nil => rfl
  | cons use rest ih =>
    rcases use with ⟨stamp, k⟩
    have before : number stamp < number now := later _ List.mem_cons_self
    rw [record, if_neg (Nat.lt_asymm before), if_neg (Nat.ne_of_gt before),
      ih fun use hu => later use (List.mem_cons_of_mem _ hu), List.cons_append]

/-- Whether the two tables of a cache agree: the times of use are different and in order, and each
leads to the key of the one entry that was used then. -/
structure Linked (entries : List (TemplateKey × CachedTemplate Time))
    (recency : List (Time × TemplateKey)) : Prop where
  keys : (entries.map Prod.fst).Nodup
  stamps : recency.Pairwise fun use use' => number use.1 < number use'.1
  linked : ∀ stamp key, (stamp, key) ∈ recency ↔ ∃ t, (key, ⟨t, stamp⟩) ∈ entries

theorem Linked.stamp_eq (h : Linked entries recency) {s s' : Time} (hs : (s, key) ∈ recency)
    (hs' : (s', key) ∈ recency) : s = s' := by
  obtain ⟨t, ht⟩ := (h.linked s key).1 hs
  obtain ⟨t', ht'⟩ := (h.linked s' key).1 hs'
  have same := (Prod.mk.inj (List.inj_on_of_nodup_map h.keys ht ht' rfl)).2
  exact congrArg CachedTemplate.stamp same

theorem Linked.nodup_stamps (h : Linked entries recency) :
    (recency.map fun use => number use.1).Nodup :=
  List.pairwise_map.2 (h.stamps.imp Nat.ne_of_lt)

theorem Linked.key_eq (h : Linked entries recency) {s : Time} (hk : (s, k) ∈ recency)
    (hkey : (s, key) ∈ recency) : k = key :=
  (Prod.mk.inj (List.inj_on_of_nodup_map h.nodup_stamps hk hkey rfl)).2

theorem Linked.mem_keys_iff (h : Linked entries recency) :
    key ∈ recency.map Prod.snd ↔ key ∈ entries.map Prod.fst := by
  simp only [List.mem_map, Prod.exists, exists_eq_right]
  constructor
  · rintro ⟨s, hs⟩
    obtain ⟨t, ht⟩ := (h.linked s key).1 hs
    exact ⟨_, _, ht, rfl⟩
  · rintro ⟨_, ⟨t, s⟩, he, rfl⟩
    exact ⟨s, (h.linked s _).2 ⟨t, he⟩⟩

theorem Linked.nodup_keys (h : Linked entries recency) : (recency.map Prod.snd).Nodup := by
  refine (List.Nodup.of_map _ h.nodup_stamps).map_on fun a ha b hb same => ?_
  rcases a with ⟨s, k⟩
  rcases b with ⟨s', k'⟩
  obtain rfl : k = k' := same
  rw [h.stamp_eq ha hb]

theorem Linked.length_eq (h : Linked entries recency) : recency.length = entries.length := by
  have perm : (recency.map Prod.snd).Perm (entries.map Prod.fst) :=
    (List.perm_ext_iff_of_nodup h.nodup_keys h.keys).2 fun _ => h.mem_keys_iff
  simpa using perm.length_eq

theorem Linked.append (h : Linked entries recency) (absent : key ∉ entries.map Prod.fst)
    (later : ∀ use ∈ recency, number use.1 < number now) :
    Linked (entries ++ [(key, ⟨t, now⟩)]) (recency ++ [(now, key)]) where
  keys := by
    rw [List.map_append, List.nodup_append]
    refine ⟨h.keys, List.nodup_singleton _, ?_⟩
    rintro k hk _ hkey rfl
    obtain rfl : k = key := List.mem_singleton.1 hkey
    exact absent hk
  stamps := by
    refine List.pairwise_append.2 ⟨h.stamps, List.pairwise_singleton _ _, fun use hu use' hu' => ?_⟩
    exact List.mem_singleton.1 hu' ▸ later use hu
  linked s k := by
    simp only [List.mem_append, List.mem_singleton, h.linked, Prod.mk.injEq, exists_or,
      CachedTemplate.mk.injEq]
    constructor
    · rintro (hs | ⟨rfl, rfl⟩)
      · exact .inl hs
      · exact .inr ⟨t, rfl, rfl, rfl⟩
    · rintro (hs | ⟨_, rfl, -, rfl⟩)
      · exact .inl hs
      · exact .inr ⟨rfl, rfl⟩

/-- When a key is used again, its last use goes and the new one is the last of all. -/
theorem Linked.renew_eq (h : Linked entries recency) (found : (key, entry) ∈ entries)
    (later : ∀ use ∈ recency, number use.1 < number now) :
    renew entry.stamp now recency = (recency.filter fun use => use.2 ≠ key) ++ [(now, key)] := by
  have used : (entry.stamp, key) ∈ recency := (h.linked _ _).2 ⟨entry.template, found⟩
  have key_of_stamp {use : Time × TemplateKey} (hu : use ∈ recency)
      (same : number use.1 = number entry.stamp) : use.2 = key :=
    h.key_eq hu (number_inj _ _ same ▸ used)
  have others : (recency.filter fun use => number use.1 ≠ number entry.stamp) =
      recency.filter fun use => use.2 ≠ key := by
    refine List.filter_congr fun use hu => ?_
    rw [decide_eq_decide]
    refine not_congr ⟨key_of_stamp hu, fun same => ?_⟩
    exact congrArg number (h.stamp_eq hu (same ▸ used))
  unfold renew
  cases last : recency.find? fun use => number use.1 = number entry.stamp with
  | none => exact absurd (decide_eq_true rfl) (List.find?_eq_none.1 last _ used)
  | some use =>
    have stamp := List.find?_some last
    have same := key_of_stamp (List.mem_of_find?_eq_some last) (of_decide_eq_true stamp)
    dsimp only
    rw [others, same, record_of_later fun use hu => later use (List.mem_filter.1 hu).1]

theorem Linked.renew (h : Linked entries recency) (found : (key, entry) ∈ entries)
    (later : ∀ use ∈ recency, number use.1 < number now) :
    Linked (replace key { entry with stamp := now } entries)
      ((recency.filter fun use => use.2 ≠ key) ++ [(now, key)]) where
  keys := by
    rw [map_fst_replace]
    exact h.keys
  stamps := by
    refine List.pairwise_append.2 ⟨h.stamps.sublist List.filter_sublist,
      List.pairwise_singleton _ _, fun use hu use' hu' => ?_⟩
    exact List.mem_singleton.1 hu' ▸ later use (List.mem_filter.1 hu).1
  linked s k := by
    simp only [List.mem_append, List.mem_singleton, List.mem_filter,
      decide_eq_true_eq, h.linked,
      mem_replace_iff h.keys (List.mem_map_of_mem found), Prod.mk.injEq, exists_or,
      CachedTemplate.mk.injEq]
    constructor
    · rintro (⟨⟨t, ht⟩, other⟩ | ⟨rfl, rfl⟩)
      · exact .inl ⟨t, ht, other⟩
      · exact .inr ⟨entry.template, rfl, rfl, rfl⟩
    · rintro (⟨t, ht, other⟩ | ⟨_, rfl, -, rfl⟩)
      · exact .inl ⟨⟨t, ht⟩, other⟩
      · exact .inr ⟨rfl, rfl⟩

theorem Linked.tail {s : Time} (h : Linked entries ((s, key) :: recency)) :
    Linked (entries.filter fun entry => entry.1 ≠ key) recency where
  keys := h.keys.sublist (List.filter_sublist.map _)
  stamps := (List.pairwise_cons.1 h.stamps).2
  linked s' k := by
    have distinct : key ∉ recency.map Prod.snd := (List.nodup_cons.1 h.nodup_keys).1
    have kept := h.linked s' k
    rw [List.mem_cons, Prod.mk.injEq] at kept
    simp only [List.mem_filter, decide_eq_true_eq, exists_and_right, ← kept]
    constructor
    · intro hs
      refine ⟨.inr hs, ?_⟩
      rintro rfl
      exact distinct (List.mem_map_of_mem hs)
    · rintro ⟨⟨-, rfl⟩ | hs, other⟩
      · exact absurd rfl other
      · exact hs

/-- Making room drops the earliest uses, as many as there are too many. -/
theorem Linked.evict_fst (h : Linked entries recency) (capacity : Nat) :
    (evict capacity recency entries).1 = recency.drop (recency.length - capacity) := by
  induction recency generalizing entries with
  | nil => simp [evict]
  | cons use rest ih =>
    rcases use with ⟨s, key⟩
    have length := h.length_eq
    rw [evict]
    split
    · next fits => rw [length, Nat.sub_eq_zero_of_le fits, List.drop_zero]
    · next full =>
      have more : (rest.length + 1) - capacity = rest.length - capacity + 1 := by
        rw [List.length_cons] at length
        omega
      rw [ih h.tail, List.length_cons, more, List.drop_succ_cons]

theorem Linked.evict (h : Linked entries recency) (capacity : Nat) :
    Linked (evict capacity recency entries).2 (evict capacity recency entries).1 := by
  induction recency generalizing entries with
  | nil => exact h
  | cons use rest ih =>
    rcases use with ⟨s, key⟩
    rw [TemplateCache.evict]
    split
    · exact h
    · exact ih h.tail

end Tables

variable [Clock Time]

/-- Whether the tables of a cache agree with each other, with the clock and with the capacity. -/
structure Consistent (cache : TemplateCache Time) : Prop extends
    Linked cache.entries cache.recency where
  past : ∀ use ∈ cache.recency, number use.1 ≤ number cache.clock
  room : cache.size ≤ cache.capacity

/-- Whether an order of uses is that of a cache. -/
structure Follows (cache : TemplateCache Time) (order : UseOrder) : Prop extends Consistent cache where
  capacity : order.capacity = cache.capacity
  keysInOrder : order.uses.map Prod.fst = (cache.recency.map Prod.snd).reverse
  held : ∀ key t, (key, t) ∈ order.uses ↔ cache.Holds key t

section Uses

variable {cache : TemplateCache Time} {order : UseOrder} {key : TemplateKey} {t : Template}

theorem Follows.nodup (h : Follows cache order) : (order.uses.map Prod.fst).Nodup := by
  rw [h.keysInOrder]
  exact List.nodup_reverse.2 h.nodup_keys

theorem Follows.lookup (h : Follows cache order) :
    order.uses.lookup key = (cache.entries.lookup key).map CachedTemplate.template := by
  ext t
  rw [lookup_eq_some_iff h.nodup, h.held, Option.map_eq_some_iff]
  refine exists_congr fun entry => and_congr_left fun _ => ?_
  rw [lookup_eq_some_iff h.keys]

theorem Follows.length_eq (h : Follows cache order) : order.uses.length = cache.size := by
  have lengths := congrArg List.length h.keysInOrder
  rw [List.length_map, List.length_reverse, List.length_map] at lengths
  rw [lengths]
  exact h.toLinked.length_eq

theorem Consistent.later (h : Consistent cache) (goes : Clock.Goes cache.clock) :
    ∀ use ∈ cache.recency, number use.1 < number (tick cache.clock) :=
  fun use hu => goes ▸ Nat.lt_succ_of_le (h.past use hu)

/-- A template that is found goes to the front in both tables. -/
theorem Follows.renew (h : Follows cache order) (goes : Clock.Goes cache.clock)
    {entry : CachedTemplate Time} (found : (key, entry) ∈ cache.entries) :
    Follows
      { cache with
        clock := tick cache.clock
        entries := replace key { entry with stamp := tick cache.clock } cache.entries
        recency := (cache.recency.filter fun use => use.2 ≠ key) ++ [(tick cache.clock, key)] }
      { order with
        uses := (key, entry.template) :: order.uses.filter fun use => use.1 ≠ key } where
  toLinked := h.toLinked.renew found (h.later goes)
  past use hu := by
    obtain hu | hu := List.mem_append.1 hu
    · exact Nat.le_of_lt (h.later goes use (List.mem_filter.1 hu).1)
    · obtain rfl := List.mem_singleton.1 hu
      exact Nat.le_refl _
  room := by
    have length := congrArg List.length
      (map_fst_replace key { entry with stamp := tick cache.clock } cache.entries)
    rw [List.length_map, List.length_map] at length
    show (replace _ _ _).length ≤ _
    rw [length]
    exact h.room
  capacity := h.capacity
  keysInOrder := by
    have others : ((order.uses.filter fun use => use.1 ≠ key).map Prod.fst) =
        (order.uses.map Prod.fst).filter fun k => k ≠ key := by
      rw [List.filter_map]
      rfl
    rw [List.map_cons, others, h.keysInOrder, List.filter_reverse, List.filter_map,
      List.map_append, List.reverse_append]
    rfl
  held k u := by
    simp only [Holds, mem_replace_iff h.keys (List.mem_map_of_mem found), List.mem_cons,
      List.mem_filter, decide_eq_true_eq, h.held, Prod.mk.injEq]
    constructor
    · rintro (⟨rfl, rfl⟩ | ⟨⟨e, he, rfl⟩, other⟩)
      · exact ⟨_, .inr ⟨rfl, rfl⟩, rfl⟩
      · exact ⟨e, .inl ⟨he, other⟩, rfl⟩
    · rintro ⟨e, ⟨he, other⟩ | ⟨rfl, rfl⟩, rfl⟩
      · exact .inr ⟨⟨e, he, rfl⟩, other⟩
      · exact .inl ⟨rfl, rfl⟩

theorem Follows.get (h : Follows cache order) (goes : Clock.Goes cache.clock) (key : TemplateKey) :
    (cache.get key).1 = (order.get key).1 ∧ Follows (cache.get key).2 (order.get key).2 := by
  unfold TemplateCache.get UseOrder.get
  dsimp only
  rw [h.lookup]
  cases found : cache.entries.lookup key with
  | none =>
    exact ⟨rfl, { h with past := fun use hu => Nat.le_of_lt (h.later goes use hu) }⟩
  | some entry =>
    have used : (key, entry) ∈ cache.entries := (lookup_eq_some_iff h.keys).1 found
    dsimp only
    rw [h.toLinked.renew_eq used (h.later goes)]
    exact ⟨rfl, h.renew goes used⟩

theorem notMem_keys_of_get (h : (cache.get key).1 = none) :
    key ∉ (cache.get key).2.entries.map Prod.fst := by
  have missing := get_get_of_none h
  rw [get_fst, Option.map_eq_none_iff, List.lookup_eq_none_iff] at missing
  intro mem
  obtain ⟨entry, he, rfl⟩ := List.mem_map.1 mem
  simpa using missing entry he

/-- Once a new template is in both tables, parts of them with the same keys hold the same
templates. -/
theorem Follows.mem_iff_of_kept (h : Follows cache order) (goes : Clock.Goes cache.clock)
    (absent : key ∉ cache.entries.map Prod.fst)
    {entries : List (TemplateKey × CachedTemplate Time)} {uses : List (TemplateKey × Template)}
    (subset : entries ⊆ cache.entries ++ [(key, ⟨t, tick cache.clock⟩)])
    (subset' : uses ⊆ (key, t) :: order.uses)
    (kept : ∀ k, k ∈ entries.map Prod.fst ↔ k ∈ uses.map Prod.fst) (k : TemplateKey) (u : Template) :
    (k, u) ∈ uses ↔ ∃ entry, (k, entry) ∈ entries ∧ entry.template = u := by
  have full := h.toLinked.append (t := t) absent (h.later goes)
  have nodup : (((key, t) :: order.uses).map Prod.fst).Nodup := by
    rw [List.map_cons, List.nodup_cons, h.keysInOrder, List.mem_reverse, h.toLinked.mem_keys_iff]
    exact ⟨absent, List.nodup_reverse.2 h.nodup_keys⟩
  simp only [mem_iff_of_subset nodup subset', mem_iff_of_subset full.keys subset, kept,
    List.mem_append, List.mem_cons, List.not_mem_nil, or_false, h.held, Holds]
  constructor
  · rintro ⟨same | ⟨e, he, rfl⟩, hk⟩
    · obtain ⟨rfl, rfl⟩ := Prod.mk.inj same
      exact ⟨_, ⟨.inr rfl, hk⟩, rfl⟩
    · exact ⟨e, ⟨.inl he, hk⟩, rfl⟩
  · rintro ⟨e, ⟨he | same, hk⟩, rfl⟩
    · exact ⟨.inr ⟨e, he, rfl⟩, hk⟩
    · obtain ⟨rfl, rfl⟩ := Prod.mk.inj same
      exact ⟨.inl rfl, hk⟩

/-- A template that is new goes to the front in both tables, and the last ones go. -/
theorem Follows.keep (h : Follows cache order) (goes : Clock.Goes cache.clock)
    (absent : key ∉ cache.entries.map Prod.fst) (t : Template) :
    Follows
      { cache with
        clock := tick cache.clock
        recency := (evict cache.capacity (cache.recency ++ [(tick cache.clock, key)])
          (cache.entries ++ [(key, ⟨t, tick cache.clock⟩)])).1
        entries := (evict cache.capacity (cache.recency ++ [(tick cache.clock, key)])
          (cache.entries ++ [(key, ⟨t, tick cache.clock⟩)])).2 }
      { order with uses := ((key, t) :: order.uses).take order.capacity } := by
  rw [h.capacity]
  have full := h.toLinked.append (t := t) absent (h.later goes)
  have linked := full.evict cache.capacity
  have uses := full.evict_fst cache.capacity
  have subset : (evict cache.capacity (cache.recency ++ [(tick cache.clock, key)])
      (cache.entries ++ [(key, ⟨t, tick cache.clock⟩)])).2 ⊆
        cache.entries ++ [(key, ⟨t, tick cache.clock⟩)] := fun _ => mem_of_mem_evict
  generalize evict cache.capacity (cache.recency ++ [(tick cache.clock, key)])
    (cache.entries ++ [(key, ⟨t, tick cache.clock⟩)]) = room at linked uses subset
  rcases room with ⟨recency, entries⟩
  obtain rfl : recency = _ := uses
  dsimp only at linked subset
  have keysInOrder := map_fst_take h.keysInOrder key t (tick cache.clock) order.capacity
  rw [h.capacity] at keysInOrder
  refine { linked with past := ?_, room := ?_, capacity := rfl, keysInOrder, held := ?_ }
  · intro use hu
    obtain hu | hu := List.mem_append.1 (List.mem_of_mem_drop hu)
    · exact Nat.le_of_lt (h.later goes use hu)
    · obtain rfl := List.mem_singleton.1 hu
      exact Nat.le_refl _
  · have length := linked.length_eq
    rw [List.length_drop] at length
    show entries.length ≤ cache.capacity
    omega
  · refine h.mem_iff_of_kept goes absent subset (List.take_subset _ _) fun k => ?_
    rw [keysInOrder, List.mem_reverse]
    exact linked.mem_keys_iff.symm

theorem clock_get (cache : TemplateCache Time) (key : TemplateKey) :
    (cache.get key).2.clock = tick cache.clock := by
  unfold TemplateCache.get
  dsimp only
  split <;> rfl

/-- A template that is new takes another tick if it is kept. -/
theorem Follows.insertIfAbsent (h : Follows cache order) (goes : Clock.Goes cache.clock)
    (key : TemplateKey) (t : Template)
    (goes' : (order.get key).1 = none → cache.capacity ≠ 0 → Clock.Goes (tick cache.clock)) :
    (cache.insertIfAbsent key t).1 = (order.insertIfAbsent key t).1 ∧
      Follows (cache.insertIfAbsent key t).2 (order.insertIfAbsent key t).2 := by
  obtain ⟨answer, follows⟩ := h.get goes key
  have absent := @notMem_keys_of_get Time _ cache key
  rw [← clock_get cache key, ← get_capacity cache key] at goes'
  unfold TemplateCache.insertIfAbsent UseOrder.insertIfAbsent
  generalize cache.get key = looked at answer follows absent goes'
  generalize order.get key = looked' at answer follows goes'
  rcases looked with ⟨found, cache⟩
  rcases looked' with ⟨_, order⟩
  obtain rfl : found = _ := answer
  cases found with
  | some existing => exact ⟨rfl, follows⟩
  | none =>
    dsimp only
    split
    · next closed =>
      rcases order with ⟨capacity, uses⟩
      obtain rfl : capacity = 0 := follows.capacity.trans closed
      obtain rfl : uses = [] := by
        rw [← List.length_eq_zero_iff, follows.length_eq]
        exact Nat.le_zero.1 (closed ▸ follows.room)
      exact ⟨rfl, follows⟩
    · next room =>
      have goes := goes' rfl room
      rw [record_of_later (follows.later goes)]
      exact ⟨rfl, follows.keep goes (absent rfl) t⟩

theorem follows_clear (capacity : order.capacity = cache.capacity) :
    Follows cache.clear order.clear where
  keys := List.nodup_nil
  stamps := .nil
  linked _ _ := ⟨fun h => absurd h List.not_mem_nil, fun ⟨_, h⟩ => absurd h List.not_mem_nil⟩
  past _ h := absurd h List.not_mem_nil
  room := Nat.zero_le _
  capacity := capacity
  keysInOrder := rfl
  held _ _ := ⟨fun h => absurd h List.not_mem_nil, fun h => absurd h not_holds_clear⟩

theorem Follows.clear (h : Follows cache order) : Follows cache.clear order.clear :=
  follows_clear h.capacity

theorem follows_empty (capacity : Nat) : Follows (empty Time capacity) (.empty capacity) :=
  show Follows (empty Time capacity).clear (UseOrder.empty capacity).clear from follows_clear rfl

end Uses

end TemplateCache

end SqlAlgebra
