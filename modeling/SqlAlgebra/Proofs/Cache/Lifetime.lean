import Mathlib.Algebra.Group.Nat.Defs
import SqlAlgebra.Proofs.Cache.Recency

/-!
# How long a clock lasts

A cache behaves like the order in which its templates were used while its clock goes on.  A look takes
a tick, and a template that is kept takes another one.  So how many ticks some uses take is told by
the order of use alone, and a clock of 64 bits lasts for all uses that take fewer than `2 ^ 64`.  The
tick after these leads back to the first time: the template that was used last then counts as the one
that went unused the longest, and gives way at once.
-/

namespace SqlAlgebra

open Clock (number tick Goes)

namespace Clock

/-- Whether a clock goes on from every time that is numbered below some number. -/
def Lasts (Time : Type) [Clock Time] (n : Nat) : Prop := ∀ now : Time, number now < n → Goes now

theorem lasts_word : Lasts UInt64 (2 ^ 64 - 1) := by
  intro now before
  have wraps : (now + 1).toNat = (now.toNat + 1) % 2 ^ 64 := UInt64.toNat_add now 1
  have below : now.toNat < 2 ^ 64 - 1 := before
  exact wraps.trans (Nat.mod_eq_of_lt (by omega))

end Clock

namespace UseOrder

/-- How many ticks a use takes. -/
def ticks (order : UseOrder) : CacheUse → Nat
  | .get _ => 1
  | .insertIfAbsent key _ => if (order.get key).1.isNone && order.capacity != 0 then 2 else 1
  | .clear => 0

/-- How many ticks some uses take. -/
def ticksOver (order : UseOrder) : List CacheUse → Nat
  | [] => 0
  | use :: rest => order.ticks use + (order.step use).2.ticksOver rest

theorem ticks_le (order : UseOrder) (use : CacheUse) : order.ticks use ≤ 2 := by
  unfold ticks
  split
  · exact Nat.le_succ 1
  · split
    · exact Nat.le_refl _
    · exact Nat.le_succ 1
  · exact Nat.zero_le _

/-- No use takes more than two ticks. -/
theorem ticksOver_le (order : UseOrder) (uses : List CacheUse) :
    order.ticksOver uses ≤ 2 * uses.length := by
  induction uses generalizing order with
  | nil => exact Nat.le_refl _
  | cons use rest ih =>
    have first := order.ticks_le use
    have others := ih (order.step use).2
    rw [ticksOver, List.length_cons]
    omega

end UseOrder

namespace TemplateCache

section Uses

variable {Time : Type} [Clock Time] {cache : TemplateCache Time} {order : UseOrder}
  {key : TemplateKey} {t : Template} {n : Nat}

theorem capacity_step (cache : TemplateCache Time) (use : CacheUse) :
    (cache.step use).2.capacity = cache.capacity := by
  cases use with
  | get key => exact get_capacity cache key
  | insertIfAbsent key t => exact insertIfAbsent_capacity
  | clear => rfl

theorem capacity_after (cache : TemplateCache Time) (uses : List CacheUse) :
    (cache.after uses).capacity = cache.capacity := by
  induction uses generalizing cache with
  | nil => rfl
  | cons use rest ih => exact (ih _).trans (capacity_step cache use)

theorem clock_insertIfAbsent : (cache.insertIfAbsent key t).2.clock =
    if (cache.get key).1.isNone && cache.capacity != 0 then tick (tick cache.clock)
    else tick cache.clock := by
  rw [← clock_get cache key, ← get_capacity cache key]
  unfold TemplateCache.insertIfAbsent
  generalize cache.get key = looked
  rcases looked with ⟨_ | existing, cache⟩
  · by_cases closed : cache.capacity = 0
    · simp [closed]
    · simp [closed]
  · rfl

/-- One use gives back the same, and the order goes on to be that of the cache.  The clock shows how
many ticks it took. -/
theorem Follows.step (h : Follows cache order) (lasts : Clock.Lasts Time n) (use : CacheUse)
    (left : number cache.clock + order.ticks use ≤ n) :
    (cache.step use).1 = (order.step use).1 ∧ Follows (cache.step use).2 (order.step use).2 ∧
      number (cache.step use).2.clock = number cache.clock + order.ticks use := by
  cases use with
  | get key =>
    have goes : Goes cache.clock := lasts _ left
    obtain ⟨answer, follows⟩ := h.get goes key
    exact ⟨answer, follows, (congrArg number (clock_get cache key)).trans goes⟩
  | insertIfAbsent key t =>
    have goes : Goes cache.clock := by
      refine lasts _ (Nat.lt_of_lt_of_le (Nat.lt_add_of_pos_right ?_) left)
      unfold UseOrder.ticks
      dsimp only
      split <;> exact Nat.succ_pos _
    have same : ((cache.get key).1.isNone && cache.capacity != 0) =
        ((order.get key).1.isNone && order.capacity != 0) := by
      rw [(h.get goes key).1, h.capacity]
    have kept (is : ((order.get key).1.isNone && order.capacity != 0) = true) :
        Goes (tick cache.clock) := by
      refine lasts _ ?_
      rw [UseOrder.ticks, if_pos is] at left
      rw [show number (tick cache.clock) = _ from goes]
      omega
    obtain ⟨answer, follows⟩ := h.insertIfAbsent goes key t fun new room => kept (by
      rw [new, h.capacity, bne_iff_ne.2 room]
      rfl)
    refine ⟨congrArg some answer, follows, ?_⟩
    show number (cache.insertIfAbsent key t).2.clock = _
    rw [clock_insertIfAbsent, same, UseOrder.ticks]
    split
    · next is => rw [show number (tick (tick cache.clock)) = _ from kept is, goes]
    · exact goes
  | clear => exact ⟨rfl, h.clear, rfl⟩

/-- The same holds of any uses for which the clock lasts. -/
theorem Follows.answers (h : Follows cache order) (lasts : Clock.Lasts Time n)
    (uses : List CacheUse) (left : number cache.clock + order.ticksOver uses ≤ n) :
    cache.answers uses = order.answers uses ∧ Follows (cache.after uses) (order.after uses) ∧
      number (cache.after uses).clock = number cache.clock + order.ticksOver uses := by
  induction uses generalizing cache order with
  | nil => exact ⟨rfl, h, rfl⟩
  | cons use rest ih =>
    rw [UseOrder.ticksOver, ← Nat.add_assoc] at left ⊢
    obtain ⟨answer, follows, clock⟩ := h.step lasts use (Nat.le_of_add_right_le left)
    rw [← clock] at left ⊢
    obtain ⟨answers, after, clock⟩ := ih follows left
    refine ⟨?_, after, clock⟩
    rw [TemplateCache.answers, UseOrder.answers, answer, follows.length_eq, answers]

end Uses

/-- As long as its uses take fewer than `2 ^ 64` ticks, which they do if they are fewer than `2 ^ 63`,
a cache with a clock of 64 bits gives back what an order of uses of the same capacity does, and is as
large.  All the time its tables agree, and no more than its capacity are kept. -/
theorem answers_eq_useOrder (capacity : Nat) (uses : List CacheUse) :
    (UseOrder.empty capacity).ticksOver uses ≤ 2 * uses.length ∧
      ((UseOrder.empty capacity).ticksOver uses < 2 ^ 64 →
        (empty UInt64 capacity).answers uses = (UseOrder.empty capacity).answers uses ∧
          ((empty UInt64 capacity).after uses).Consistent ∧
            ((empty UInt64 capacity).after uses).size ≤ capacity ∧
              ((empty UInt64 capacity).after uses).clock.toNat =
                (UseOrder.empty capacity).ticksOver uses) := by
  refine ⟨UseOrder.ticksOver_le _ uses, fun few => ?_⟩
  have start : number (empty UInt64 capacity).clock = 0 := rfl
  obtain ⟨answers, follows, clock⟩ := (follows_empty capacity).answers Clock.lasts_word uses
    (by rw [start]; omega)
  have room := follows.room
  rw [capacity_after] at room
  rw [start, Nat.zero_add] at clock
  exact ⟨answers, follows.toConsistent, room, clock⟩

section Sample

def sampleKey (name : String) : TemplateKey := ⟨name, []⟩

def sampleTemplate (name : String) : Template := ⟨[.text name]⟩

def sampleInsertion (name : String) : CacheUse :=
  .insertIfAbsent (sampleKey name) (sampleTemplate name)

/-- Two templates that are kept by turns, one turn more than `n`, and a look for the last one. -/
def sampleUses : Nat → List CacheUse
  | 0 => [sampleInsertion "a", sampleInsertion "b", .get (sampleKey "b")]
  | n + 1 => sampleInsertion "a" :: sampleInsertion "b" :: sampleUses n

end Sample

/-- In a cache for one template two of them drive each other out, at two ticks for each. -/
theorem answers_eq_useOrder_sampleUses :
    (UseOrder.empty 1).ticksOver (sampleUses 1) = 9 ∧
      (empty UInt64 1).answers (sampleUses 1) = (UseOrder.empty 1).answers (sampleUses 1) ∧
        ((empty UInt64 1).after (sampleUses 1)).Consistent ∧
          ((empty UInt64 1).after (sampleUses 1)).size ≤ 1 := by
  have ticks : (UseOrder.empty 1).ticksOver (sampleUses 1) = 9 := by decide +kernel
  obtain ⟨-, spec⟩ := answers_eq_useOrder 1 (sampleUses 1)
  obtain ⟨answers, consistent, room, -⟩ := spec (by rw [ticks]; decide)
  exact ⟨ticks, answers, consistent, room⟩

/-! ### The tick after the last one -/

section Sample

/-- A cache for one template, which was used just now. -/
def sampleSingle (now : Nat) (name : String) : TemplateCache UInt64 :=
  ⟨1, [(sampleKey name, ⟨sampleTemplate name, .ofNat now⟩)], [(.ofNat now, sampleKey name)],
    .ofNat now⟩

theorem step_sampleSingle {now : Nat} {name other : String} (left : now + 2 < 2 ^ 64)
    (differ : other ≠ name) :
    ((sampleSingle now name).step (sampleInsertion other)).2 = sampleSingle (now + 2) other := by
  have different : sampleKey other ≠ sampleKey name := fun same =>
    differ (congrArg TemplateKey.dialect same)
  have absent : [(sampleKey name, (⟨sampleTemplate name, .ofNat now⟩ : CachedTemplate UInt64))].lookup
      (sampleKey other) = none := by
    rw [List.lookup_cons, beq_false_of_ne different]
    rfl
  have next (i : Nat) : tick (UInt64.ofNat i) = .ofNat (i + 1) := (UInt64.ofNat_add i 1).symm
  have later : ∀ use ∈ [(UInt64.ofNat now, sampleKey name)],
      number use.1 < number (UInt64.ofNat (now + 2)) := by
    intro use hu
    rw [List.mem_singleton.1 hu]
    show (UInt64.ofNat now).toNat < (UInt64.ofNat (now + 2)).toNat
    have before : now < 2 ^ 64 := Nat.lt_of_add_right_lt left
    rw [UInt64.toNat_ofNat_of_lt' before, UInt64.toNat_ofNat_of_lt' left]
    exact Nat.lt_add_of_pos_right Nat.two_pos
  show (TemplateCache.insertIfAbsent _ _ _).2 = _
  unfold TemplateCache.insertIfAbsent get sampleSingle
  dsimp only
  rw [absent, next]
  dsimp only
  rw [if_neg Nat.one_ne_zero, next, record_of_later later]
  simp [evict, different, -UInt64.ofNat_add]

/-- If the turns take all the ticks there are, the last template is gone at once. -/
theorem answers_sampleSingle_ne {n now : Nat} (full : now + 4 * n + 4 = 2 ^ 64) :
    (sampleSingle now "b").answers (sampleUses n) ≠
      (⟨1, [(sampleKey "b", sampleTemplate "b")]⟩ : UseOrder).answers (sampleUses n) := by
  induction n generalizing now with
  | zero =>
    obtain rfl : now = 2 ^ 64 - 4 := by omega
    decide +kernel
  | succ n ih =>
    intro same
    rw [sampleUses, answers, answers, step_sampleSingle (by omega) (by decide),
      step_sampleSingle (by omega) (by decide)] at same
    exact ih (by omega) (List.cons.inj (List.cons.inj same).2).2

theorem length_sampleUses (n : Nat) : (sampleUses n).length = 2 * n + 3 := by
  induction n with
  | zero => rfl
  | succ n ih =>
    rw [sampleUses, List.length_cons, List.length_cons, ih]
    omega

theorem answers_empty_ne {n : Nat} (full : 4 * n + 4 = 2 ^ 64) :
    (empty UInt64 1).answers (sampleUses n) ≠ (UseOrder.empty 1).answers (sampleUses n) := by
  obtain ⟨n, rfl⟩ : ∃ m, n = m + 1 := ⟨n - 1, by omega⟩
  have first : ((empty UInt64 1).step (sampleInsertion "a")).2 = sampleSingle 2 "a" := rfl
  intro same
  rw [sampleUses, answers, answers, first, step_sampleSingle (by decide) (by decide)] at same
  exact answers_sampleSingle_ne (by omega) (List.cons.inj (List.cons.inj same).2).2

end Sample

/-- After `2 ^ 64` ticks, which are no more than `2 ^ 63` uses, a cache does not behave like its order
of use any more: the look for the template that was kept last is in vain. -/
theorem answers_ne_useOrder :
    (sampleUses (2 ^ 62 - 1)).length = 2 ^ 63 + 1 ∧
      (empty UInt64 1).answers (sampleUses (2 ^ 62 - 1)) ≠
        (UseOrder.empty 1).answers (sampleUses (2 ^ 62 - 1)) := by
  have length : (sampleUses (2 ^ 62 - 1)).length = 2 * (2 ^ 62 - 1) + 3 := length_sampleUses _
  exact ⟨length.trans (by decide), answers_empty_ne (by decide)⟩

end TemplateCache

end SqlAlgebra
