import SqlAlgebra.Template.Basic

/-!
# The template cache

Templates are kept per dialect and key, up to a number of them; when there is no room, the one that went
unused the longest gives way.  A clock ticks with every look into the cache.  An entry carries the time
of its last use, and the times of use lead back to the keys, so that the oldest entry is the first.
-/

namespace SqlAlgebra

/-- Times as a clock shows them, in the order of their numbers. -/
class Clock (Time : Type) where
  number : Time → Nat
  number_inj : ∀ a b, number a = number b → a = b
  start : Time
  tick : Time → Time

namespace Clock

/-- A clock that goes on for ever. -/
instance : Clock Nat where
  number := id
  number_inj _ _ := id
  start := 0
  tick := (· + 1)

/-- A clock of 64 bits, on which the first time comes again after the last. -/
instance : Clock UInt64 where
  number := UInt64.toNat
  number_inj _ _ := UInt64.toNat_inj.1
  start := 0
  tick := (· + 1)

end Clock

open Clock (number tick)

/-- What a template is kept under. -/
structure TemplateKey where
  dialect : String
  key : Key
deriving DecidableEq

structure CachedTemplate (Time : Type) where
  template : Template
  /-- The time of the last use. -/
  stamp : Time

structure TemplateCache (Time : Type) where
  capacity : Nat
  entries : List (TemplateKey × CachedTemplate Time)
  /-- The times of last use with the keys used then, the earliest first. -/
  recency : List (Time × TemplateKey)
  clock : Time

namespace TemplateCache

variable {Time : Type}

def empty (Time : Type) [Clock Time] (capacity : Nat) : TemplateCache Time :=
  ⟨capacity, [], [], Clock.start⟩

def size (cache : TemplateCache Time) : Nat := cache.entries.length

/-- The entries with another entry under a key. -/
def replace (key : TemplateKey) (entry : CachedTemplate Time) :
    List (TemplateKey × CachedTemplate Time) → List (TemplateKey × CachedTemplate Time)
  | [] => []
  | (k, old) :: rest => if k = key then (k, entry) :: rest else (k, old) :: replace key entry rest

/-- Drops the entries that went unused the longest until no more than `capacity` are left. -/
def evict (capacity : Nat) :
    List (Time × TemplateKey) → List (TemplateKey × CachedTemplate Time) →
      List (Time × TemplateKey) × List (TemplateKey × CachedTemplate Time)
  | [], entries => ([], entries)
  | (stamp, key) :: rest, entries =>
    if entries.length ≤ capacity then ((stamp, key) :: rest, entries)
    else evict capacity rest (entries.filter fun entry => entry.1 ≠ key)

/-- Drops every entry; the clock goes on. -/
def clear (cache : TemplateCache Time) : TemplateCache Time :=
  { cache with entries := [], recency := [] }

variable [Clock Time]

/-- The times of use with a key that is used now.  There is one key for each time. -/
def record (now : Time) (key : TemplateKey) : List (Time × TemplateKey) → List (Time × TemplateKey)
  | [] => [(now, key)]
  | (stamp, k) :: rest =>
    if number now < number stamp then (now, key) :: (stamp, k) :: rest
    else if number now = number stamp then (now, key) :: rest
    else (stamp, k) :: record now key rest

/-- The times of use when the key that was used at some time is used now. -/
def renew (last now : Time) (recency : List (Time × TemplateKey)) : List (Time × TemplateKey) :=
  match recency.find? fun use => number use.1 = number last with
  | none => recency
  | some use => record now use.2 (recency.filter fun use => number use.1 ≠ number last)

/-- Looks up a template.  A template that is found counts as used now. -/
def get (cache : TemplateCache Time) (key : TemplateKey) : Option Template × TemplateCache Time :=
  let now := tick cache.clock
  match cache.entries.lookup key with
  | none => (none, { cache with clock := now })
  | some entry =>
    (some entry.template,
      { cache with
        clock := now
        entries := replace key { entry with stamp := now } cache.entries
        recency := renew entry.stamp now cache.recency })

/-- Keeps a template under a key, unless there is one already; the one that is there now is given back.
-/
def insertIfAbsent (cache : TemplateCache Time) (key : TemplateKey) (template : Template) :
    Template × TemplateCache Time :=
  match cache.get key with
  | (some existing, cache) => (existing, cache)
  | (none, cache) =>
    if cache.capacity = 0 then (template, cache)
    else
      let now := tick cache.clock
      let (recency, entries) :=
        evict cache.capacity (record now key cache.recency)
          (cache.entries ++ [(key, ⟨template, now⟩)])
      (template, { cache with clock := now, recency := recency, entries := entries })

end TemplateCache

end SqlAlgebra
