import Mathlib.Data.Finset.Card
import SqlAlgebra.Proofs.Template.Inline

/-!
# The search for a fresh name

A name is looked for by trying one number after another, from the last one that was tried for its
stem on.  Nothing in the search says that it ends.  It does because names with different numbers
differ: of one name more than there are in use, one is free.  What is found is taken down, so the
names in use are those of the caller and all that were ever made.
-/

namespace SqlAlgebra.Namer

/-- The search for a free name after a number: so many names are tried, one number after another,
and the last of them is the first that is free. -/
inductive Search (namer : Namer) (stem : String) : Nat → Nat → Nat → Prop where
  | found {n : Nat} :
      namer.isFree (numbered stem (n + 1)) = true → Search namer stem n 1 (n + 1)
  | passed {n tries last : Nat} :
      namer.isFree (numbered stem (n + 1)) = false → Search namer stem (n + 1) tries last →
        Search namer stem n (tries + 1) last

variable {namer : Namer} {stem : String} {n tries last : Nat}

/-- A search ends at the first free name after the number from which it starts. -/
theorem search_of_first (free : namer.isFree (numbered stem last) = true) (above : n < last)
    (passed : ∀ k, n < k → k < last → namer.isFree (numbered stem k) = false) :
    namer.Search stem n (last - n) last := by
  generalize distance : last - n = tries
  induction tries generalizing n with
  | zero => omega
  | succ tries ih =>
    obtain rfl | further : n + 1 = last ∨ n + 1 < last := by omega
    · obtain rfl : tries = 0 := by omega
      exact .found free
    · refine .passed (passed (n + 1) (Nat.lt_succ_self n) further) ?_
      exact ih further (fun k hk => passed k (Nat.lt_of_succ_lt hk)) (by omega)

/-- All names but the last one that a search tries are in use. -/
theorem Search.inUse (h : namer.Search stem n tries last) {k : Nat} (hk : k + 1 < tries) :
    numbered stem (n + 1 + k) ∈ namer.taken ++ namer.issued := by
  induction h generalizing k with
  | found => omega
  | @passed n _ _ taken _ ih =>
    cases k with
    | zero =>
      rw [← Bool.not_eq_true, isFree_iff, ← not_or, ← List.mem_append, not_not] at taken
      exact taken
    | succ k =>
      have later := ih (k := k) (by omega)
      rwa [Nat.add_assoc (n + 1) 1 k, Nat.add_comm 1 k] at later

/-- A search tries at most one name more than there are in use, since the names that it tries are
all different. -/
theorem Search.tries_le (h : namer.Search stem n tries last) :
    tries ≤ (namer.taken ++ namer.issued).toFinset.card + 1 := by
  let names : Finset String :=
    (Finset.range (tries - 1)).image fun k => numbered stem (n + 1 + k)
  have different : names.card = tries - 1 := by
    rw [Finset.card_image_of_injective, Finset.card_range]
    intro k k' same
    exact Nat.add_left_cancel (numbered_injective same).2
  have subset : names ⊆ (namer.taken ++ namer.issued).toFinset := by
    intro name mem
    obtain ⟨k, hk, rfl⟩ := Finset.mem_image.1 mem
    rw [Finset.mem_range] at hk
    exact List.mem_toFinset.2 (h.inUse (by omega))
  have card := Finset.card_le_card subset
  rw [different] at card
  omega

/-- A fresh name is what the search after the last number of its stem ends at, and that number is
remembered. -/
theorem search_fresh (namer : Namer) (stem : String) :
    ∃ tries last, namer.Search stem (namer.counter stem) tries last ∧
      (namer.fresh stem).1 = numbered stem last ∧ (namer.fresh stem).2.counter stem = last := by
  have free := namer.isFree_fresh stem
  refine ⟨_, _, search_of_first free ?_ fun k above below => ?_, rfl, ?_⟩
  · exact namer.le_firstFree stem _ _
  · exact not_isFree_of_lt_firstFree above below
  · show (List.lookup stem ((stem, _) :: _)).getD 0 = _
    rw [List.lookup_cons_self]
    rfl

/-! ## The names that were made -/

/-- A node for which a name is asked. -/
inductive Use where
  /-- A FROM element or label without a name. -/
  | anonymous (n : Node)
  | param (n : Node) (b : BindParam)

/-- The name that is given for a use, and the namer after it. -/
def serve (namer : Namer) : Use → String × Namer
  | .anonymous n => namer.anonymous n
  | .param n b => namer.param n b

/-- The namer after some uses. -/
def after (namer : Namer) : List Use → Namer
  | [] => namer
  | use :: rest => (namer.serve use).2.after rest

/-- The node of a use and the stem of its name; a parameter that keeps its key has none. -/
def Use.stem? : Use → Option (Identity × String)
  | .anonymous n => some (n.id, "anon")
  | .param n b =>
    match b.key with
    | some key => if b.isUnique then some (n.id, key) else none
    | none => some (n.id, "param")

/-- The name that is made for a use, if its node has none yet and does not keep its key. -/
def made? (namer : Namer) (use : Use) : Option String :=
  match use.stem? with
  | some (i, stem) =>
    match namer.assigned.lookup i with
    | some _ => none
    | none => some (namer.fresh stem).1
  | none => none

/-- The names that are made for some uses, the last one first. -/
def made (namer : Namer) : List Use → List String
  | [] => []
  | use :: rest => (namer.serve use).2.made rest ++ (namer.made? use).toList

theorem snd_serve (namer : Namer) (use : Use) :
    (namer.serve use).2 =
      use.stem?.elim namer fun source => (namer.assign source.1 source.2).2 := by
  cases use with
  | anonymous n => rfl
  | param n b => rcases b with ⟨_ | key, value, _ | _, isExpanding, isCrud⟩ <;> rfl

/-- One use takes down the name that is made for it, and no other. -/
theorem serve_records (namer : Namer) (use : Use) :
    (namer.serve use).2.taken = namer.taken ∧
      (namer.serve use).2.issued = (namer.made? use).toList ++ namer.issued := by
  rw [snd_serve, made?]
  cases use.stem? with
  | none => exact ⟨rfl, rfl⟩
  | some source =>
    dsimp only [Option.elim_some]
    rw [assign]
    cases namer.assigned.lookup source.1 <;> exact ⟨rfl, rfl⟩

/-- The names that a namer has issued are all that it ever made. -/
theorem after_records (namer : Namer) (uses : List Use) :
    (namer.after uses).taken = namer.taken ∧
      (namer.after uses).issued = namer.made uses ++ namer.issued := by
  induction uses generalizing namer with
  | nil => exact ⟨rfl, rfl⟩
  | cons use rest ih =>
    obtain ⟨taken, issued⟩ := ih (namer.serve use).2
    obtain ⟨taken', issued'⟩ := namer.serve_records use
    refine ⟨taken.trans taken', issued.trans ?_⟩
    rw [issued', made, List.append_assoc]

/-- Whatever names were asked for before, the search for a fresh name ends after at most one more
try than there are names in use.  It ends at a name that the caller did not write and that was
not made before, and then all names that were made since the start are taken down. -/
theorem fresh_of_after (taken : List String) (uses : List Use) (stem : String) :
    let namer := (start taken).after uses
    ∃ tries last, namer.Search stem (namer.counter stem) tries last ∧
      tries ≤ (namer.taken ++ namer.issued).toFinset.card + 1 ∧
      (namer.fresh stem).1 = numbered stem last ∧
      numbered stem last ∉ namer.taken ∧ numbered stem last ∉ namer.issued ∧
      namer.taken = taken ∧ namer.issued = (start taken).made uses ∧
      (namer.fresh stem).2 =
        { namer with
          issued := numbered stem last :: (start taken).made uses
          counters := (namer.fresh stem).2.counters } ∧
      (namer.fresh stem).2.counter stem = last ∧
      ∀ other ≠ stem, (namer.fresh stem).2.counter other = namer.counter other := by
  intro namer
  obtain ⟨written, issued⟩ := (start taken).after_records uses
  rw [show (start taken).issued = [] from rfl, List.append_nil] at issued
  obtain ⟨tries, last, search, name, counter⟩ := namer.search_fresh stem
  obtain ⟨untaken, unissued⟩ := isFree_iff.1 (namer.isFree_fresh stem)
  rw [name] at untaken unissued
  refine ⟨tries, last, search, search.tries_le, name, untaken, unissued, written, issued, ?_,
    counter, fun other apart => counter_fresh_of_ne apart⟩
  rw [← name, ← issued]
  rfl

end SqlAlgebra.Namer
