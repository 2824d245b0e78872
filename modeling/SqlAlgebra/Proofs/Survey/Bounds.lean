import SqlAlgebra.Proofs.Survey.Marks

/-!
# Surveys under different bounds

A survey goes on after its key has grown too large, and all else that it collects is collected as
before.  So there is one key that the surveys of a tree write under all bounds: those that have room for
the whole of it have it in the end, and the others have none.  They agree on everything else.
-/

namespace SqlAlgebra

namespace KeyBuffer

variable {bound : Nat} {key : Key}

/-- A buffer into which a key was written. -/
def filled (bound : Nat) (key : Key) : KeyBuffer :=
  if key.length ≤ bound then ⟨bound, key.reverse, key.length, false⟩ else ⟨bound, [], bound, true⟩

theorem filled_nil (bound : Nat) : filled bound [] = .empty bound :=
  if_pos (Nat.zero_le bound)

/-- One element more is written, or it is the first for which there is no room, or one after that. -/
theorem push_filled (bound : Nat) (key : Key) (element : KeyElement) :
    (filled bound key).push element = filled bound (key ++ [element]) := by
  obtain room | full | beyond : key.length < bound ∨ key.length = bound ∨ bound < key.length := by
    omega
  · have fits : (key ++ [element]).length ≤ bound := by
      rw [List.length_append]
      exact room
    rw [filled, if_pos (Nat.le_of_lt room), filled, if_pos fits]
    simp [push, Nat.ne_of_lt room]
  · have large : ¬(key ++ [element]).length ≤ bound := by
      rw [List.length_append, full]
      exact Nat.not_succ_le_self bound
    rw [filled, if_pos (Nat.le_of_eq full), filled, if_neg large]
    simp [push, full]
  · have larger : ¬(key ++ [element]).length ≤ bound := by
      rw [List.length_append]
      omega
    rw [filled, if_neg (Nat.not_le_of_lt beyond), filled, if_neg larger]
    exact push_of_overflown rfl element

theorem key?_filled (bound : Nat) (key : Key) :
    (filled bound key).key? = if key.length ≤ bound then some key else none := by
  unfold filled
  split
  · exact congrArg some key.reverse_reverse
  · rfl

end KeyBuffer

namespace Survey

variable {step step' : Survey → Survey}

/-- A survey whose key is the given one, as far as a bound allows. -/
def bounded (s : Survey) (key : Key) (bound : Nat) : Survey :=
  { s with buffer := .filled bound key }

/-- Whether a step does the same under all bounds. -/
def Uniform (step : Survey → Survey) : Prop :=
  ∀ (s : Survey) (key : Key), ∃ (s' : Survey) (key' : Key), ∀ bound,
    step (s.bounded key bound) = s'.bounded key' bound

theorem uniform_id : Uniform id := fun s key => ⟨s, key, fun _ => rfl⟩

theorem Uniform.then (h : Uniform step) (h' : Uniform step') :
    Uniform fun s => step' (step s) := by
  intro s key
  obtain ⟨s₁, key₁, first⟩ := h s key
  obtain ⟨s₂, key₂, second⟩ := h' s₁ key₁
  exact ⟨s₂, key₂, fun bound => (congrArg step' (first bound)).trans (second bound)⟩

theorem push_bounded (s : Survey) (key : Key) (bound : Nat) (element : KeyElement) :
    (s.bounded key bound).push element = s.bounded (key ++ [element]) bound := by
  rw [push, bounded, bounded, KeyBuffer.push_filled]

theorem uniform_push (element : KeyElement) : Uniform (·.push element) :=
  fun s key => ⟨s, _, fun bound => push_bounded s key bound element⟩

theorem uniform_identifier (name : String) : Uniform (·.identifier name) := by
  intro s key
  refine ⟨s.identifier name, key ++ [.spelling name], fun bound => ?_⟩
  show identifier (s.bounded key bound) name = _
  unfold identifier bounded
  rw [KeyBuffer.push_filled]

theorem uniform_anonymous : Uniform (·.take .anonymous) := by
  intro s key
  refine ⟨{ s with anonymous := s.anonymous + 1 }, key ++ [.anonymous (s.anonymous + 1)], ?_⟩
  exact fun bound => push_bounded { s with anonymous := s.anonymous + 1 } key bound
    (.anonymous (s.anonymous + 1))

theorem uniform_slotted (n : Node) : Uniform (·.slotted n) := by
  intro s key
  have slot (bound : Nat) : (s.bounded key bound).slot? n = s.slot? n := rfl
  cases found : s.slot? n with
  | some i =>
    refine ⟨s, key ++ [.slot i], fun bound => ?_⟩
    show slotted (s.bounded key bound) n = _
    rw [slotted, slot, found]
    exact push_bounded s key bound _
  | none =>
    refine ⟨{ s with binds := s.binds ++ [n] }, key ++ [.slot s.binds.length], fun bound => ?_⟩
    show slotted (s.bounded key bound) n = _
    rw [slotted, slot, found]
    exact push_bounded { s with binds := s.binds ++ [n] } key bound _

theorem uniform_define (n : Node) : Uniform (·.define n) := by
  intro s key
  refine ⟨{ s with defined := n.id :: s.defined }, key ++ [.definition s.defined.length], ?_⟩
  exact fun bound => push_bounded { s with defined := n.id :: s.defined } key bound
    (.definition s.defined.length)

theorem uniform_visit (n : Node) : Uniform (·.visit n) := by
  intro s key
  refine ⟨s.visit n, key, fun bound => ?_⟩
  unfold visit bounded
  dsimp only
  split <;> rfl

theorem uniform_entered (n : Node) : Uniform (·.entered n) := by
  have arrived : Uniform fun s => (s.visit n).push (.kind n.kindName) :=
    (uniform_visit n).then (uniform_push _)
  unfold entered
  by_cases known : n.hasOrdinal
  · simp only [if_pos known]
    exact (uniform_define n).then arrived
  · simp only [if_neg known]
    exact arrived

theorem uniform_takeAll {marks : List Mark} (h : ∀ mark ∈ marks, Uniform (·.take mark)) :
    Uniform (·.takeAll marks) := by
  induction marks with
  | nil => exact uniform_id
  | cons mark marks ih =>
    exact (h mark List.mem_cons_self).then (ih fun m hm => h m (List.mem_cons_of_mem _ hm))

/-- A survey takes down a node in the same way under all bounds: whether a node was met before does not
depend on the key. -/
theorem uniform_survey (n : Node) : Uniform (Node.survey · n) := by
  induction n using Node.induct with
  | step n ih =>
    have marks : Uniform (·.takeAll n.marks) := uniform_takeAll fun mark hm => by
      cases mark with
      | put element => exact uniform_push element
      | name ident => exact uniform_identifier ident
      | anonymous => exact uniform_anonymous
      | slot a => exact uniform_slotted a
      | child c => exact ih c (Node.mem_children_of_mark hm)
    intro s key
    have ordinal (bound : Nat) : (s.bounded key bound).ordinal? n = s.ordinal? n := rfl
    simp only [survey_eq, ordinal]
    cases (if n.hasOrdinal then s.ordinal? n else none) with
    | some i => exact uniform_push (.reference i) s key
    | none => exact (uniform_entered n).then marks s key

end Survey

namespace Node

/-- The surveys of a tree under all bounds write one key and agree on all else. -/
theorem exists_bounded (n : Node) :
    ∃ (s : Survey) (key : Key), ∀ bound, n.surveyed bound = s.bounded key bound := by
  obtain ⟨s, key, surveyed⟩ := Survey.uniform_survey n (.start 0) []
  refine ⟨s, key, fun bound => ?_⟩
  rw [← surveyed, Survey.bounded, KeyBuffer.filled_nil]
  rfl

end Node

end SqlAlgebra
