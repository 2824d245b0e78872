import SqlAlgebra.Proofs.Coercion.Acceptance

/-!
# Following external elements

An external element stands for another input, which may be an external element again.  Whatever the
chain does later on, no more than a hundred of its elements are looked at: if another input is among
what they stand for, the coercion goes on with it as a role does with its input, and otherwise the
coercion is given up.  No other step of a coercion ends in the same error.
-/

namespace SqlAlgebra

open Build (EndsOver)

namespace Input

/-- Whether an input is external and stands for another one. -/
def isElement : Input → Bool
  | .element _ _ => true
  | _ => false

/-- Whether an input is come to from another one through so many elements.  An element without a
target is followed by itself. -/
inductive Leads : Nat → Input → Input → Prop where
  | here {i : Input} : Leads 0 i i
  | target {k : Nat} {repr : String} {i out : Input} :
      Leads k i out → Leads (k + 1) (.element repr (some i)) out
  | itself {k : Nat} {repr : String} {out : Input} :
      Leads k (.element repr none) out → Leads (k + 1) (.element repr none) out

variable {input terminal : Input} {steps k : Nat}

theorem follow_of_not_isElement (plain : input.isElement = false) (steps : Nat) :
    input.follow steps = some input := by
  cases input with
  | element => cases plain
  | _ => cases steps <;> rfl

theorem follow_of_leads (h : Leads k input terminal) (plain : terminal.isElement = false)
    (le : k ≤ steps) : input.follow steps = some terminal := by
  induction h generalizing steps with
  | here => exact follow_of_not_isElement plain steps
  | target _ ih | itself _ ih =>
    cases steps with
    | zero => exact absurd le (Nat.not_succ_le_zero _)
    | succ steps => exact @ih steps plain (Nat.le_of_succ_le_succ le)

theorem leads_of_follow (found : input.follow steps = some terminal) :
    terminal.isElement = false ∧ ∃ k ≤ steps, Leads k input terminal := by
  induction steps generalizing input with
  | zero => cases input <;> cases found <;> exact ⟨rfl, 0, Nat.le_refl 0, .here⟩
  | succ steps ih =>
    cases input with
    | element repr target =>
      cases target with
      | some next =>
        obtain ⟨plain, k, le, leads⟩ := @ih next found
        exact ⟨plain, k + 1, Nat.succ_le_succ le, .target leads⟩
      | none =>
        obtain ⟨plain, k, le, leads⟩ := @ih (.element repr none) found
        exact ⟨plain, k + 1, Nat.succ_le_succ le, .itself leads⟩
    | _ =>
      cases found
      exact ⟨rfl, 0, Nat.zero_le _, .here⟩

/-- What is found within so many steps is what is come to through no more elements. -/
theorem follow_eq_some_iff :
    input.follow steps = some terminal ↔
      terminal.isElement = false ∧ ∃ k ≤ steps, Leads k input terminal :=
  ⟨leads_of_follow, fun ⟨plain, _, le, leads⟩ => follow_of_leads leads plain le⟩

/-- External elements of which each stands for the next one, and the last one for an input. -/
def chain (reprs : List String) (input : Input) : Input :=
  reprs.foldr (fun repr next => .element repr (some next)) input

theorem leads_chain (reprs : List String) (input : Input) :
    Leads reprs.length (chain reprs input) input := by
  induction reprs with
  | nil => exact .here
  | cons repr reprs ih => exact .target ih

/-- A chain leads to nothing but elements before all of it was looked at. -/
theorem Leads.length_le {reprs : List String} (h : Leads k (chain reprs input) terminal)
    (plain : terminal.isElement = false) : reprs.length ≤ k := by
  induction reprs generalizing k with
  | nil => exact Nat.zero_le k
  | cons repr reprs ih =>
    cases h with
    | here => cases plain
    | target h => exact Nat.succ_le_succ (ih h)

end Input

namespace Site

variable {site : Site} {given input : Input} {resolved : Coerced}

/-- What a role does with what its input stands for. -/
def takeUp (site : Site) (given : Input) : Coerced → Coerce Coerced
  | .node n => if site.role.accepts n then site.settle given n else site.convert given (.node n)
  | resolved => site.convert given resolved

/-- No step after the chain follows anything. -/
theorem fits_takeUp (general : site.role.isLiteralOnly = false) :
    EndsOver (site.takeUp given resolved) site.Fits Error.IsPrompt := by
  have names : site.role = .truncatedLabel → ∀ n, resolved ≠ .node n := by
    intro role
    rw [role] at general
    cases general
  unfold takeUp
  split
  · refine .ite fits_settle fun untaken => fits_convert (fun n hn => ?_) names
    cases hn
    exact Bool.eq_false_iff.2 untaken
  · next plain => exact fits_convert (fun n hn => absurd hn (plain n)) names

theorem coerce_element (general : site.role.isLiteralOnly = false)
    (element : input.isElement = true) :
    site.coerce input = site.unwrap input >>= site.takeUp input := by
  have resolve : site.resolve input = site.unwrap input := by
    unfold Site.resolve
    rw [general]
    cases input with
    | element => rfl
    | _ => cases element
  have takeUp (resolved : Coerced) : (match resolved with
      | .node n =>
        if site.role.accepts n then site.settle input n else site.convert input resolved
      | _ => site.convert input resolved) = site.takeUp input resolved := by
    cases resolved <;> rfl
  have coerce : site.coerce input = site.resolve input >>= fun resolved => (match resolved with
      | .node n =>
        if site.role.accepts n then site.settle input n else site.convert input resolved
      | _ => site.convert input resolved) := by
    cases input with
    | element => rfl
    | _ => cases element
  rw [coerce, resolve]
  exact congrArg _ (funext takeUp)

end Site

variable {role : Role} {input terminal : Input} {args : CoercionArgs} {n : Node} {k : Nat}

/-- A chain of no more than a hundred elements is followed to its end, and a role takes a node there
up as it takes up any other. -/
theorem expect_of_leads_node (general : role.isLiteralOnly = false)
    (element : input.isElement = true) (leads : Input.Leads k input (.node n)) (le : k ≤ maxSteps) :
    expect role input args = (do
      let (value, diagnostics) ← (Site.takeUp ⟨role, args⟩ input (.node n)).run []
      pure ⟨value, diagnostics⟩) := by
  have unwrap : Site.unwrap ⟨role, args⟩ input = pure (.node n) := by
    rw [Site.unwrap, Input.follow_of_leads leads rfl le]
  unfold expect
  rw [Site.coerce_element general element, unwrap, pure_bind]

/-- A role refuses anything else at the end of a chain. -/
theorem expect_of_leads (general : role.isLiteralOnly = false) (element : input.isElement = true)
    (leads : Input.Leads k input terminal) (plain : terminal.isElement = false)
    (none : terminal.asNode? = none) (le : k ≤ maxSteps) (next : Identity) :
    expect role input args next = .error (Site.unexpectedTerminal ⟨role, args⟩ input terminal) := by
  have unwrap : Site.unwrap ⟨role, args⟩ input =
      throw (Site.unexpectedTerminal ⟨role, args⟩ input terminal) := by
    rw [Site.unwrap, Input.follow_of_leads leads plain le]
    cases terminal with
    | node => cases none
    | _ => rfl
  unfold expect
  rw [Site.coerce_element general element, unwrap]
  rfl

/-- A coercion gives up on a chain exactly if there is nothing but elements among what is come to
through a hundred of them or fewer. -/
theorem expect_eq_endless_iff (general : role.isLiteralOnly = false)
    (element : input.isElement = true) (next : Identity) :
    expect role input args next = .error (.construction (.endlessElement input.repr)) ↔
      ∀ k terminal, Input.Leads k input terminal → terminal.isElement = false → maxSteps < k := by
  constructor
  · intro failed k terminal leads plain
    by_contra short
    have le : k ≤ maxSteps := Nat.not_lt.1 short
    cases node : terminal.asNode? with
    | none =>
      rw [expect_of_leads general element leads plain node le] at failed
      cases failed
    | some n =>
      cases terminal with
      | node m =>
        rw [expect_of_leads_node general element leads le] at failed
        have prompt : Build.Ends (do
            let (value, diagnostics) ← (Site.takeUp ⟨role, args⟩ input (.node m)).run []
            pure (⟨value, diagnostics⟩ : Coercion)) (fun _ => True) Error.IsPrompt :=
          (Site.fits_takeUp general []).bind fun _ _ => .pure trivial
        exact prompt.error failed
      | _ => cases node
  · intro long
    have unwrap : Site.unwrap ⟨role, args⟩ input =
        Build.fail (.endlessElement input.repr) := by
      rw [Site.unwrap]
      cases found : input.follow maxSteps with
      | none => rfl
      | some terminal =>
        obtain ⟨plain, k, le, leads⟩ := Input.follow_eq_some_iff.1 found
        exact absurd (long k terminal leads plain) (Nat.not_lt.2 le)
    unfold expect
    rw [Site.coerce_element general element, unwrap]
    rfl

end SqlAlgebra
