import SqlAlgebra.Layout.Render
import SqlAlgebra.Proofs.Reading.Formula

/-!
# Reading tokens

A reader of formulas by operator precedence.  It keeps a stack of what is still waiting for an
operand, and an operator that comes completes everything on the stack that binds at least as
tightly, so operators of one level are read from left to right.  The bounds of BETWEEN are read
above the level of comparisons, and the first AND that is not inside parentheses ends the lower one.

A formula that is written with parentheses around every operand that binds more weakly than its
place is read back as the formula regrouped to the left.
-/

namespace SqlAlgebra.Reading

open Layout (operandStrength)

inductive Token where
  | operand (o : Operand)
  | opening
  | closing
  | comma
  | dot
  | link (k : Link)
  /-- NOT before a formula. -/
  | complement
  | between (isNegated : Bool)
  /-- The word FROM. -/
  | source
  /-- DISTINCT FROM. -/
  | distinct (isNegated : Bool)
  | select
  /-- What stands only in subqueries. -/
  | other
deriving DecidableEq

/-! ## The reader -/

/-- What waits for an operand. -/
inductive Pending where
  /-- An opening parenthesis. -/
  | group
  | negation
  | complement
  | link (left : Formula) (k : Link)
  /-- BETWEEN, whose lower bound is being read. -/
  | lower (isNegated : Bool) (e : Formula)
  /-- BETWEEN, whose upper bound is being read. -/
  | upper (isNegated : Bool) (e low : Formula)

namespace Pending

/-- How tightly an operator holds its operand.  A parenthesis and the lower bound of BETWEEN go on
until they are ended. -/
def strength? : Pending → Option Nat
  | .group | .lower _ _ => none
  | .negation => some UnaryOp.neg.precedence
  | .complement => some UnaryOp.not.precedence
  | .link _ k => some k.precedence
  | .upper _ _ _ => some BinaryOp.between.precedence

/-- The formula of an operator with its last operand. -/
def fill (e : Formula) : Pending → Formula
  | .group | .lower _ _ => e
  | .negation => .negation e
  | .complement => .complement e
  | .link left k => .linked left k e
  | .upper isNegated e' low => .between isNegated e' low e

/-- Whether NOT can stand where an operand is awaited. -/
def takesComplement : Pending → Bool
  | .group => true
  | .lower _ _ => false
  | pending => pending.strength?.all (· ≤ UnaryOp.not.precedence)

end Pending

/-- A formula with everything around it completed that holds it at least as tightly as an operator
of level `p`. -/
def reduce (p : Nat) : List Pending → Formula → List Pending × Formula
  | [], e => ([], e)
  | pending :: stack, e =>
    if pending.strength?.any (p ≤ ·) then reduce p stack (pending.fill e)
    else (pending :: stack, e)

inductive State where
  | wants (stack : List Pending)
  | has (stack : List Pending) (e : Formula)
  /-- In a list, after a placeholder. -/
  | listed (stack : List Pending) (first : Nat) (rest : List Nat)
  /-- In a list, after a comma. -/
  | listing (stack : List Pending) (first : Nat) (rest : List Nat)
  | inSubquery (stack : List Pending)

namespace State

/-- A link after a formula, with everything around the formula completed that holds it tighter. -/
def link (k : Link) : List Pending × Formula → Option State
  | (.lower isNegated e :: stack, low) =>
    if k = .clauses .and then some (.wants (.upper isNegated e low :: stack))
    else if BinaryOp.between.precedence < k.precedence then
      some (.wants (.link low k :: .lower isNegated e :: stack))
    else none
  | (stack, e) => some (.wants (.link e k :: stack))

def between (isNegated : Bool) : List Pending × Formula → Option State
  | (.lower _ _ :: _, _) => none
  | (stack, e) => some (.wants (.lower isNegated e :: stack))

/-- A closing parenthesis.  A placeholder alone in parentheses is a list. -/
def close : List Pending × Formula → Option State
  | (.group :: stack, .operand (.placeholder k)) => some (.has stack (.operand (.list k [])))
  | (.group :: stack, e) => some (.has stack e)
  | _ => none

def step : State → Token → Option State
  | .wants stack, .operand o => some (.has stack (.operand o))
  | .wants stack, .opening => some (.wants (.group :: stack))
  | .wants stack, .link (.binary .sub) => some (.wants (.negation :: stack))
  | .wants stack, .complement =>
    if stack.head?.all Pending.takesComplement then some (.wants (.complement :: stack)) else none
  | .wants (.group :: stack), .select => some (.inSubquery stack)
  | .has stack e, .link k => link k (reduce k.precedence stack e)
  | .has stack e, .between isNegated =>
    between isNegated (reduce BinaryOp.between.precedence stack e)
  | .has stack e, .closing => close (reduce 0 stack e)
  | .has (.group :: stack) (.operand (.placeholder k)), .comma => some (.listing stack k [])
  | .listing stack first rest, .operand (.placeholder k) => some (.listed stack first (rest ++ [k]))
  | .listed stack first rest, .comma => some (.listing stack first rest)
  | .listed stack first rest, .closing => some (.has stack (.operand (.list first rest)))
  | .inSubquery stack, .closing => some (.has stack (.operand .subquery))
  | .inSubquery _, .opening => none
  | .inSubquery stack, _ => some (.inSubquery stack)
  | _, _ => none

/-- The formula of a text that ends here. -/
def finish : State → Option Formula
  | .has stack e =>
    match reduce 0 stack e with
    | ([], e) => some e
    | _ => none
  | _ => none

/-- The formula that some tokens say. -/
def run : State → List Token → Option Formula
  | s, [] => s.finish
  | s, t :: ts => (s.step t).bind (run · ts)

end State

def readTokens (ts : List Token) : Option Formula := (State.wants []).run ts

/-! ## The writer -/

/-- The strength inside which the operand on the right of a link is written. -/
def Link.rightStrength (k : Link) : Nat :=
  if k.isAssociative then k.precedence else k.precedence + 1

/-- The tokens of the elements of a list after the first one. -/
def listTokens (rest : List Nat) : List Token :=
  rest.flatMap fun k => [.comma, .operand (.placeholder k)]

/-- The tokens of an operand.  The subquery is the one for a list of no elements. -/
def Operand.tokens : Operand → List Token
  | .list first rest => .opening :: .operand (.placeholder first) :: (listTokens rest ++ [.closing])
  | .subquery =>
    [.opening, .select, .other, .other, .other, .link (.binary .ne), .other, .closing]
  | o => [.operand o]

def enclosed (needed : Bool) (ts : List Token) : List Token :=
  if needed then .opening :: (ts ++ [.closing]) else ts

namespace Formula

/-- The tokens of a formula in a place of strength `outer`. -/
def tokens (outer : Nat) : Formula → List Token
  | .operand o => o.tokens
  | .negation e =>
    enclosed (UnaryOp.neg.precedence < outer)
      (.link (.binary .sub) :: e.tokens (operandStrength .neg))
  | .complement e =>
    enclosed (UnaryOp.not.precedence < outer) (.complement :: e.tokens (operandStrength .not))
  | .linked l k r =>
    enclosed (k.precedence < outer)
      (l.tokens k.precedence ++ .link k :: r.tokens k.rightStrength)
  | .between isNegated e low high =>
    enclosed (BinaryOp.between.precedence < outer)
      (e.tokens BinaryOp.between.precedence ++ .between isNegated ::
        (low.tokens (BinaryOp.between.precedence + 1) ++ .link (.clauses .and) ::
          high.tokens (BinaryOp.between.precedence + 1)))

/-- How tightly the operator at the top of a formula binds. -/
def strength? : Formula → Option Nat
  | .operand _ => none
  | .negation _ => some UnaryOp.neg.precedence
  | .complement _ => some UnaryOp.not.precedence
  | .linked _ k _ => some k.precedence
  | .between _ _ _ _ => some BinaryOp.between.precedence

end Formula

/-! ## Reading what was written -/

section

variable {stack : List Pending} {ts : List Token} {e l r : Formula} {k k' : Link} {p q outer : Nat}

/-- Whether the tokens after a formula complete everything around it that binds at least as tightly
as level `p`. -/
def Yields (p : Nat) : List Token → Prop
  | [] | .closing :: _ => True
  | .link k :: _ => k.precedence ≤ p
  | .between _ :: _ => BinaryOp.between.precedence ≤ p
  | _ => False

theorem Yields.mono (h : Yields p ts) (le : p ≤ q) : Yields q ts := by
  cases ts with
  | nil => trivial
  | cons t ts =>
    cases t with
    | closing => trivial
    | link k => exact Nat.le_trans h le
    | between isNegated => exact Nat.le_trans h le
    | _ => cases h

/-- Whether an operator of level `p` leaves the top of the stack waiting and can stand there. -/
def Under (p : Nat) : List Pending → Prop
  | [] | .group :: _ => True
  | .lower _ _ :: _ => BinaryOp.between.precedence < p
  | pending :: _ => ∀ s ∈ pending.strength?, s < p

/-- Whether every link that is written without parentheses in a place of strength `outer` leaves the
top of the stack waiting. -/
def Awaits (outer : Nat) (stack : List Pending) : Prop :=
  ∀ k : Link, outer ≤ k.precedence → Under k.precedence stack

theorem Awaits.mono (h : Awaits p stack) (le : p ≤ q) : Awaits q stack :=
  fun k hk => h k (Nat.le_trans le hk)

theorem Link.precedence_le (k : Link) : k.precedence ≤ 8 := by
  rcases k with op | op <;> cases op <;> decide

theorem Link.precedence_ne (k : Link) : k.precedence ≠ UnaryOp.not.precedence := by
  rcases k with op | op <;> cases op <;> decide

/-- Comparisons do not form chains. -/
theorem Link.precedence_ne_of_isAssociative (h : k.isAssociative = true) :
    k.precedence ≠ BinaryOp.between.precedence := by
  rcases k with op | op <;> cases op <;> first | decide | cases h

theorem awaits_nil : Awaits p [] := fun _ _ => trivial

theorem awaits_group : Awaits p (.group :: stack) := fun _ _ => trivial

theorem awaits_negation : Awaits (operandStrength .neg) (.negation :: stack) := by
  intro k hk
  have most := k.precedence_le
  have least : 10 ≤ k.precedence := hk
  omega

theorem awaits_complement : Awaits (operandStrength .not) (.complement :: stack) := by
  intro k hk s hs
  cases hs
  exact Nat.lt_of_le_of_ne hk k.precedence_ne.symm

theorem awaits_link (left : Formula) (k : Link) :
    Awaits (k.precedence + 1) (.link left k :: stack) := by
  intro k' hk s hs
  cases hs
  exact hk

theorem awaits_lower (isNegated : Bool) (e : Formula) :
    Awaits (BinaryOp.between.precedence + 1) (.lower isNegated e :: stack) := fun _ hk => hk

theorem awaits_upper (isNegated : Bool) (e low : Formula) :
    Awaits (BinaryOp.between.precedence + 1) (.upper isNegated e low :: stack) := by
  intro k' hk s hs
  cases hs
  exact hk

/-- An operator that leaves the top of the stack waiting completes nothing. -/
theorem reduce_of_under (h : Under p stack) (e : Formula) : reduce p stack e = (stack, e) := by
  cases stack with
  | nil => rfl
  | cons pending stack =>
    refine if_neg fun completed => ?_
    cases pending with
    | group => cases completed
    | lower isNegated e => cases completed
    | _ => exact Nat.not_le_of_lt (h _ rfl) (of_decide_eq_true completed)

theorem reduce_of_le {pending : Pending} {s : Nat} (h : pending.strength? = some s) (le : p ≤ s) :
    reduce p (pending :: stack) e = reduce p stack (pending.fill e) := by
  refine if_pos ?_
  rw [h]
  exact decide_eq_true le

theorem step_link (h : Under k.precedence stack) (e : Formula) :
    (State.has stack e).step (.link k) = some (.wants (.link e k :: stack)) := by
  show State.link k (reduce k.precedence stack e) = _
  rw [reduce_of_under h]
  unfold State.link
  split
  · next isNegated e stack low eq =>
    cases eq
    have above : BinaryOp.between.precedence < k.precedence := h
    have other : k ≠ .clauses .and := by
      rintro rfl
      exact absurd above (by decide)
    rw [if_neg other, if_pos above]
  · next eq =>
    cases eq
    rfl

theorem step_between (h : Awaits BinaryOp.between.precedence stack) (e : Formula)
    (isNegated : Bool) :
    (State.has stack e).step (.between isNegated) =
      some (.wants (.lower isNegated e :: stack)) := by
  have under : Under BinaryOp.between.precedence stack := h (.binary .eq) (Nat.le_refl _)
  show State.between isNegated (reduce _ stack e) = _
  rw [reduce_of_under under]
  unfold State.between
  split
  · next eq =>
    cases eq
    exact absurd under (Nat.lt_irrefl _)
  · next eq =>
    cases eq
    rfl

theorem step_complement (h : Awaits UnaryOp.not.precedence stack) :
    (State.wants stack).step .complement = some (.wants (.complement :: stack)) := by
  refine if_pos ?_
  have under : Under 5 stack := h (.binary .eq) (by decide)
  cases stack with
  | nil => rfl
  | cons pending stack =>
    cases pending with
    | group => rfl
    | complement => rfl
    | lower isNegated e => exact absurd under (Nat.lt_irrefl _)
    | upper isNegated e low => exact absurd (under _ rfl) (Nat.lt_irrefl _)
    | negation => exact absurd (under _ rfl) (by decide)
    | link left k => exact decide_eq_true (Nat.le_of_lt_succ (under _ rfl))

/-- What binds at least as tightly as what comes next is complete. -/
theorem run_reduce {pending : Pending} {s : Nat} (h : pending.strength? = some s)
    (next : Yields s ts) :
    (State.has (pending :: stack) e).run ts = (State.has stack (pending.fill e)).run ts := by
  cases ts with
  | nil =>
    show State.finish _ = State.finish _
    rw [State.finish, State.finish, reduce_of_le h (Nat.zero_le _)]
  | cons t ts =>
    refine congrArg (Option.bind · _) ?_
    cases t with
    | closing =>
      show State.close (reduce 0 _ e) = State.close (reduce 0 _ _)
      rw [reduce_of_le h (Nat.zero_le _)]
    | link k =>
      show State.link k (reduce _ _ e) = State.link k (reduce _ _ _)
      rw [reduce_of_le h next]
    | between isNegated =>
      show State.between _ (reduce _ _ e) = State.between _ (reduce _ _ _)
      rw [reduce_of_le h next]
    | _ => cases next

theorem run_link (left : Formula) (next : Yields k.precedence ts) :
    (State.has (.link left k :: stack) e).run ts = (State.has stack (.linked left k e)).run ts :=
  run_reduce rfl next

/-- A formula with an operator at its top stands in parentheses as itself. -/
theorem run_closing (h : e.strength?.isSome = true) :
    (State.has (.group :: stack) e).run (.closing :: ts) = (State.has stack e).run ts := by
  have step : (State.has (.group :: stack) e).step .closing = some (.has stack e) := by
    have waiting : Under 0 (.group :: stack) := trivial
    show State.close (reduce 0 _ e) = _
    rw [reduce_of_under waiting]
    cases e with
    | operand o => cases h
    | _ => rfl
  rw [State.run, step]
  rfl

theorem run_listed (stack : List Pending) (first : Nat) (before rest : List Nat)
    (ts : List Token) :
    (State.listed stack first before).run (listTokens rest ++ .closing :: ts) =
      (State.has stack (.operand (.list first (before ++ rest)))).run ts := by
  induction rest generalizing before with
  | nil =>
    rw [List.append_nil]
    rfl
  | cons k rest ih =>
    show (State.listed stack first (before ++ [k])).run (listTokens rest ++ .closing :: ts) = _
    rw [ih, List.append_assoc]
    rfl

/-- A list of one element is a placeholder in parentheses, and a longer one shows by its comma. -/
theorem run_operand (o : Operand) (stack : List Pending) (ts : List Token) :
    (State.wants stack).run (o.tokens ++ ts) = (State.has stack (.operand o)).run ts := by
  cases o with
  | column path => rfl
  | placeholder k => rfl
  | subquery => rfl
  | list first rest =>
    cases rest with
    | nil => rfl
    | cons k rest =>
      show (State.listed stack first [k]).run ((listTokens rest ++ [.closing]) ++ ts) = _
      rw [List.append_assoc]
      exact run_listed stack first [k] rest ts

namespace Formula

/-- Whether a formula is read back in a place of any strength. -/
def Reads (e : Formula) : Prop :=
  ∀ ⦃outer : Nat⦄ ⦃stack : List Pending⦄ ⦃ts : List Token⦄, Awaits outer stack → Yields outer ts →
    (State.wants stack).run (e.tokens outer ++ ts) = (State.has stack e.regroup).run ts

/-- Whether a formula on the right of a link in a place of its own strength is read back as what the
chain becomes. -/
def Joins (k : Link) (e : Formula) : Prop :=
  ∀ ⦃left : Formula⦄ ⦃stack : List Pending⦄ ⦃ts : List Token⦄, Under k.precedence stack →
    Yields k.precedence ts →
      (State.wants (.link left k :: stack)).run (e.tokens k.precedence ++ ts) =
        (State.has stack (graft left k e.regroup)).run ts

theorem tokens_of_lt {p : Nat} (h : e.strength? = some p) (enclose : p < outer) :
    e.tokens outer = .opening :: (e.tokens 0 ++ [.closing]) := by
  cases e with
  | operand o => cases h
  | _ =>
    cases h
    rw [tokens, tokens, decide_eq_true enclose]
    rfl

theorem tokens_of_le {p : Nat} (h : e.strength? = some p) (le : outer ≤ p) :
    e.tokens outer = e.tokens 0 := by
  cases e with
  | operand o => cases h
  | _ =>
    cases h
    rw [tokens, tokens, decide_eq_false (Nat.not_lt_of_le le)]
    rfl

theorem strength?_graft (left : Formula) (k : Link) (e : Formula) :
    (graft left k e).strength? = some k.precedence := by
  cases e with
  | linked a k' b =>
    rw [graft]
    split
    · next same => exact congrArg some same
    · rfl
  | _ => rfl

theorem strength?_regroup (e : Formula) : e.regroup.strength? = e.strength? := by
  cases e with
  | linked l k r =>
    rw [regroup]
    split
    · exact strength?_graft _ k _
    · rfl
  | _ => rfl

/-- A formula that is read back without parentheses is read back in them. -/
theorem reads_of_open {p : Nat} (h : e.strength? = some p)
    (opened : ∀ ⦃stack : List Pending⦄ ⦃ts : List Token⦄, Awaits p stack → Yields p ts →
      (State.wants stack).run (e.tokens 0 ++ ts) = (State.has stack e.regroup).run ts) :
    e.Reads := by
  intro outer stack ts awaits next
  by_cases enclose : p < outer
  · rw [tokens_of_lt h enclose, List.cons_append, List.append_assoc]
    show (State.wants (.group :: stack)).run _ = _
    have closes : Yields p (.closing :: ts) := trivial
    rw [List.singleton_append, opened awaits_group closes]
    exact run_closing (by rw [strength?_regroup, h]; rfl)
  · have le := Nat.le_of_not_lt enclose
    rw [tokens_of_le h le]
    exact opened (awaits.mono le) (next.mono le)

/-- A formula that is no link of the same level is the whole operand on the right of a link. -/
theorem joins_of_ne (reads : e.Reads) (h : e.strength? ≠ some k.precedence) : e.Joins k := by
  intro left stack ts _ next
  have same : e.tokens k.precedence = e.tokens (k.precedence + 1) := by
    cases hs : e.strength? with
    | none =>
      cases e with
      | operand o => rfl
      | _ => cases hs
    | some s =>
      have other : s ≠ k.precedence := fun eq => h (hs.trans (congrArg some eq))
      by_cases le : k.precedence < s
      · exact (tokens_of_le hs (Nat.le_of_lt le)).trans (tokens_of_le hs le).symm
      · have less : s < k.precedence := by omega
        exact (tokens_of_lt hs less).trans (tokens_of_lt hs (Nat.lt_succ_of_lt less)).symm
  have alone : graft left k e.regroup = .linked left k e.regroup := by
    rw [← strength?_regroup] at h
    generalize e.regroup = e' at h
    cases e' with
    | linked a k' b => exact if_neg fun eq => h (congrArg some eq)
    | _ => rfl
  rw [same, reads (awaits_link left k) (next.mono (Nat.le_succ _)), run_link left next, alone]

theorem reads_operand (o : Operand) : (operand o).Reads := fun _ _ _ _ _ => run_operand o _ _

theorem reads_negation (h : e.Reads) : (negation e).Reads := by
  refine reads_of_open rfl fun stack ts _ next => ?_
  show (State.wants (.negation :: stack)).run (e.tokens (operandStrength .neg) ++ ts) = _
  rw [h awaits_negation (next.mono (by decide))]
  exact run_reduce rfl next

theorem reads_complement (h : e.Reads) : (complement e).Reads := by
  refine reads_of_open rfl fun stack ts awaits next => ?_
  show ((State.wants stack).step .complement).bind (State.run ·
    (e.tokens (operandStrength .not) ++ ts)) = _
  rw [step_complement awaits, Option.bind_some, h awaits_complement next]
  exact run_reduce rfl next

theorem reads_between {low high : Formula} (isNegated : Bool) (he : e.Reads) (hl : low.Reads)
    (hh : high.Reads) : (between isNegated e low high).Reads := by
  refine reads_of_open rfl fun stack ts awaits next => ?_
  show (State.wants stack).run ((e.tokens _ ++ .between isNegated ::
    (low.tokens _ ++ .link (.clauses .and) :: high.tokens _)) ++ ts) = _
  rw [List.append_assoc, he awaits (Nat.le_refl _), List.cons_append, List.append_assoc,
    List.cons_append, State.run, step_between awaits, Option.bind_some,
    hl (awaits_lower isNegated _) (show ListOp.and.precedence ≤ _ by decide)]
  show (State.wants (.upper isNegated _ _ :: stack)).run _ = _
  rw [hh (awaits_upper isNegated _ _) (next.mono (Nat.le_succ _))]
  exact run_reduce rfl next

/-- A link takes what was read before it on its left, and on its right the chain of an associative
link goes on. -/
theorem run_right (left : Formula) (hr : r.Reads) (join : k.isAssociative = true → r.Joins k)
    (under : Under k.precedence stack) (next : Yields k.precedence ts) :
    (State.has stack left).run (.link k :: (r.tokens k.rightStrength ++ ts)) =
      (State.has stack (if k.isAssociative then graft left k r.regroup
        else .linked left k r.regroup)).run ts := by
  rw [State.run, step_link under, Option.bind_some, Link.rightStrength]
  cases assoc : k.isAssociative with
  | true => exact join assoc under next
  | false =>
    show (State.wants _).run (r.tokens (k.precedence + 1) ++ ts) = _
    rw [hr (awaits_link left k) (next.mono (Nat.le_succ _))]
    exact run_link left next

theorem reads_linked (hl : l.Reads) (hr : r.Reads) (join : k.isAssociative = true → r.Joins k) :
    (linked l k r).Reads := by
  refine reads_of_open rfl fun stack ts awaits next => ?_
  show (State.wants stack).run ((l.tokens _ ++ .link k :: r.tokens _) ++ ts) = _
  rw [List.append_assoc, hl awaits (Nat.le_refl _), List.cons_append,
    run_right _ hr join (awaits k (Nat.le_refl _)) next]
  rfl

/-- In a chain, the links of a formula take in the one on the left of it. -/
theorem joins_linked (alone : (linked l k r).Reads) (hl : l.Joins k') (hr : r.Reads)
    (join : k.isAssociative = true → r.Joins k) : (linked l k r).Joins k' := by
  by_cases same : k.precedence = k'.precedence
  · intro left stack ts under next
    have before : Yields k'.precedence (.link k :: (r.tokens k.rightStrength ++ ts)) :=
      Nat.le_of_eq same
    rw [tokens_of_le (e := linked l k r) rfl (Nat.le_of_eq same.symm)]
    show (State.wants _).run ((l.tokens k.precedence ++ .link k :: r.tokens _) ++ ts) = _
    rw [List.append_assoc, same, List.cons_append, hl under before,
      run_right _ hr join (same ▸ under) (same ▸ next), regroup]
    cases k.isAssociative with
    | true => rw [if_pos rfl, if_pos rfl, graft_graft same]
    | false => rw [if_neg Bool.false_ne_true, if_neg Bool.false_ne_true, graft, if_pos same]
  · exact joins_of_ne alone fun eq => same (Option.some.inj eq)

/-- Every formula is read back, in a place of any strength and on the right of any associative
link. -/
theorem reads_and_joins (e : Formula) :
    e.Reads ∧ ∀ k : Link, k.isAssociative = true → e.Joins k := by
  -- only links stand at the level of an associative link
  have alone {e : Formula} (reads : e.Reads)
      (h : ∀ k : Link, k.isAssociative = true → e.strength? ≠ some k.precedence) :
      e.Reads ∧ ∀ k : Link, k.isAssociative = true → e.Joins k :=
    ⟨reads, fun k assoc => joins_of_ne reads (h k assoc)⟩
  induction e with
  | operand o => exact alone (reads_operand o) fun k _ eq => nomatch eq
  | negation e ih =>
    refine alone (reads_negation ih.1) fun k _ eq => ?_
    exact absurd (Option.some.inj eq ▸ k.precedence_le) (by decide)
  | complement e ih =>
    refine alone (reads_complement ih.1) fun k _ eq => ?_
    exact k.precedence_ne (Option.some.inj eq).symm
  | linked l k r ihl ihr =>
    have reads := reads_linked ihl.1 ihr.1 (ihr.2 k)
    exact ⟨reads, fun k' assoc => joins_linked reads (ihl.2 k' assoc) ihr.1 (ihr.2 k)⟩
  | between isNegated e low high ihe ihl ihh =>
    refine alone (reads_between isNegated ihe.1 ihl.1 ihh.1) fun k assoc eq => ?_
    exact Link.precedence_ne_of_isAssociative assoc (Option.some.inj eq).symm

/-- What is written is read back with its chains grouped to the left. -/
theorem readTokens_tokens (e : Formula) : readTokens (e.tokens 0) = some e.regroup := by
  have last : Yields 0 [] := trivial
  have read := (reads_and_joins e).1 awaits_nil last
  rw [List.append_nil] at read
  exact read

end Formula

end

end SqlAlgebra.Reading
