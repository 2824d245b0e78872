import SqlAlgebra.Operator

/-!
# Formulas

What an expression says, apart from how it is written: operands under signs, NOT, BETWEEN and the
operators that link two of them.  A text is read from left to right, so a chain of links of one
level comes out grouped to the left however it was grouped before.  That loses nothing exactly if
every chain in which an associative link lost its parentheses is of this one link: then regrouping
it is re-association, and otherwise some link sinks below another one.
-/

namespace SqlAlgebra.Reading

/-- What stands in a formula without an operator of its own. -/
inductive Operand where
  /-- A column with the names before it. -/
  | column (path : List String)
  | placeholder (position : Nat)
  /-- The placeholders of the elements of a list. -/
  | list (first : Nat) (rest : List Nat)
  /-- A subquery, whatever it says. -/
  | subquery
deriving DecidableEq

/-- What links two formulas: an operator between them, or what joins the clauses of a list. -/
inductive Link where
  | binary (op : BinaryOp)
  | clauses (op : ListOp)
deriving DecidableEq

namespace Link

def precedence : Link → Nat
  | .binary op => op.precedence
  | .clauses op => op.precedence

/-- Whether a chain of the link means the same however it is grouped. -/
def isAssociative : Link → Bool
  | .binary op => op.isAssociative
  | .clauses _ => true

end Link

inductive Formula where
  | operand (o : Operand)
  /-- A minus sign before a formula. -/
  | negation (e : Formula)
  /-- NOT before a formula. -/
  | complement (e : Formula)
  | linked (left : Formula) (link : Link) (right : Formula)
  | between (isNegated : Bool) (e low high : Formula)
deriving DecidableEq

namespace Formula

variable {a b e l r : Formula} {k k' : Link} {d d' p : Nat}

/-- A link with a formula on its right whose own links of the same level take it in, so that the
chain comes out grouped to the left. -/
def graft (left : Formula) (k : Link) : Formula → Formula
  | .linked a k' b =>
    if k'.precedence = k.precedence then .linked (graft left k a) k' b
    else .linked left k (.linked a k' b)
  | e => .linked left k e

/-- A formula with every chain of one level grouped to the left from where an associative link had
another link of its level on its right. -/
def regroup : Formula → Formula
  | .operand o => .operand o
  | .negation e => .negation e.regroup
  | .complement e => .complement e.regroup
  | .linked l k r =>
    if k.isAssociative then graft l.regroup k r.regroup else .linked l.regroup k r.regroup
  | .between isNegated e low high => .between isNegated e.regroup low.regroup high.regroup

/-- The links of one level that stand side by side when a formula is written in a place of that
level. -/
def chain (p : Nat) : Formula → List Link
  | .linked l k r =>
    if k.precedence = p then chain p l ++ k :: (if k.isAssociative then chain p r else []) else []
  | _ => []

/-- Whether on the right of an associative link no other link of its level joins the chain. -/
def Unmixed : Formula → Prop
  | .operand _ => True
  | .negation e | .complement e => e.Unmixed
  | .linked l k r =>
    l.Unmixed ∧ r.Unmixed ∧ (k.isAssociative = true → ∀ k' ∈ r.chain k.precedence, k' = k)
  | .between _ e low high => e.Unmixed ∧ low.Unmixed ∧ high.Unmixed

/-- Whether formulas differ in nothing but the grouping of chains of one associative link. -/
inductive Reassociates : Formula → Formula → Prop where
  | refl (e : Formula) : Reassociates e e
  | symm {a b : Formula} : Reassociates a b → Reassociates b a
  | trans {a b c : Formula} : Reassociates a b → Reassociates b c → Reassociates a c
  | rotate {k : Link} (h : k.isAssociative = true) (a b c : Formula) :
      Reassociates (.linked (.linked a k b) k c) (.linked a k (.linked b k c))
  | negation {e e' : Formula} : Reassociates e e' → Reassociates (.negation e) (.negation e')
  | complement {e e' : Formula} :
      Reassociates e e' → Reassociates (.complement e) (.complement e')
  | linked {l l' r r' : Formula} (k : Link) :
      Reassociates l l' → Reassociates r r' → Reassociates (.linked l k r) (.linked l' k r')
  | between {e e' low low' high high' : Formula} (isNegated : Bool) :
      Reassociates e e' → Reassociates low low' → Reassociates high high' →
        Reassociates (.between isNegated e low high) (.between isNegated e' low' high')

/-! ## Chains that are grouped to the left -/

/-- The links of one level down the left side of a formula. -/
def spine (p : Nat) : Formula → List Link
  | .linked l k _ => if k.precedence = p then spine p l ++ [k] else []
  | _ => []

theorem spine_graft (left : Formula) (k : Link) (e : Formula) :
    (graft left k e).spine k.precedence = left.spine k.precedence ++ k :: e.spine k.precedence := by
  induction e with
  | linked a k' b iha _ =>
    by_cases same : k'.precedence = k.precedence
    · rw [graft, if_pos same, spine, if_pos same, iha, spine, if_pos same, List.append_assoc]
      rfl
    · rw [graft, if_neg same, spine, if_pos rfl, spine, if_neg same]
  | _ => exact if_pos rfl

theorem spine_linked (h : k.precedence = p) :
    (Formula.linked l k r).spine p = l.spine p ++ [k] := if_pos h

/-- The links that stand side by side are the left side of the regrouped formula. -/
theorem spine_regroup (p : Nat) (e : Formula) : e.regroup.spine p = e.chain p := by
  induction e with
  | linked l k r ihl ihr =>
    rw [regroup, chain]
    by_cases level : k.precedence = p
    · subst level
      rw [if_pos rfl]
      cases assoc : k.isAssociative with
      | true =>
        rw [if_pos rfl, if_pos rfl, spine_graft, ihl, ihr]
      | false =>
        rw [if_neg Bool.false_ne_true, if_neg Bool.false_ne_true, spine_linked rfl, ihl]
    · rw [if_neg level]
      split
      · cases r.regroup with
        | linked a k' b =>
          rw [graft]
          split
          · next same => rw [spine, if_neg (same ▸ level)]
          · exact if_neg level
        | _ => exact if_neg level
      · exact if_neg level
  | _ => rfl

/-- Links of one level are taken in one after another. -/
theorem graft_graft (same : k'.precedence = k.precedence) (left e e' : Formula) :
    graft left k (graft e k' e') = graft (graft left k e) k' e' := by
  have level (a b : Formula) :
      graft left k (.linked a k' b) = .linked (graft left k a) k' b := by
    rw [graft, if_pos same]
  induction e' with
  | linked a k'' b iha _ =>
    by_cases join : k''.precedence = k'.precedence
    · rw [graft, if_pos join, graft, if_pos (join.trans same), iha, graft, if_pos join]
    · rw [graft, if_neg join, level, graft, if_neg join]
  | _ => exact level _ _

/-! ## Regrouping as re-association -/

theorem Reassociates.graft (h : k.isAssociative = true) (left : Formula)
    (hr : ∀ k' ∈ r.spine k.precedence, k' = k) :
    Reassociates (graft left k r) (.linked left k r) := by
  induction r with
  | linked a k' b iha _ =>
    rw [Formula.graft]
    split
    · next same =>
      rw [spine_linked same] at hr
      obtain rfl : k' = k := hr k' (List.mem_append_right _ (List.mem_singleton_self k'))
      have down := iha fun k'' mem => hr k'' (List.mem_append_left _ mem)
      exact (down.linked k' (.refl b)).trans (.rotate h left a b)
    · exact .refl _
  | _ => exact .refl _

theorem Unmixed.reassociates (h : e.Unmixed) : Reassociates e.regroup e := by
  induction e with
  | operand o => exact .refl _
  | negation e ih => exact .negation (ih h)
  | complement e ih => exact .complement (ih h)
  | linked l k r ihl ihr =>
    obtain ⟨hl, hr, plain⟩ := h
    rw [regroup]
    split
    · next assoc =>
      rw [← spine_regroup] at plain
      exact (Reassociates.graft assoc _ (plain assoc)).trans (.linked k (ihl hl) (ihr hr))
    · exact .linked k (ihl hl) (ihr hr)
  | between isNegated e low high ihe ihl ihh =>
    exact .between isNegated (ihe h.1) (ihl h.2.1) (ihh h.2.2)

/-! ## How deep a link stands

Below every link stand the other links at their depths, where a chain of one associative link has
one depth.  Re-association changes no depth, and regrouping a chain of different links does. -/

/-- The link at the top of a formula. -/
def top? : Formula → Option Link
  | .linked _ k _ => some k
  | _ => none

/-- The depth of a formula below a link at depth `d`. -/
def depthUnder (d : Nat) (k : Link) (e : Formula) : Nat :=
  if k.isAssociative = true ∧ e.top? = some k then d else d + 1

/-- The depths of the links of a formula from left to right. -/
def depths (d : Nat) : Formula → List Nat
  | .operand _ => []
  | .negation e | .complement e => e.depths (d + 1)
  | .linked l k r => l.depths (depthUnder d k l) ++ d :: r.depths (depthUnder d k r)
  | .between _ e low high => e.depths (d + 1) ++ (low.depths (d + 1) ++ high.depths (d + 1))

theorem le_depthUnder (d : Nat) (k : Link) (e : Formula) : d ≤ depthUnder d k e := by
  unfold depthUnder
  split <;> omega

theorem le_of_mem_depths {x : Nat} (h : x ∈ e.depths d) : d ≤ x := by
  induction e generalizing d with
  | operand o => cases h
  | negation e ih => exact Nat.le_of_succ_le (ih h)
  | complement e ih => exact Nat.le_of_succ_le (ih h)
  | linked l k r ihl ihr =>
    obtain left | rfl | right : _ ∨ _ ∨ _ := by
      simpa only [depths, List.mem_append, List.mem_cons] using h
    · exact Nat.le_trans (le_depthUnder d k l) (ihl left)
    · exact Nat.le_refl _
    · exact Nat.le_trans (le_depthUnder d k r) (ihr right)
  | between isNegated e low high ihe ihl ihh =>
    obtain h | h | h : _ ∨ _ ∨ _ := by simpa only [depths, List.mem_append] using h
    · exact Nat.le_of_succ_le (ihe h)
    · exact Nat.le_of_succ_le (ihl h)
    · exact Nat.le_of_succ_le (ihh h)

/-- The link at the top stands at the depth of the formula. -/
theorem mem_depths_of_top? (h : e.top? = some k) : d ∈ e.depths d := by
  cases e with
  | linked l k r => exact List.mem_append_right _ List.mem_cons_self
  | _ => cases h

theorem Reassociates.top?_eq (h : Reassociates a b) : a.top? = b.top? := by
  induction h with
  | symm _ ih => exact ih.symm
  | trans _ _ ih ih' => exact ih.trans ih'
  | _ => rfl

theorem Reassociates.depths_eq (h : Reassociates a b) (d : Nat) : a.depths d = b.depths d := by
  induction h generalizing d with
  | refl e => rfl
  | symm _ ih => exact (ih d).symm
  | trans _ _ ih ih' => exact (ih d).trans (ih' d)
  | @rotate k assoc a b c =>
    have inside (e e' : Formula) : depthUnder d k (.linked e k e') = d := if_pos ⟨assoc, rfl⟩
    simp only [depths, inside, List.append_assoc, List.cons_append]
  | negation _ ih => exact ih (d + 1)
  | complement _ ih => exact ih (d + 1)
  | linked k hl hr ihl ihr => simp only [depths, depthUnder, hl.top?_eq, hr.top?_eq, ihl, ihr]
  | between isNegated _ _ _ ihe ihl ihh => simp only [depths, ihe, ihl, ihh]

/-- The number of links of a formula. -/
def size : Formula → Nat
  | .operand _ => 0
  | .negation e | .complement e => e.size
  | .linked l _ r => l.size + (r.size + 1)
  | .between _ e low high => e.size + (low.size + high.size)

theorem length_depths (d : Nat) (e : Formula) : (e.depths d).length = e.size := by
  induction e generalizing d with
  | operand o => rfl
  | negation e ih => exact ih (d + 1)
  | complement e ih => exact ih (d + 1)
  | linked l k r ihl ihr =>
    rw [depths, List.length_append, List.length_cons, ihl, ihr]
    rfl
  | between isNegated e low high ihe ihl ihh =>
    rw [depths, List.length_append, List.length_append, ihe, ihl, ihh]
    rfl

theorem size_graft (left : Formula) (k : Link) (e : Formula) :
    (graft left k e).size = left.size + (e.size + 1) := by
  induction e with
  | linked a k' b iha _ =>
    rw [graft]
    split
    · simp only [size, iha]
      omega
    · rfl
  | _ => rfl

theorem size_regroup (e : Formula) : e.regroup.size = e.size := by
  induction e with
  | operand o => rfl
  | negation e ih => exact ih
  | complement e ih => exact ih
  | linked l k r ihl ihr =>
    rw [regroup]
    split
    · rw [size_graft, ihl, ihr]
      rfl
    · simp only [size, ihl, ihr]
  | between isNegated e low high ihe ihl ihh => simp only [regroup, size, ihe, ihl, ihh]

theorem length_depths_regroup (d d' : Nat) (e : Formula) :
    (e.regroup.depths d).length = (e.depths d').length := by
  rw [length_depths, length_depths, size_regroup]

/-- The top of a regrouped chain is its last link. -/
theorem top?_graft (left : Formula) (k : Link) (e : Formula) :
    (graft left k e).top? = some ((e.spine k.precedence).getLastD k) := by
  cases e with
  | linked a k' b =>
    by_cases same : k'.precedence = k.precedence
    · rw [graft, if_pos same, spine_linked same, List.getLastD_eq_getLast?, List.getLast?_concat]
      rfl
    · rw [graft, if_neg same, spine, if_neg same]
      rfl
  | _ => rfl

/-- A link that takes in a chain stays at its depth only if the chain is of this link alone. -/
theorem eq_of_depths_graft (left : Formula) (h : ((graft left k r).depths d)[left.size]? = some d) :
    ∀ k' ∈ r.spine k.precedence, k' = k := by
  induction r generalizing d with
  | linked a k' b iha _ =>
    intro x mem
    by_cases same : k'.precedence = k.precedence
    · rw [graft, if_pos same, depths] at h
      have inside :
          left.size < ((graft left k a).depths (depthUnder d k' (graft left k a))).length := by
        rw [length_depths, size_graft]
        omega
      rw [List.getElem?_append_left inside] at h
      -- the link stands below the last one of the chain, at the same depth only if that is the same
      have depth : depthUnder d k' (graft left k a) = d :=
        Nat.le_antisymm (le_of_mem_depths (List.mem_of_getElem? h)) (le_depthUnder d k' _)
      rw [depth] at h
      have plain := iha h
      have joined : (graft left k a).top? = some k' := by
        refine Decidable.of_not_not fun other => ?_
        rw [depthUnder, if_neg fun both => other both.2] at depth
        omega
      obtain rfl : k' = k := by
        rw [top?_graft, Option.some.injEq] at joined
        rw [← joined]
        cases last : (a.spine k.precedence).getLast? with
        | none => rw [List.getLastD_eq_getLast?, last]; rfl
        | some x =>
          rw [List.getLastD_eq_getLast?, last]
          exact plain x (List.mem_of_getLast? last)
      rw [spine_linked rfl, List.mem_append, List.mem_singleton] at mem
      exact mem.elim (plain x) id
    · rw [spine, if_neg same] at mem
      cases mem
  | _ => exact fun _ mem => absurd mem List.not_mem_nil

theorem top?_regroup_eq_none_iff (e : Formula) : e.regroup.top? = none ↔ e.top? = none := by
  cases e with
  | linked l k r =>
    refine iff_of_false (fun none => ?_) (Option.some_ne_none k)
    rw [regroup] at none
    split at none
    · rw [top?_graft] at none
      cases none
    · cases none
  | _ => exact Iff.rfl

/-- Formulas with the same depths below a link stand at the same depth there. -/
theorem depthUnder_regroup_eq
    (h : e.regroup.depths (depthUnder d k e.regroup) = e.depths (depthUnder d k e)) :
    depthUnder d k e.regroup = depthUnder d k e := by
  cases top : e.top? with
  | none => rw [depthUnder, depthUnder, (top?_regroup_eq_none_iff e).2 top, top]
  | some x =>
    cases top' : e.regroup.top? with
    | none =>
      rw [(top?_regroup_eq_none_iff e).1 top'] at top
      cases top
    | some y =>
      exact Nat.le_antisymm (le_of_mem_depths (h ▸ mem_depths_of_top? top))
        (le_of_mem_depths (h ▸ mem_depths_of_top? top'))

theorem unmixed_of_depths_eq (h : e.regroup.depths d = e.depths d) : e.Unmixed := by
  induction e generalizing d with
  | operand o => trivial
  | negation e ih => exact ih h
  | complement e ih => exact ih h
  | linked l k r ihl ihr =>
    have parts (plain : (Formula.linked l.regroup k r.regroup).depths d =
        (Formula.linked l k r).depths d) : l.Unmixed ∧ r.Unmixed := by
      obtain ⟨left, rest⟩ := List.append_inj plain (length_depths_regroup _ _ l)
      have right := (List.cons.inj rest).2
      exact ⟨ihl (depthUnder_regroup_eq left ▸ left), ihr (depthUnder_regroup_eq right ▸ right)⟩
    cases assoc : k.isAssociative with
    | false =>
      rw [regroup, assoc, if_neg Bool.false_ne_true] at h
      obtain ⟨hl, hr⟩ := parts h
      exact ⟨hl, hr, fun h => absurd (assoc.symm.trans h) Bool.false_ne_true⟩
    | true =>
      rw [regroup, assoc, if_pos rfl] at h
      have plain : ∀ k' ∈ r.regroup.spine k.precedence, k' = k := by
        refine eq_of_depths_graft l.regroup (d := d) ?_
        rw [h, size_regroup, ← length_depths (depthUnder d k l) l, depths,
          List.getElem?_append_right (Nat.le_refl _), Nat.sub_self]
        rfl
      rw [(Reassociates.graft assoc _ plain).depths_eq] at h
      obtain ⟨hl, hr⟩ := parts h
      exact ⟨hl, hr, fun _ => spine_regroup k.precedence r ▸ plain⟩
  | between isNegated e low high ihe ihl ihh =>
    obtain ⟨first, rest⟩ := List.append_inj h (length_depths_regroup _ _ e)
    obtain ⟨second, third⟩ := List.append_inj rest (length_depths_regroup _ _ low)
    exact ⟨ihe first, ihl second, ihh third⟩

/-- Regrouping to the left is re-association exactly if no associative link has another link of its
level beside it on the right. -/
theorem reassociates_regroup_iff (e : Formula) : Reassociates e.regroup e ↔ e.Unmixed :=
  ⟨fun h => unmixed_of_depths_eq (h.depths_eq 0), Unmixed.reassociates⟩

end Formula

end SqlAlgebra.Reading
