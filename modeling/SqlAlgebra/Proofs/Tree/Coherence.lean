import Mathlib.Data.List.Nodup
import SqlAlgebra.Proofs.Tree.Likeness

/-!
# Listing the nodes of a tree

A list that has the root of a tree and with every node its children has all nodes of the tree.  So a
tree whose nodes can be listed with different identities is coherent, and trees are of the same
shape if the pairs of corresponding places can be listed.
-/

namespace SqlAlgebra.Node

open List (Forall₂)

variable {a b m n : Node} {ns : List Node} {ps : List (Node × Node)}

theorem mem_of_occurs (root : n ∈ ns) (closed : ∀ x ∈ ns, ∀ c ∈ x.children, c ∈ ns)
    (h : Occurs a n) : a ∈ ns := by
  induction h with
  | root => exact root
  | deeper hc _ ih => exact ih (closed _ root _ hc)

/-- A tree whose nodes are listed once each, with different identities, is coherent. -/
theorem isCoherent_of_list (ns : List Node) (root : n ∈ ns)
    (closed : ∀ x ∈ ns, ∀ c ∈ x.children, c ∈ ns)
    (identities : (ns.map id).Nodup) : n.IsCoherent := fun _ _ ha hb hid =>
  List.inj_on_of_nodup_map identities (mem_of_occurs root closed ha)
    (mem_of_occurs root closed hb) hid

/-- Whether a list of pairs of nodes has with each pair the pairs of their children, and the two
agree on all that a key shows. -/
def Pairing (ps : List (Node × Node)) : Prop :=
  ∀ p ∈ ps, p.1.Like (fun a b => (a, b) ∈ ps) (fun a b => (a, b) ∈ ps) (fun a b => (a, b) ∈ ps) p.2

theorem Pairing.mem_of_beside (h : Pairing ps) (root : (m, n) ∈ ps) (hab : Beside m n a b) :
    (a, b) ∈ ps := by
  induction hab with
  | root => exact root
  | child _ hc ih => exact (List.forall₂_iff_zip.1 (h _ ih).kind.children).2 hc

theorem Pairing.sameShape (h : Pairing ps) (root : (m, n) ∈ ps) : SameShape m n :=
  fun _ _ hab => (h _ (h.mem_of_beside root hab)).sameForm

/-- Places whose pairs can be listed with different identities on either side correspond one to
one. -/
theorem matchOneToOne_of_list {P Q : Node → Node → Prop} (hP : ∀ a b, P a b → (a, b) ∈ ps)
    (hQ : ∀ a b, Q a b → (a, b) ∈ ps) (left : (ps.map (·.1.id)).Nodup)
    (right : (ps.map (·.2.id)).Nodup) : MatchOneToOne P Q := by
  intro a b c d hab hcd
  have ha := hP a b hab
  have hc := hQ c d hcd
  constructor
  · intro eq
    obtain ⟨-, rfl⟩ := Prod.mk.inj (List.inj_on_of_nodup_map left ha hc eq)
    rfl
  · intro eq
    obtain ⟨rfl, -⟩ := Prod.mk.inj (List.inj_on_of_nodup_map right ha hc eq)
    rfl

end SqlAlgebra.Node
