import SqlAlgebra.Dialect.Database
import SqlAlgebra.Proofs.Survey.KeyEquality
import SqlAlgebra.Proofs.Template.Likeness

/-!
# What a template depends on

The template of a tree depends on the shape of the tree and on which of its places hold the same
node, where these are FROM elements, labels and bound parameters, or stand where a FROM element is
expected.  The target of a change counts with the latter, since it provides itself to the statements
inside.  Which other places hold the same node makes no difference, and neither do the values of
parameters, but for the messages that show them.
-/

namespace SqlAlgebra.Node

variable {a b c d m n : Node}

/-- Trees whose nodes in FROM positions correspond one to one, also where the target of a change is
one of them. -/
def SamePlaces (m n : Node) : Prop :=
  MatchOneToOne (BesideInFrom m n) (fun a b => BesideInFrom m n a b ∨ BesideAsTarget m n a b)

/-- Whether a key tells apart all that stands in the FROM positions of a tree, and all that its
changes are about. -/
def PlacesTracked (n : Node) : Prop :=
  ∀ x, Occurs x n → ∀ a ∈ x.kind.fromPlaces ++ x.kind.targets, a.isTracked

/-- Where a key tells the places apart, it says of all of them which hold the same node. -/
theorem PlacesTracked.samePlaces (hm : m.PlacesTracked) (shape : SameShape m n)
    (objects : SameObjects m n) : SamePlaces m n := by
  have inFrom {a b : Node} (h : BesideInFrom m n a b) :
      Beside m n a b ∧ a.isTracked ∧ b.isTracked := by
    have hab := shape.beside_of_inFrom h
    obtain ⟨parents, place⟩ := h
    have ha := hm _ parents.occurs_left a (List.mem_append_left _ (List.of_mem_zip place).1)
    exact ⟨hab, ha, (shape hab).isTracked ▸ ha⟩
  have asTarget {a b : Node} (h : BesideAsTarget m n a b) :
      Beside m n a b ∧ a.isTracked ∧ b.isTracked := by
    have hab := shape.beside_of_asTarget h
    obtain ⟨parents, place⟩ := h
    have ha := hm _ parents.occurs_left a (List.mem_append_right _ (List.of_mem_zip place).1)
    exact ⟨hab, ha, (shape hab).isTracked ▸ ha⟩
  exact fun _ _ _ _ hab hcd => objects (inFrom hab) (hcd.elim inFrom asTarget)

/-- Trees of the same shape with the same objects and places are rendered alike. -/
theorem simulation_of_samePlaces (hm : m.IsCoherent) (hn : n.IsCoherent) (shape : SameShape m n)
    (objects : SameObjects m n) (places : SamePlaces m n) :
    Simulation (Beside m n) (BesideInFrom m n) (BesideAsTarget m n) where
  like := shape.likePlaced
  fromPlace := shape.beside_of_inFrom
  target := shape.beside_of_asTarget
  tracked {a b c d} hab hcd ha := by
    have hb : b.isTracked := (shape hab).isTracked ▸ ha
    -- a node that is the same as one that is tracked is tracked itself
    constructor
    · intro eq
      obtain rfl := hm a c hab.occurs_left hcd.occurs_left eq
      exact (objects ⟨hab, ha, hb⟩ ⟨hcd, ha, (shape hcd).isTracked ▸ ha⟩).1 rfl
    · intro eq
      obtain rfl := hn b d hab.occurs_right hcd.occurs_right eq
      exact (objects ⟨hab, ha, hb⟩ ⟨hcd, (shape hcd).isTracked.trans hb, hb⟩).2 rfl
  places hab hcd := places hab (.inl hcd)
  provided hab hcd := places hab (.inr hcd)

/-- What a template depends on: no identities but those of tracked nodes and of FROM positions, and
no values. -/
theorem template_alike_of_samePlaces (hm : m.IsCoherent) (hn : n.IsCoherent)
    (shape : SameShape m n) (objects : SameObjects m n) (places : SamePlaces m n) (d : Dialect)
    (bound : Nat) :
    ResultAlike (Beside m n) (m.template d (m.surveyed bound) false)
      (n.template d (n.surveyed bound) false) :=
  (simulation_of_samePlaces hm hn shape objects places).template .root d bound
    false fun h => nomatch h

section Sample

variable (i j : Identity) (v w : Int64)

/-- The pairs of nodes that correspond in two trees that are written the same. -/
def samplePairs : List (Node × Node) :=
  [(sampleTable i, sampleTable j), (sampleColumn i, sampleColumn j),
    (sampleParam i v, sampleParam j w), (sampleCriterion i v, sampleCriterion j w),
    (sampleSelect i v, sampleSelect j w)]

theorem pairing_samplePairs : Pairing (samplePairs i j v w) := by
  intro p hp
  simp only [samplePairs, List.mem_cons, List.not_mem_nil, or_false] at hp
  rcases hp with rfl | rfl | rfl | rfl | rfl
  · exact ⟨.table _, rfl⟩
  · exact ⟨.column _ _ (.some (by simp [samplePairs])), rfl⟩
  · exact ⟨.bind ⟨rfl, rfl, rfl⟩, rfl⟩
  · exact ⟨.binary _ (by simp [samplePairs]) (by simp [samplePairs]), rfl⟩
  · exact ⟨.select _ _ (.cons (by simp [samplePairs]) .nil) (.cons (by simp [samplePairs]) .nil)
      (.some (by simp [samplePairs])) .nil .none .nil .none .none, rfl⟩

theorem sameShape_sampleSelect : SameShape (sampleSelect i v) (sampleSelect j w) :=
  (pairing_samplePairs i j v w).sameShape (by simp [samplePairs])

theorem matchOneToOne_sampleSelect :
    MatchOneToOne (Beside (sampleSelect i v) (sampleSelect j w))
      (Beside (sampleSelect i v) (sampleSelect j w)) := by
  have besides (a b : Node) (h : Beside (sampleSelect i v) (sampleSelect j w) a b) :=
    (pairing_samplePairs i j v w).mem_of_beside (by simp [samplePairs]) h
  refine matchOneToOne_of_list besides besides ?_ ?_ <;>
    simp [samplePairs, sampleTable, sampleColumn, sampleParam, sampleCriterion, sampleSelect]

theorem sameObjects_sampleSelect : SameObjects (sampleSelect i v) (sampleSelect j w) :=
  fun _ _ _ _ hab hcd => matchOneToOne_sampleSelect i j v w hab.1 hcd.1

theorem samePlaces_sampleSelect : SamePlaces (sampleSelect i v) (sampleSelect j w) := by
  have shape := sameShape_sampleSelect i j v w
  exact fun _ _ _ _ hab hcd => matchOneToOne_sampleSelect i j v w (shape.beside_of_inFrom hab)
    (hcd.elim shape.beside_of_inFrom shape.beside_of_asTarget)

end Sample

theorem template_alike_sampleSelect :
    (sampleSelect 0 1).IsCoherent ∧ (sampleSelect 5 2).IsCoherent ∧
      SameShape (sampleSelect 0 1) (sampleSelect 5 2) ∧
        SameObjects (sampleSelect 0 1) (sampleSelect 5 2) ∧
          SamePlaces (sampleSelect 0 1) (sampleSelect 5 2) ∧
            ResultAlike (Beside (sampleSelect 0 1) (sampleSelect 5 2))
              ((sampleSelect 0 1).template .postgres ((sampleSelect 0 1).surveyed 100) false)
              ((sampleSelect 5 2).template .postgres ((sampleSelect 5 2).surveyed 100) false) := by
  have hm := isCoherent_sampleSelect 0 1
  have hn := isCoherent_sampleSelect 5 2
  have shape := sameShape_sampleSelect 0 5 1 2
  have objects := sameObjects_sampleSelect 0 5 1 2
  have places := samePlaces_sampleSelect 0 5 1 2
  exact ⟨hm, hn, shape, objects, places,
    template_alike_of_samePlaces hm hn shape objects places .postgres 100⟩

section Sample

def sampleText (i : Identity) : Node := ⟨i, .text "x", .null, [], []⟩

def sampleOne : Node := ⟨2, .column "1" none true, .null, [], []⟩

/-- `SELECT 1` from a node. -/
def sampleFrom (source : Node) : Node :=
  ⟨3, .select ⟨[sampleOne], [source], none, [], none, [], none, none, false, true⟩, .null, [], []⟩

def sampleScalar (source : Node) : Node := ⟨4, .scalarSubquery (sampleFrom source), .null, [], []⟩

/-- `UPDATE x SET a = (SELECT 1 FROM x)`, where the two texts are one node or two. -/
def sampleUpdate (i : Identity) : Node :=
  ⟨5, .update ⟨sampleText 0, [("a", sampleScalar (sampleText i))], none, []⟩, .null, [], []⟩

def sampleKeyed (value : Int64) : Node :=
  ⟨0, .bind ⟨some "k", .integer value, false, false, false⟩, .integer, [], []⟩

def samplePairsUpdate (i j : Identity) : List (Node × Node) :=
  [(sampleText 0, sampleText 0), (sampleText i, sampleText j), (sampleOne, sampleOne),
    (sampleFrom (sampleText i), sampleFrom (sampleText j)),
    (sampleScalar (sampleText i), sampleScalar (sampleText j)), (sampleUpdate i, sampleUpdate j)]

def samplePairsKeyed (v w : Int64) : List (Node × Node) :=
  [(sampleKeyed v, sampleKeyed w), (sampleOne, sampleOne),
    (sampleFrom (sampleKeyed v), sampleFrom (sampleKeyed w))]

theorem pairing_samplePairsUpdate (i j : Identity) : Pairing (samplePairsUpdate i j) := by
  intro p hp
  simp only [samplePairsUpdate, List.mem_cons, List.not_mem_nil, or_false] at hp
  rcases hp with rfl | rfl | rfl | rfl | rfl | rfl
  · exact ⟨.text _, rfl⟩
  · exact ⟨.text _, rfl⟩
  · exact ⟨.column _ _ .none, rfl⟩
  · exact ⟨.select _ _ (.cons (by simp [samplePairsUpdate]) .nil)
      (.cons (by simp [samplePairsUpdate]) .nil) .none .nil .none .nil .none .none, rfl⟩
  · exact ⟨.scalarSubquery (by simp [samplePairsUpdate]), rfl⟩
  · exact ⟨.update (by simp [samplePairsUpdate]) (.cons ⟨rfl, by simp [samplePairsUpdate]⟩ .nil)
      .none .nil, rfl⟩

theorem pairing_samplePairsKeyed (v w : Int64) : Pairing (samplePairsKeyed v w) := by
  intro p hp
  simp only [samplePairsKeyed, List.mem_cons, List.not_mem_nil, or_false] at hp
  rcases hp with rfl | rfl | rfl
  · exact ⟨.bind ⟨rfl, rfl, rfl⟩, rfl⟩
  · exact ⟨.column _ _ .none, rfl⟩
  · exact ⟨.select _ _ (.cons (by simp [samplePairsKeyed]) .nil)
      (.cons (by simp [samplePairsKeyed]) .nil) .none .nil .none .nil .none .none, rfl⟩

theorem isCoherent_sampleUpdate_zero : (sampleUpdate 0).IsCoherent := by
  refine isCoherent_of_list [sampleText 0, sampleOne, sampleFrom (sampleText 0),
    sampleScalar (sampleText 0), sampleUpdate 0] (by simp) ?_ ?_
  · simp [children, Kind.children, Select.children, sampleText, sampleOne, sampleFrom, sampleScalar,
      sampleUpdate]
  · decide

theorem isCoherent_sampleUpdate_one : (sampleUpdate 1).IsCoherent := by
  refine isCoherent_of_list [sampleText 0, sampleText 1, sampleOne,
    sampleFrom (sampleText 1), sampleScalar (sampleText 1), sampleUpdate 1] (by simp) ?_ ?_
  · simp [children, Kind.children, Select.children, sampleText, sampleOne, sampleFrom, sampleScalar,
      sampleUpdate]
  · decide

theorem isCoherent_sampleFrom_sampleKeyed (v : Int64) :
    (sampleFrom (sampleKeyed v)).IsCoherent := by
  refine isCoherent_of_list [sampleKeyed v, sampleOne, sampleFrom (sampleKeyed v)]
    (by simp) ?_ ?_
  · simp [children, Kind.children, Select.children, sampleKeyed, sampleOne, sampleFrom]
  · simp [sampleKeyed, sampleOne, sampleFrom]

theorem sameShape_sampleUpdate (i j : Identity) : SameShape (sampleUpdate i) (sampleUpdate j) :=
  (pairing_samplePairsUpdate i j).sameShape (by simp [samplePairsUpdate])

/-- What stands in a FROM position of these trees is a text, at one place only. -/
theorem placed_sampleUpdate (i j : Identity) :
    MatchOneToOne (Placed (Beside (sampleUpdate i) (sampleUpdate j))
      (BesideInFrom (sampleUpdate i) (sampleUpdate j)))
      (Placed (Beside (sampleUpdate i) (sampleUpdate j))
        (BesideInFrom (sampleUpdate i) (sampleUpdate j))) := by
  have besides (a b : Node) (h : Beside (sampleUpdate i) (sampleUpdate j) a b) :=
    (pairing_samplePairsUpdate i j).mem_of_beside (by simp [samplePairsUpdate]) h
  have single {a b : Node} (h : Placed (Beside (sampleUpdate i) (sampleUpdate j))
      (BesideInFrom (sampleUpdate i) (sampleUpdate j)) a b) : a.id = i ∧ b.id = j := by
    obtain ⟨hcd, hab⟩ | ⟨hab, ha⟩ := h
    · have hcd := besides _ _ hcd
      simp only [samplePairsUpdate, List.mem_cons, List.not_mem_nil, or_false, Prod.mk.injEq] at hcd
      rcases hcd with ⟨rfl, rfl⟩ | ⟨rfl, rfl⟩ | ⟨rfl, rfl⟩ | ⟨rfl, rfl⟩ | ⟨rfl, rfl⟩ |
        ⟨rfl, rfl⟩ <;>
        simp [sampleText, sampleOne, sampleFrom, sampleScalar, sampleUpdate, Kind.fromPlaces] at hab
      exact ⟨by rw [hab.1], by rw [hab.2]⟩
    · have hab := besides _ _ hab
      simp only [samplePairsUpdate, List.mem_cons, List.not_mem_nil, or_false, Prod.mk.injEq] at hab
      rcases hab with ⟨rfl, -⟩ | ⟨rfl, -⟩ | ⟨rfl, -⟩ | ⟨rfl, -⟩ | ⟨rfl, -⟩ | ⟨rfl, -⟩ <;> cases ha
  intro a b c d hab hcd
  obtain ⟨ha, hb⟩ := single hab
  obtain ⟨hc, hd⟩ := single hcd
  rw [ha, hb, hc, hd]
  exact ⟨fun _ => rfl, fun _ => rfl⟩

theorem sameShape_sampleFrom_sampleKeyed (v w : Int64) :
    SameShape (sampleFrom (sampleKeyed v)) (sampleFrom (sampleKeyed w)) :=
  (pairing_samplePairsKeyed v w).sameShape (by simp [samplePairsKeyed])

theorem matchOneToOne_sampleFrom_sampleKeyed (v w : Int64) :
    MatchOneToOne (Beside (sampleFrom (sampleKeyed v)) (sampleFrom (sampleKeyed w)))
      (Beside (sampleFrom (sampleKeyed v)) (sampleFrom (sampleKeyed w))) := by
  have besides (a b : Node)
      (h : Beside (sampleFrom (sampleKeyed v)) (sampleFrom (sampleKeyed w)) a b) :=
    (pairing_samplePairsKeyed v w).mem_of_beside (by simp [samplePairsKeyed]) h
  refine matchOneToOne_of_list besides besides ?_ ?_ <;>
    simp [samplePairsKeyed, sampleKeyed, sampleOne, sampleFrom]

end Sample

/-- The objects and the FROM positions alone do not determine a template.  The target of a change
counts as well, and a failure may show the value of a parameter. -/
theorem template_not_determined :
    (∃ m n : Node, m.IsCoherent ∧ n.IsCoherent ∧ m.containsDeferred = false ∧
      n.containsDeferred = false ∧ SameShape m n ∧
        MatchOneToOne (Placed (Beside m n) (BesideInFrom m n))
          (Placed (Beside m n) (BesideInFrom m n)) ∧
            m.template .postgres (m.surveyed 100) false = .error .allCorrelated ∧
              n.template .postgres (n.surveyed 100) false =
                .ok ⟨[.text "UPDATE x SET a = (SELECT 1 FROM x)"]⟩) ∧
      ∃ m n : Node, m.IsCoherent ∧ n.IsCoherent ∧ m.containsDeferred = false ∧
        n.containsDeferred = false ∧ SameShape m n ∧ MatchOneToOne (Beside m n) (Beside m n) ∧
          m.template .postgres (m.surveyed 100) false =
              .error (.notAFromElement "BindParameter('k', 1)") ∧
            n.template .postgres (n.surveyed 100) false =
              .error (.notAFromElement "BindParameter('k', 2)") := by
  constructor
  · exact ⟨sampleUpdate 0, sampleUpdate 1, isCoherent_sampleUpdate_zero,
      isCoherent_sampleUpdate_one, by decide +kernel, by decide +kernel, sameShape_sampleUpdate 0 1,
      placed_sampleUpdate 0 1, by decide +kernel, by decide +kernel⟩
  · exact ⟨sampleFrom (sampleKeyed 1), sampleFrom (sampleKeyed 2),
      isCoherent_sampleFrom_sampleKeyed 1, isCoherent_sampleFrom_sampleKeyed 2,
      by decide +kernel, by decide +kernel, sameShape_sampleFrom_sampleKeyed 1 2,
      matchOneToOne_sampleFrom_sampleKeyed 1 2, by decide +kernel, by decide +kernel⟩

end SqlAlgebra.Node
