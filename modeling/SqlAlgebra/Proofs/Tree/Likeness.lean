import Mathlib.Data.List.Forall2
import SqlAlgebra.Layout.Sources
import SqlAlgebra.Survey.Walk

/-!
# Trees that are alike

Two trees are compared place by place.  At each pair of places that correspond, the nodes have the
same kind and agree on everything that the key of a tree shows; what a key leaves out, such as the
values of parameters, may differ.  Apart from that, two trees may differ in which of their places
hold the same node, and how far they do is said separately: for the nodes whose identity is told
apart in a key, and for those that stand where a FROM element is expected.
-/

namespace SqlAlgebra

open List (Forall₂)

/-- Parameters that a key does not tell apart: neither the value counts nor what it was made for. -/
structure BindParam.Like (a b : BindParam) : Prop where
  key : a.key = b.key
  isUnique : a.isUnique = b.isUnique
  isExpanding : a.isExpanding = b.isExpanding

namespace Kind

variable {α β : Type}

/-- The children that stand where a FROM element is expected. -/
def fromPlaces : Kind α → List α
  | .column _ source _ => source.toList
  | .tableValued e => [e]
  | .join j => [j.left, j.right]
  | .select s => s.froms
  | _ => []

/-- The child that an INSERT, UPDATE or DELETE changes. -/
def targets : Kind α → List α
  | .insert i => [i.table]
  | .update u => [u.table]
  | .delete d => [d.table]
  | _ => []

/-- Shapes that agree on all that a key shows.  Children are related by `R`, those where a FROM
element is expected by `S`, and the target of a change by `T`. -/
inductive Like (R S T : α → β → Prop) : Kind α → Kind β → Prop where
  | null : Like R S T .null .null
  | truth (value : Bool) : Like R S T (.truth value) (.truth value)
  | bind {a b : BindParam} : a.Like b → Like R S T (.bind a) (.bind b)
  | column (name : String) {a : Option α} {b : Option β} (isLiteral : Bool) :
      Option.Rel S a b → Like R S T (.column name a isLiteral) (.column name b isLiteral)
  | text (sql : String) : Like R S T (.text sql) (.text sql)
  | textualSelect {a : α} {b : β} (columns : List ColumnShape) :
      R a b → Like R S T (.textualSelect a columns) (.textualSelect b columns)
  | unary (op : UnaryOp) {a : α} {b : β} : R a b → Like R S T (.unary op a) (.unary op b)
  | binary (op : BinaryOp) {a c : α} {b d : β} :
      R a b → R c d → Like R S T (.binary a op c) (.binary b op d)
  | clauseList (op : ListOp) {as : List α} {bs : List β} :
      Forall₂ R as bs → Like R S T (.clauseList op as) (.clauseList op bs)
  | grouping {a : α} {b : β} : R a b → Like R S T (.grouping a) (.grouping b)
  | function (name : String) {as : List α} {bs : List β} :
      Forall₂ R as bs → Like R S T (.function name as) (.function name bs)
  | cast (type : SqlType) {a : α} {b : β} : R a b → Like R S T (.cast a type) (.cast b type)
  | label (name : Option String) {a : α} {b : β} :
      R a b → Like R S T (.label name a) (.label name b)
  | labelReference {a : α} {b : β} : R a b → Like R S T (.labelReference a) (.labelReference b)
  | textualLabelReference (name : String) :
      Like R S T (.textualLabelReference name) (.textualLabelReference name)
  | ordering (isDescending : Bool) (nulls : Option NullsOrder) {a : α} {b : β} :
      R a b → Like R S T (.ordering a isDescending nulls) (.ordering b isDescending nulls)
  | table (t : Table) : Like R S T (.table t) (.table t)
  | alias (name : Option String) {a : α} {b : β} :
      R a b → Like R S T (.alias a name) (.alias b name)
  | subquery (name : Option String) {a : α} {b : β} :
      R a b → Like R S T (.subquery a name) (.subquery b name)
  | scalarSubquery {a : α} {b : β} : R a b → Like R S T (.scalarSubquery a) (.scalarSubquery b)
  | tableValued {a : α} {b : β} : S a b → Like R S T (.tableValued a) (.tableValued b)
  | join (kind : JoinKind) {left right on : α} {left' right' on' : β} :
      S left left' → S right right' → R on on' →
        Like R S T (.join ⟨left, right, on, kind⟩) (.join ⟨left', right', on', kind⟩)
  | select (isDistinct autoCorrelate : Bool) {columns froms groupBy orderBy : List α}
      {columns' froms' groupBy' orderBy' : List β} {criteria having limit offset : Option α}
      {criteria' having' limit' offset' : Option β} :
      Forall₂ R columns columns' → Forall₂ S froms froms' → Option.Rel R criteria criteria' →
        Forall₂ R groupBy groupBy' → Option.Rel R having having' → Forall₂ R orderBy orderBy' →
          Option.Rel R limit limit' → Option.Rel R offset offset' →
            Like R S T
              (.select ⟨columns, froms, criteria, groupBy, having, orderBy, limit, offset,
                isDistinct, autoCorrelate⟩)
              (.select ⟨columns', froms', criteria', groupBy', having', orderBy', limit', offset',
                isDistinct, autoCorrelate⟩)
  | compound (op : SetOp) {as : List α} {bs : List β} :
      Forall₂ R as bs → Like R S T (.compound op as) (.compound op bs)
  | insert {target : α} {target' : β} {values : List (String × α)} {values' : List (String × β)}
      {source : Option (List String × α)} {source' : Option (List String × β)}
      {returning : List α} {returning' : List β} :
      T target target' → Forall₂ (fun p q => p.1 = q.1 ∧ R p.2 q.2) values values' →
        Option.Rel (fun p q => p.1 = q.1 ∧ R p.2 q.2) source source' →
          Forall₂ R returning returning' →
            Like R S T (.insert ⟨target, values, source, returning⟩)
              (.insert ⟨target', values', source', returning'⟩)
  | update {target : α} {target' : β} {values : List (String × α)} {values' : List (String × β)}
      {criteria : Option α} {criteria' : Option β} {returning : List α} {returning' : List β} :
      T target target' → Forall₂ (fun p q => p.1 = q.1 ∧ R p.2 q.2) values values' →
        Option.Rel R criteria criteria' → Forall₂ R returning returning' →
          Like R S T (.update ⟨target, values, criteria, returning⟩)
            (.update ⟨target', values', criteria', returning'⟩)
  | delete {target : α} {target' : β} {criteria : Option α} {criteria' : Option β}
      {returning : List α} {returning' : List β} :
      T target target' → Option.Rel R criteria criteria' → Forall₂ R returning returning' →
        Like R S T (.delete ⟨target, criteria, returning⟩)
          (.delete ⟨target', criteria', returning'⟩)
  | deferred {a b : Lambda} {r s : Role} :
      a.id = b.id → r.name = s.name → Like R S T (.deferred a r) (.deferred b s)

variable {R R' S S' T T' : α → β → Prop}

theorem forall₂_append_iff {as cs : List α} {bs ds : List β} (h : as.length = bs.length) :
    Forall₂ R (as ++ cs) (bs ++ ds) ↔ Forall₂ R as bs ∧ Forall₂ R cs ds := by
  induction as generalizing bs with
  | nil =>
    obtain rfl : bs = [] := List.length_eq_zero_iff.1 h.symm
    simp
  | cons a as ih =>
    cases bs with
    | nil => simp at h
    | cons b bs =>
      rw [List.cons_append, List.cons_append, List.forall₂_cons, List.forall₂_cons,
        ih (Nat.succ.inj h), and_assoc]

theorem forall₂_toList_iff {a : Option α} {b : Option β} :
    Forall₂ R a.toList b.toList ↔ Option.Rel R a b := by
  constructor
  · intro h
    cases a <;> cases b <;> simp at h
    · exact .none
    · exact .some h
  · rintro (h | -)
    · simpa using h
    · exact .nil

theorem Like.mono (hR : ∀ a b, R a b → R' a b) (hS : ∀ a b, S a b → S' a b)
    (hT : ∀ a b, T a b → T' a b) {k : Kind α} {k' : Kind β} (h : Like R S T k k') :
    Like R' S' T' k k' := by
  have option {Q Q' : α → β → Prop} (hQ : ∀ a b, Q a b → Q' a b) {a : Option α} {b : Option β}
      (h : Option.Rel Q a b) : Option.Rel Q' a b := by
    cases h with
    | none => exact .none
    | some h => exact .some (hQ _ _ h)
  have pairs {values : List (String × α)} {values' : List (String × β)}
      (h : Forall₂ (fun p q => p.1 = q.1 ∧ R p.2 q.2) values values') :
      Forall₂ (fun p q => p.1 = q.1 ∧ R' p.2 q.2) values values' :=
    h.imp fun _ _ h => ⟨h.1, hR _ _ h.2⟩
  cases h
  all_goals constructor
  all_goals first
    | assumption
    | exact hR _ _ ‹_›
    | exact hS _ _ ‹_›
    | exact hT _ _ ‹_›
    | exact option hR ‹_›
    | exact option hS ‹_›
    | exact pairs ‹_›
    | exact List.Forall₂.imp hR ‹_›
    | exact List.Forall₂.imp hS ‹_›
    | skip
  rename_i h _
  cases h with
  | none => exact .none
  | some h => exact .some ⟨h.1, hR _ _ h.2⟩

theorem Like.children {k : Kind α} {k' : Kind β} (h : Like R R R k k') :
    Forall₂ R k.children k'.children := by
  have append {as cs : List α} {bs ds : List β} (h : Forall₂ R as bs) (h' : Forall₂ R cs ds) :
      Forall₂ R (as ++ cs) (bs ++ ds) := (forall₂_append_iff h.length_eq).2 ⟨h, h'⟩
  have option {a : Option α} {b : Option β} (h : Option.Rel R a b) :
      Forall₂ R a.toList b.toList := forall₂_toList_iff.2 h
  have pairs {values : List (String × α)} {values' : List (String × β)}
      (h : Forall₂ (fun p q => p.1 = q.1 ∧ R p.2 q.2) values values') :
      Forall₂ R (values.map Prod.snd) (values'.map Prod.snd) := by
    rw [List.forall₂_map_left_iff, List.forall₂_map_right_iff]
    exact h.imp fun _ _ h => h.2
  cases h with
  | null | truth | bind | text | textualLabelReference | table | deferred => exact .nil
  | column _ _ h => exact option h
  | textualSelect _ h | unary _ h | grouping h | cast _ h | label _ h | labelReference h
  | ordering _ _ h | «alias» _ h | subquery _ h | scalarSubquery h | tableValued h =>
    exact .cons h .nil
  | binary _ h₁ h₂ => exact .cons h₁ (.cons h₂ .nil)
  | clauseList _ h | function _ h | compound _ h => exact h
  | join _ h₁ h₂ h₃ => exact .cons h₁ (.cons h₂ (.cons h₃ .nil))
  | select _ _ h₁ h₂ h₃ h₄ h₅ h₆ h₇ h₈ =>
    exact append (append (append (append (append (append (append h₁ h₂) (option h₃)) h₄)
      (option h₅)) h₆) (option h₇)) (option h₈)
  | insert h₁ h₂ h₃ h₄ =>
    refine .cons h₁ (append (append (pairs h₂) ?_) h₄)
    cases h₃ with
    | none => exact .nil
    | some h => exact .cons h.2 .nil
  | update h₁ h₂ h₃ h₄ => exact .cons h₁ (append (append (pairs h₂) (option h₃)) h₄)
  | delete h₁ h₂ h₃ => exact .cons h₁ (append (option h₂) h₃)

/-- Shapes that are alike and whose children are related place by place. -/
theorem Like.of_children {k : Kind α} {k' : Kind β}
    (h : Like (fun _ _ => True) (fun _ _ => True) (fun _ _ => True) k k')
    (hR : Forall₂ R k.children k'.children) : Like R R R k k' := by
  have split {as cs : List α} {bs ds : List β} (h : Forall₂ (fun _ _ => True) as bs)
      (h' : Forall₂ R (as ++ cs) (bs ++ ds)) : Forall₂ R as bs ∧ Forall₂ R cs ds :=
    (forall₂_append_iff h.length_eq).1 h'
  have option {a : Option α} {b : Option β} (h : Option.Rel (fun _ _ => True) a b) :
      Forall₂ (fun _ _ => True) a.toList b.toList := forall₂_toList_iff.2 h
  have pairs {values : List (String × α)} {values' : List (String × β)}
      (h : Forall₂ (fun p q => p.1 = q.1 ∧ True) values values')
      (h' : Forall₂ R (values.map Prod.snd) (values'.map Prod.snd)) :
      Forall₂ (fun p q => p.1 = q.1 ∧ R p.2 q.2) values values' := by
    rw [List.forall₂_map_left_iff, List.forall₂_map_right_iff] at h'
    exact List.Forall₂.mp (fun _ _ h h' => ⟨h.1, h'⟩) h h'
  cases h
  all_goals simp only [Kind.children, List.forall₂_cons] at hR
  case column => exact .column _ _ (forall₂_toList_iff.1 hR)
  case binary => exact .binary _ hR.1 hR.2.1
  case join => exact .join _ hR.1 hR.2.1 hR.2.2.1
  case select h₁ h₂ h₃ h₄ h₅ h₆ h₇ h₈ =>
    simp only [Select.children, List.append_assoc] at hR
    obtain ⟨r₁, hR⟩ := split h₁ hR
    obtain ⟨r₂, hR⟩ := split h₂ hR
    obtain ⟨r₃, hR⟩ := split (option h₃) hR
    obtain ⟨r₄, hR⟩ := split h₄ hR
    obtain ⟨r₅, hR⟩ := split (option h₅) hR
    obtain ⟨r₆, hR⟩ := split h₆ hR
    obtain ⟨r₇, r₈⟩ := split (option h₇) hR
    exact .select _ _ r₁ r₂ (forall₂_toList_iff.1 r₃) r₄ (forall₂_toList_iff.1 r₅) r₆
      (forall₂_toList_iff.1 r₇) (forall₂_toList_iff.1 r₈)
  case insert source source' _ _ h₁ h₂ h₃ h₄ =>
    have read : Forall₂ (fun _ _ => True) (source.map Prod.snd).toList
        (source'.map Prod.snd).toList := by
      cases h₃ with
      | none => exact .nil
      | some h => exact .cons h.2 .nil
    obtain ⟨r₀, hR⟩ := hR
    rw [List.append_assoc, List.append_assoc] at hR
    obtain ⟨r₁, hR⟩ := split (by simpa using h₂.imp fun _ _ h => h.2) hR
    obtain ⟨r₂, r₃⟩ := split read hR
    refine .insert r₀ (pairs h₂ r₁) ?_ r₃
    cases h₃ with
    | none => exact .none
    | some h => exact .some ⟨h.1, (List.forall₂_cons.1 r₂).1⟩
  case update h₁ h₂ h₃ h₄ =>
    obtain ⟨r₀, hR⟩ := hR
    rw [List.append_assoc, List.append_assoc] at hR
    obtain ⟨r₁, hR⟩ := split (by simpa using h₂.imp fun _ _ h => h.2) hR
    obtain ⟨r₂, r₃⟩ := split (option h₃) hR
    exact .update r₀ (pairs h₂ r₁) (forall₂_toList_iff.1 r₂) r₃
  case delete h₁ h₂ h₃ =>
    obtain ⟨r₁, r₂⟩ := split (option h₂) hR.2
    exact .delete hR.1 (forall₂_toList_iff.1 r₁) r₂
  case textualSelect => exact .textualSelect _ hR.1
  case unary => exact .unary _ hR.1
  case clauseList => exact .clauseList _ hR
  case grouping => exact .grouping hR.1
  case function => exact .function _ hR
  case cast => exact .cast _ hR.1
  case label => exact .label _ hR.1
  case labelReference => exact .labelReference hR.1
  case ordering => exact .ordering _ _ hR.1
  case «alias» => exact .alias _ hR.1
  case subquery => exact .subquery _ hR.1
  case scalarSubquery => exact .scalarSubquery hR.1
  case tableValued => exact .tableValued hR.1
  case compound => exact .compound _ hR
  case null => exact .null
  case truth => exact .truth _
  case bind h => exact .bind h
  case text => exact .text _
  case textualLabelReference => exact .textualLabelReference _
  case table => exact .table _
  case deferred h₁ h₂ => exact .deferred h₁ h₂

theorem Like.placed {k : Kind α} {k' : Kind β} (h : Like R R R k k')
    (hS : Forall₂ S k.fromPlaces k'.fromPlaces) (hT : Forall₂ T k.targets k'.targets) :
    Like R S T k k' := by
  cases h <;> simp only [fromPlaces, targets, List.forall₂_cons] at hS hT
  case column => exact .column _ _ (forall₂_toList_iff.1 hS)
  case tableValued => exact .tableValued hS.1
  case join h => exact .join _ hS.1 hS.2.1 h
  case select h₁ _ h₃ h₄ h₅ h₆ h₇ h₈ => exact .select _ _ h₁ hS h₃ h₄ h₅ h₆ h₇ h₈
  case insert h₂ h₃ h₄ => exact .insert hT.1 h₂ h₃ h₄
  case update h₂ h₃ h₄ => exact .update hT.1 h₂ h₃ h₄
  case delete h₂ h₃ => exact .delete hT.1 h₂ h₃
  all_goals constructor <;> assumption

theorem Like.fromPlaces {k : Kind α} {k' : Kind β} (h : Like R S T k k') :
    Forall₂ S k.fromPlaces k'.fromPlaces := by
  cases h with
  | column _ _ h => exact forall₂_toList_iff.2 h
  | tableValued h => exact .cons h .nil
  | join _ h₁ h₂ => exact .cons h₁ (.cons h₂ .nil)
  | select _ _ _ h => exact h
  | _ => exact .nil

theorem Like.targets {k : Kind α} {k' : Kind β} (h : Like R S T k k') :
    Forall₂ T k.targets k'.targets := by
  cases h with
  | insert h | update h | delete h => exact .cons h .nil
  | _ => exact .nil

end Kind

namespace Node

/-- The type of a node where a key shows it. -/
def visibleType (n : Node) : Option SqlType :=
  match n.kind with
  | .bind _ | .column _ _ _ => some n.type
  | _ => none

/-- Whether a node is told apart from others by its identity in a key: the FROM elements, the labels
and the bound parameters are. -/
def isTracked (n : Node) : Bool :=
  n.hasOrdinal ||
    match n.kind with
    | .bind _ => true
    | _ => false

/-- Whether a node is a FROM element or a label that its author left without a name. -/
def isNameless (n : Node) : Bool :=
  match n.kind with
  | .alias _ name | .subquery _ name | .label name _ => name.isNone
  | _ => false

theorem isTracked_of_isNameless {n : Node} (h : n.isNameless) : n.isTracked := by
  rcases n with ⟨i, kind, type, annotations, diagnostics⟩
  cases kind <;> first | rfl | cases h

/-- Nodes that agree on all that a key shows of them, with related children. -/
structure Like (R S T : Node → Node → Prop) (a b : Node) : Prop where
  kind : a.kind.Like R S T b.kind
  type : a.visibleType = b.visibleType

/-- Nodes that agree on all that a key shows of them, whatever their children are. -/
abbrev SameForm (a b : Node) : Prop :=
  a.Like (fun _ _ => True) (fun _ _ => True) (fun _ _ => True) b

variable {R S T R' S' T' : Node → Node → Prop} {a b c d m n : Node}

theorem Like.mono (hR : ∀ a b, R a b → R' a b) (hS : ∀ a b, S a b → S' a b)
    (hT : ∀ a b, T a b → T' a b) (h : a.Like R S T b) : a.Like R' S' T' b :=
  ⟨h.kind.mono hR hS hT, h.type⟩

theorem Like.sameForm (h : a.Like R S T b) : a.SameForm b :=
  h.mono (fun _ _ _ => trivial) (fun _ _ _ => trivial) fun _ _ _ => trivial

theorem Like.kindName (h : a.Like R S T b) : a.kindName = b.kindName := by
  obtain ⟨h, -⟩ := h
  unfold Node.kindName
  generalize a.kind = k at h
  generalize b.kind = k' at h
  cases h <;> rfl

theorem Like.isFromClause (h : a.Like R S T b) : a.isFromClause = b.isFromClause := by
  obtain ⟨h, -⟩ := h
  unfold Node.isFromClause
  generalize a.kind = k at h
  generalize b.kind = k' at h
  cases h <;> rfl

theorem Like.hasOrdinal (h : a.Like R S T b) : a.hasOrdinal = b.hasOrdinal := by
  unfold Node.hasOrdinal
  rw [h.isFromClause]
  obtain ⟨h, -⟩ := h
  generalize a.kind = k at h
  generalize b.kind = k' at h
  cases h <;> rfl

theorem Like.isNameless (h : a.Like R S T b) : a.isNameless = b.isNameless := by
  obtain ⟨h, -⟩ := h
  unfold Node.isNameless
  generalize a.kind = k at h
  generalize b.kind = k' at h
  cases h <;> rfl

theorem Like.isTracked (h : a.Like R S T b) : a.isTracked = b.isTracked := by
  unfold Node.isTracked
  rw [h.hasOrdinal]
  obtain ⟨h, -⟩ := h
  generalize a.kind = k at h
  generalize b.kind = k' at h
  cases h <;> rfl

theorem Like.fromName (h : a.Like R S T b) : a.fromName = b.fromName := by
  obtain ⟨h, -⟩ := h
  unfold Node.fromName
  generalize a.kind = k at h
  generalize b.kind = k' at h
  cases h <;> rfl

/-- Nodes that are alike stand alike in messages, but for the value of a parameter. -/
theorem Like.repr (h : a.Like R S T b) (hS : ∀ c d, S c d → c.fromName = d.fromName)
    (ha : ∀ p, a.kind ≠ .bind p) : a.repr = b.repr := by
  have name := h.kindName
  obtain ⟨h, -⟩ := h
  unfold Node.repr
  rw [name]
  generalize a.kind = k at h ha
  generalize b.kind = k' at h
  cases h with
  | bind => exact absurd rfl (ha _)
  | column _ _ h =>
    cases h with
    | none => rfl
    | some h => simp only [Option.bind_some, hS _ _ h]
  | label name | «alias» name | subquery name => cases name <;> rfl
  | _ => rfl

/-! ## Corresponding places -/

/-- The pairs of nodes that stand at the same place of two trees. -/
inductive Beside (m n : Node) : Node → Node → Prop where
  | root : Beside m n m n
  | child {a b c d : Node} :
      Beside m n a b → (c, d) ∈ a.children.zip b.children → Beside m n c d

/-- The pairs of nodes that stand at the same place of two trees, where a FROM element is
expected. -/
inductive BesideInFrom (m n : Node) : Node → Node → Prop where
  | intro {a b c d : Node} :
      Beside m n a b → (c, d) ∈ a.kind.fromPlaces.zip b.kind.fromPlaces → BesideInFrom m n c d

/-- The pairs of targets of an INSERT, UPDATE or DELETE at the same place of two trees. -/
inductive BesideAsTarget (m n : Node) : Node → Node → Prop where
  | intro {a b c d : Node} :
      Beside m n a b → (c, d) ∈ a.kind.targets.zip b.kind.targets → BesideAsTarget m n c d

/-- Trees that unfold to the same shape, with the same of all that a key shows. -/
def SameShape (m n : Node) : Prop := ∀ ⦃a b : Node⦄, Beside m n a b → a.SameForm b

/-- Whether two relations on the nodes of two trees match them one to one: nodes that are related to
others are the same one on one side exactly when they are on the other. -/
def MatchOneToOne (P Q : Node → Node → Prop) : Prop :=
  ∀ ⦃a b c d : Node⦄, P a b → Q c d → (a.id = c.id ↔ b.id = d.id)

/-- Trees whose FROM elements, labels and bound parameters correspond one to one: two places hold
the same of them in one tree exactly when they do in the other. -/
def SameObjects (m n : Node) : Prop :=
  MatchOneToOne (fun a b => Beside m n a b ∧ a.isTracked ∧ b.isTracked)
    (fun a b => Beside m n a b ∧ a.isTracked ∧ b.isTracked)

theorem Beside.occurs_left (h : Beside m n a b) : Occurs a m := by
  induction h with
  | root => exact .root
  | child _ hc ih => exact .trans (.deeper (List.of_mem_zip hc).1 .root) ih

theorem Beside.occurs_right (h : Beside m n a b) : Occurs b n := by
  induction h with
  | root => exact .root
  | child _ hc ih => exact .trans (.deeper (List.of_mem_zip hc).2 .root) ih

theorem SameShape.children (h : SameShape m n) (hab : Beside m n a b) :
    Forall₂ (Beside m n) a.children b.children := by
  rw [List.forall₂_iff_zip]
  exact ⟨(h hab).kind.children.length_eq, fun hc => .child hab hc⟩

theorem SameShape.like (h : SameShape m n) (hab : Beside m n a b) :
    a.Like (Beside m n) (Beside m n) (Beside m n) b :=
  ⟨(h hab).kind.of_children (h.children hab), (h hab).type⟩

/-- Every node of a tree stands beside one of a tree of the same shape. -/
theorem SameShape.exists_beside (h : SameShape m n) (hx : Occurs c m) : ∃ d, Beside m n c d := by
  have below {a b : Node} (hab : Beside m n a b) (hx : Occurs c a) : ∃ d, Beside m n c d := by
    induction hx generalizing b with
    | root => exact ⟨b, hab⟩
    | deeper hc _ ih =>
      obtain ⟨i, hi, rfl⟩ := List.mem_iff_getElem.1 hc
      have children := h.children hab
      exact ih ((List.forall₂_iff_get.1 children).2 i hi (children.length_eq ▸ hi))
  exact below .root hx

theorem SameShape.beside_of_inFrom (h : SameShape m n) (hcd : BesideInFrom m n c d) :
    Beside m n c d := by
  obtain ⟨hab, hc⟩ := hcd
  exact (List.forall₂_iff_zip.1 (h.like hab).kind.fromPlaces).2 hc

theorem SameShape.beside_of_asTarget (h : SameShape m n) (hcd : BesideAsTarget m n c d) :
    Beside m n c d := by
  obtain ⟨hab, hc⟩ := hcd
  exact (List.forall₂_iff_zip.1 (h.like hab).kind.targets).2 hc

/-- The same, where the children in FROM positions and the targets are told apart. -/
theorem SameShape.likePlaced (h : SameShape m n) (hab : Beside m n a b) :
    a.Like (Beside m n) (BesideInFrom m n) (BesideAsTarget m n) b := by
  have like := h.like hab
  refine ⟨like.kind.placed ?_ ?_, like.type⟩
  · rw [List.forall₂_iff_zip]
    exact ⟨like.kind.fromPlaces.length_eq, fun hc => .intro hab hc⟩
  · rw [List.forall₂_iff_zip]
    exact ⟨like.kind.targets.length_eq, fun hc => .intro hab hc⟩

end Node

end SqlAlgebra
