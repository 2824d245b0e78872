import SqlAlgebra.Build.Expression
import SqlAlgebra.Proofs.Coercion.Policy

/-!
# Lists on the right of IN

A list may have plain values, column expressions and NULL in it.  A list of plain values is one
expanding parameter.  Any other list becomes a list of clauses in parentheses, with a clause for each
element.  A list with anything else in it is refused.
-/

namespace SqlAlgebra

open List (Forall₂)

/-- What an element of a list on the right of IN is. -/
inductive ListEntry where
  | null
  | value (value : Value)
  | element (node : Node)

/-- What an input is as an element of a list, if it may be one. -/
def Input.listElement? : Input → Option ListEntry
  | .nothing => some .null
  | .node n => if n.isColumnElement then some (.element n) else none
  | input => input.toValue?.map .value

namespace ListEntry

/-- Whether an element cannot be part of the value of a parameter. -/
def takesPlace : ListEntry → Bool
  | .value _ => false
  | _ => true

/-- The clauses that stand for an element where each element has a clause of its own. -/
inductive IsClause : ListEntry → Node → Prop where
  | null {n : Node} : n.kind = .null → IsClause .null n
  | value {n : Node} {key : Option String} {value : Value} :
      n.kind = .bind ⟨key, value, true, false, false⟩ → IsClause (.value value) n
  | element (n : Node) : IsClause (.element n) n

/-- The nodes that stand for a list of elements. -/
inductive IsList : List ListEntry → Node → Prop where
  | values {n : Node} {key : Option String} {values : List Value} :
      n.kind = .bind ⟨key, .list values, true, true, false⟩ → IsList (values.map .value) n
  | clauses {n list : Node} {entries : List ListEntry} {clauses : List Node} :
      entries ≠ [] → Forall₂ IsClause entries clauses → list.kind = .clauseList .comma clauses →
        n.kind = .grouping list → IsList entries n

theorem exists_values {entries : List ListEntry} (h : ∀ entry ∈ entries, entry.takesPlace = false) :
    ∃ values : List Value, entries = values.map .value := by
  induction entries with
  | nil => exact ⟨[], rfl⟩
  | cons entry entries ih =>
    obtain ⟨values, rfl⟩ := ih fun entry' mem => h entry' (List.mem_cons_of_mem _ mem)
    cases entry with
    | value v => exact ⟨v :: values, rfl⟩
    | null => exact absurd (h .null List.mem_cons_self) nofun
    | element n => exact absurd (h (.element n) List.mem_cons_self) nofun

end ListEntry

namespace Input

variable {item : Input} {items : List Input} {entry : ListEntry} {values : List Value}

theorem listElement?_of_plain (some : item ≠ .nothing) (plain : ∀ n, item ≠ .node n) :
    item.listElement? = item.toValue?.map .value := by
  cases item with
  | nothing => exact absurd rfl some
  | node n => exact absurd rfl (plain n)
  | _ => rfl

/-- What may be an element of a list is no value, a column expression or a plain value. -/
theorem cases_of_listElement? (h : item.listElement? = some entry) :
    (item = .nothing ∧ entry = .null) ∨
      (∃ n, item = .node n ∧ n.isColumnElement = true ∧ entry = .element n) ∨
      ∃ value, item ≠ .nothing ∧ item.toValue? = some value ∧ entry = .value value := by
  by_cases nothing : item = .nothing
  · subst nothing
    cases h
    exact .inl ⟨rfl, rfl⟩
  · by_cases node : ∃ n, item = .node n
    · obtain ⟨n, rfl⟩ := node
      change (if n.isColumnElement then some (ListEntry.element n) else none) = some entry at h
      split at h
      · next column =>
        cases h
        exact .inr (.inl ⟨n, rfl, column, rfl⟩)
      · cases h
    · rw [listElement?_of_plain nothing fun n same => node ⟨n, same⟩] at h
      obtain ⟨value, found, rfl⟩ := Option.map_eq_some_iff.1 h
      exact .inr (.inr ⟨value, nothing, found, rfl⟩)

/-- What may not be an element of a list either has no place in it or is no plain value. -/
theorem cases_of_listElement?_eq_none (h : item.listElement? = none) :
    Site.listPlace item = none ∨ (∀ n, item ≠ .node n) ∧ item ≠ .nothing ∧ item.toValue? = none := by
  have some : item ≠ .nothing := by
    rintro rfl
    cases h
  by_cases node : ∃ n, item = .node n
  · obtain ⟨n, rfl⟩ := node
    change (if n.isColumnElement then Option.some (ListEntry.element n) else none) = none at h
    split at h
    · cases h
    · next column => exact .inl (if_neg column)
  · have plain : ∀ n, item ≠ .node n := fun n same => node ⟨n, same⟩
    rw [listElement?_of_plain some plain] at h
    exact .inr ⟨plain, some, Option.map_eq_none_iff.1 h⟩

theorem listPlace_of_listElement? (h : item.listElement? = some entry) :
    Site.listPlace item = some entry.takesPlace := by
  obtain ⟨rfl, rfl⟩ | ⟨n, rfl, column, rfl⟩ | ⟨value, some, plain, rfl⟩ := cases_of_listElement? h
  · rfl
  · exact if_pos column
  · cases item with
    | nothing => exact absurd rfl some
    | node _ | lambda _ | element _ _ | handle _ _ => cases plain
    | _ => rfl

theorem itemsToValue?_of_listElements
    (h : items.map listElement? = (values.map ListEntry.value).map some) :
    itemsToValue? items = some values := by
  induction items generalizing values with
  | nil =>
    cases values with
    | nil => rfl
    | cons => cases h
  | cons item items ih =>
    cases values with
    | nil => cases h
    | cons value values =>
      obtain ⟨first, rest⟩ := List.cons.inj h
      obtain ⟨-, same⟩ | ⟨n, -, -, same⟩ | ⟨value, -, plain, same⟩ := cases_of_listElement? first
      · cases same
      · cases same
      · cases same
        rw [itemsToValue?, plain, ih rest]
        rfl

theorem itemsToValue?_eq_none (h : item ∈ items) (hv : item.toValue? = none) :
    itemsToValue? items = none := by
  induction items with
  | nil => cases h
  | cons first items ih =>
    rw [itemsToValue?]
    obtain rfl | h := List.mem_cons.1 h
    · rw [hv]
    · rw [ih h]
      split <;> rfl

end Input

namespace Site

variable {site : Site} {whole item : Input} {items : List Input} {entry : ListEntry}
  {entries : List ListEntry}

/-! ## Lists that are taken -/

theorem sure_paramAgainst (left : Option Node) (value : Value) (isExpanding : Bool) :
    Coerce.Sure (liftM (Build.paramAgainst left value isExpanding)) fun n =>
      ∃ key, n.kind = .bind ⟨key, value, true, isExpanding, false⟩ :=
  (Coerce.Sure.typed _ _).mono fun _ hn => ⟨_, hn⟩

/-- An element becomes a clause that stands for it. -/
theorem sure_listClause (h : item.listElement? = some entry) :
    Coerce.Sure (site.listClause whole item) entry.IsClause := by
  obtain ⟨rfl, rfl⟩ | ⟨n, rfl, -, rfl⟩ | ⟨value, some, plain, rfl⟩ := Input.cases_of_listElement? h
  · exact (Coerce.Sure.typed _ _).mono fun _ hn => .null hn
  · exact .pure (.element n)
  · have clause : site.listClause whole item =
        liftM (Build.paramAgainst site.args.left value false) := by
      unfold listClause
      split
      · exact absurd rfl some
      · cases plain
      · rw [plain]
    rw [clause]
    exact (sure_paramAgainst _ _ _).mono fun _ ⟨_, hn⟩ => .value hn

theorem sure_listClauses (h : items.map Input.listElement? = entries.map some) :
    Coerce.Sure (items.mapM (site.listClause whole)) (Forall₂ ListEntry.IsClause entries) := by
  induction items generalizing entries with
  | nil =>
    cases entries with
    | nil => exact .pure .nil
    | cons => cases h
  | cons item items ih =>
    cases entries with
    | nil => cases h
    | cons entry entries =>
      obtain ⟨first, rest⟩ := List.cons.inj h
      rw [List.mapM_cons]
      exact (sure_listClause first).bind fun _ clause =>
        (ih rest).bind fun _ clauses => .pure (.cons clause clauses)

theorem map_listPlace (h : items.map Input.listElement? = entries.map some) :
    items.map listPlace = entries.map fun entry => some entry.takesPlace := by
  induction items generalizing entries with
  | nil =>
    cases entries with
    | nil => rfl
    | cons => cases h
  | cons item items ih =>
    cases entries with
    | nil => cases h
    | cons entry entries =>
      obtain ⟨first, rest⟩ := List.cons.inj h
      rw [List.map_cons, List.map_cons, Input.listPlace_of_listElement? first, ih rest]

/-- What a list resolves to before the last step of its role. -/
inductive IsListing (entries : List ListEntry) (n : Node) : Prop where
  | values {key : Option String} {values : List Value} :
      entries = values.map .value → n.kind = .bind ⟨key, .list values, true, true, false⟩ →
        IsListing entries n
  | clauses {clauses : List Node} :
      entries ≠ [] → Forall₂ ListEntry.IsClause entries clauses →
        n.kind = .clauseList .comma clauses → IsListing entries n

theorem sure_listLiteral (h : items.map Input.listElement? = entries.map some) :
    Coerce.Sure (site.listLiteral (.list items)) fun c =>
      ∃ n, c = .node n ∧ IsListing entries n := by
  have places := map_listPlace h
  have allowed : (items.map listPlace).any Option.isNone = false := by
    rw [places, List.any_map, List.any_eq_false]
    exact fun _ _ => Bool.false_ne_true
  unfold listLiteral
  dsimp only
  rw [allowed, if_neg Bool.false_ne_true]
  by_cases plain : ∀ entry ∈ entries, entry.takesPlace = false
  · obtain ⟨values, rfl⟩ := ListEntry.exists_values plain
    have one : (items.map listPlace).contains (some true) = false := by
      rw [places, List.contains_eq_any_beq, List.any_map, List.any_eq_false]
      intro entry mem
      show ¬(some true == some entry.takesPlace) = true
      rw [plain entry mem]
      exact Bool.false_ne_true
    have value : (Input.list items).toValue? = some (.list values) := by
      rw [Input.toValue?, Input.itemsToValue?_of_listElements h]
      rfl
    rw [one, value]
    refine (sure_paramAgainst _ _ _).map ?_
    rintro n ⟨_, hn⟩
    exact ⟨n, rfl, .values rfl hn⟩
  · have several : (items.map listPlace).contains (some true) = true := by
      obtain ⟨entry, mem, own⟩ : ∃ entry ∈ entries, entry.takesPlace = true := by
        simpa only [not_forall, Bool.not_eq_false, exists_prop] using plain
      rw [places, List.contains_iff_mem]
      exact List.mem_map.2 ⟨entry, mem, congrArg some own⟩
    have some : entries ≠ [] := by
      rintro rfl
      exact plain (List.forall_mem_nil _)
    rw [several]
    exact (sure_listClauses h).bind fun _ clauses =>
      (Coerce.Sure.typed _ _).map fun n hn => ⟨n, rfl, .clauses some clauses hn⟩

/-- The last step puts a list of clauses in parentheses. -/
theorem sure_membership_of_isListing {n : Node} (h : IsListing entries n) :
    Coerce.Sure (membership n) fun c => ∃ m, c = .node m ∧ ListEntry.IsList entries m := by
  cases h with
  | values same hn =>
    have kept : membership n = pure (.node n) := by
      rw [membership, if_neg (by rw [Node.isSelectStatement, hn]; exact Bool.false_ne_true), hn]
      rfl
    rw [kept]
    exact .pure ⟨n, rfl, same ▸ .values hn⟩
  | @clauses clauses some each hn =>
    have nonempty : clauses.isEmpty = false := by
      cases each with
      | nil => exact absurd rfl some
      | cons => rfl
    have grouped : membership n = .node <$> liftM (Build.typed (.grouping n) n.type) := by
      rw [membership, if_neg (by rw [Node.isSelectStatement, hn]; exact Bool.false_ne_true), hn]
      dsimp only
      rw [nonempty]
      rfl
    rw [grouped]
    exact (Coerce.Sure.typed _ _).map fun m hm => ⟨m, rfl, .clauses some each hn hm⟩

theorem sure_coerce_list (args : CoercionArgs) (h : items.map Input.listElement? = entries.map some) :
    Coerce.Sure ((⟨.inElement, args⟩ : Site).coerce (.list items)) fun c =>
      ∃ n, c = .node n ∧ ListEntry.IsList entries n := by
  refine (sure_listLiteral h).bind ?_
  rintro _ ⟨n, rfl, listing⟩
  have accepted : Role.accepts .inElement n = true := by
    cases listing with
    | values _ hn | clauses _ _ hn => simp [Role.accepts, Node.isDeferred, hn]
  show Coerce.Sure (if Role.accepts .inElement n then membership n else _) _
  rw [if_pos accepted]
  exact sure_membership_of_isListing listing

/-! ## Lists that are refused -/

theorem fails_listClauses (h : item ∈ items) (hn : item.listElement? = none)
    (places : ∀ other ∈ items, (listPlace other).isSome) (i : Identity) :
    Coerce.Fails (items.mapM (site.listClause whole)) i (site.unexpected whole none) := by
  induction items generalizing i with
  | nil => cases h
  | cons first items ih =>
    rw [List.mapM_cons]
    cases found : first.listElement? with
    | none =>
      obtain place | ⟨node, nothing, plain⟩ := Input.cases_of_listElement?_eq_none found
      · have present := places first List.mem_cons_self
        rw [place] at present
        cases present
      · intro ds
        apply Build.bind_run_error_over
        unfold listClause
        split
        · exact absurd rfl nothing
        · exact absurd rfl (node _)
        · rw [plain]
          rfl
    | some entry =>
      have later : item ∈ items := by
        obtain rfl | later := List.mem_cons.1 h
        · rw [hn] at found
          cases found
        · exact later
      have sure : Coerce.Sure (site.listClause whole first) entry.IsClause := sure_listClause found
      obtain ⟨clause, next, gives, -⟩ := sure i
      have fails := ih later (fun other mem => places other (List.mem_cons_of_mem _ mem)) next
      intro ds
      rw [Build.bind_run_over (gives ds)]
      exact Build.bind_run_error_over (fails ds)

theorem fails_listLiteral (h : item ∈ items) (hn : item.listElement? = none) (i : Identity) :
    Coerce.Fails (site.listLiteral (.list items)) i (site.unexpected (.list items) none) := by
  intro ds
  unfold listLiteral
  dsimp only
  by_cases allowed : (items.map listPlace).any Option.isNone = true
  · rw [if_pos allowed]
    rfl
  · have places : ∀ other ∈ items, (listPlace other).isSome = true := by
      simpa [List.any_eq_true, Option.isSome_iff_ne_none] using allowed
    rw [if_neg allowed]
    split
    · have place := places item h
      obtain none | ⟨-, -, plain⟩ := Input.cases_of_listElement?_eq_none hn
      · rw [none] at place
        cases place
      · rw [Input.toValue?, Input.itemsToValue?_eq_none h plain]
        rfl
    · exact Build.bind_run_error_over (fails_listClauses h hn places i ds)

theorem fails_coerce_list (args : CoercionArgs) (h : item ∈ items) (hn : item.listElement? = none)
    (i : Identity) :
    Coerce.Fails ((⟨.inElement, args⟩ : Site).coerce (.list items)) i
      ((⟨.inElement, args⟩ : Site).unexpected (.list items) none) :=
  fun ds => Build.bind_run_error_over (fails_listLiteral h hn i ds)

end Site

namespace Node

variable {left : Node} {op : BinaryOp} {items : List Input} {entries : List ListEntry} {item : Input}

/-- A list of what may stand in it becomes the right side of an IN expression, and nothing is
reported. -/
theorem membership_list (h : items.map Input.listElement? = entries.map some) (i : Identity) :
    ∃ n right next, left.membership op (.list items) i = .ok (n, next) ∧
      n.kind = .binary left op right ∧ n.diagnostics = [] ∧ ListEntry.IsList entries right := by
  obtain ⟨_, next, gives, right, rfl, list⟩ :=
    Site.sure_coerce_list { left := some left, operator := some op } h i
  have expected : expect .inElement (.list items) { left := some left, operator := some op } i =
      .ok (⟨.node right, []⟩, next) := Build.bind_run (gives [])
  have coerced : coerceNode .inElement (.list items) { left := some left, operator := some op } i =
      .ok ((right, []), next) := Build.bind_run expected
  exact ⟨_, right, _, Build.bind_run coerced, rfl, rfl, list⟩

/-- A list with anything else in it is refused as a whole. -/
theorem membership_list_eq_error (h : item ∈ items) (hn : item.listElement? = none) (i : Identity) :
    left.membership op (.list items) i =
      .error ((⟨.inElement, { left := some left, operator := some op }⟩ : Site).unexpected
        (.list items) none) := by
  have expected : expect .inElement (.list items) { left := some left, operator := some op } i =
      .error ((⟨.inElement, { left := some left, operator := some op }⟩ : Site).unexpected
        (.list items) none) :=
    Build.bind_run_error (Site.fails_coerce_list _ h hn i [])
  have coerced : coerceNode .inElement (.list items) { left := some left, operator := some op } i =
      .error ((⟨.inElement, { left := some left, operator := some op }⟩ : Site).unexpected
        (.list items) none) :=
    Build.bind_run_error expected
  exact Build.bind_run_error coerced

end Node

end SqlAlgebra
