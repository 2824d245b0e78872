import SqlAlgebra.Input

/-!
# Values that are given back as inputs

An input has no JSON of its own: what a JSON value becomes is a plain value of its kind, and only an
object is JSON again when a parameter is made of it.  Its integers are those of 64 bits with a sign,
so a larger one comes back as the nearest real.
-/

namespace SqlAlgebra

theorem toInt_of_int64? {n : Int} {i : Int64} (h : int64? n = some i) : i.toInt = n := by
  unfold int64? at h
  split at h
  · next bounds =>
    rw [← Option.some.inj h]
    exact Int64.toInt_ofInt_of_le bounds.1 (Int.lt_of_le_of_lt bounds.2 (by decide))
  · cases h

/-- An integer of 64 bits without a sign is near to a finite number. -/
theorem Double.isFinite_ofInt {n : Int} (low : Int64.maxValue.toInt < n) (high : n < UInt64.size) :
    (Double.ofInt n).isFinite = true := by
  have max : Int64.maxValue.toInt = 2 ^ 63 - 1 := by decide
  have size : (UInt64.size : Int) = 2 ^ 64 := by decide
  obtain ⟨m, rfl⟩ : ∃ m : Nat, n = m := ⟨n.toNat, by omega⟩
  have log : m.log2 = 63 := by
    rw [Nat.log2_eq_iff (by omega)]
    omega
  have exponent : binaryExponent m 1 = 63 := by
    have reached : 1 * Nat.pow 2 63 ≤ m := by
      rw [Nat.pow_eq]
      omega
    simp [binaryExponent, log, reached, show Nat.log2 1 = 0 from rfl]
  have significand : roundHalfEven m (1 * Nat.pow 2 11) ≤ Nat.pow 2 53 := by
    have quotient : m / (1 * Nat.pow 2 11) < Nat.pow 2 53 := by
      rw [Nat.div_lt_iff_lt_mul (by decide)]
      simp only [Nat.pow_eq]
      omega
    unfold roundHalfEven
    dsimp only
    split <;> omega
  have pattern : BinaryFormat.binary64.pattern m 1 ≤ 1085 * Nat.pow 2 52 + Nat.pow 2 53 := by
    have nonzero : m ≠ 0 := by omega
    rw [BinaryFormat.pattern, if_neg nonzero, exponent]
    exact Nat.le_trans (Nat.min_le_right _ _) (Nat.add_le_add_left significand _)
  have sign : decide ((m : Int) < 0) = false := by
    rw [decide_eq_false_iff_not]
    omega
  rw [Double.ofInt, Double.ofRatio, sign, Int.natAbs_natCast]
  generalize BinaryFormat.binary64.pattern m 1 = p at pattern
  simp only [Double.isFinite, Double.pattern, Double.ofPattern, BinaryFormat.binary64, Nat.pow_eq,
    decide_eq_true_eq, UInt64.toNat_ofNat', Bool.false_eq_true, if_false] at pattern ⊢
  omega

namespace JsonNumber

/-- Whether a number is one of JSON: an integer that 64 bits hold, with or without a sign, or a
finite real. -/
def IsProper : JsonNumber → Prop
  | .integer n => Int64.minValue.toInt ≤ n ∧ n < UInt64.size
  | .real x => x.isFinite = true

/-- The number with an integer that 64 bits with a sign do not hold made the nearest real. -/
def settled : JsonNumber → JsonNumber
  | .integer n => if (int64? n).isSome then .integer n else .real (.ofInt n)
  | .real x => .real x

variable {n : JsonNumber}

theorem isFinite_of_isProper {n : Int} (h : IsProper (.integer n)) (large : int64? n = none) :
    (Double.ofInt n).isFinite = true := by
  obtain ⟨least, bound⟩ := h
  have high : ¬ n ≤ Int64.maxValue.toInt := by
    intro fits
    rw [int64?, if_pos ⟨least, fits⟩] at large
    cases large
  exact Double.isFinite_ofInt (Int.not_le.1 high) bound

theorem toJson?_ofNumber (h : n.IsProper) :
    (Input.ofNumber n).toJson? = some (.number n.settled) := by
  cases n with
  | real x =>
    have finite : x.isFinite = true := h
    show some (if x.isFinite then _ else _) = _
    rw [if_pos finite, settled]
  | integer n =>
    rw [Input.ofNumber, settled]
    cases fits : int64? n with
    | some i =>
      show some (Json.number (.integer i.toInt)) = _
      rw [toInt_of_int64? fits]
      rfl
    | none =>
      show some (if (Double.ofInt n).isFinite then _ else _) = _
      rw [if_pos (isFinite_of_isProper h fits)]
      rfl

end JsonNumber

namespace Json

/-! ## JSON values -/

mutual

/-- Whether the numbers of a value are proper ones, and the members of its objects stand in the order
of their keys, each key once. -/
def IsProper : Json → Prop
  | .null | .boolean _ | .string _ => True
  | .number n => n.IsProper
  | .array items => ItemsProper items
  | .object members => (members.map Prod.fst).Pairwise (· < ·) ∧ MembersProper members

def ItemsProper : List Json → Prop
  | [] => True
  | item :: rest => item.IsProper ∧ ItemsProper rest

def MembersProper : List (String × Json) → Prop
  | [] => True
  | (_, value) :: rest => value.IsProper ∧ MembersProper rest

end

mutual

/-- The value with each of its numbers settled. -/
def settled : Json → Json
  | .number n => .number n.settled
  | .array items => .array (settledItems items)
  | .object members => .object (settledMembers members)
  | .null => .null
  | .boolean b => .boolean b
  | .string s => .string s

def settledItems : List Json → List Json
  | [] => []
  | item :: rest => item.settled :: settledItems rest

def settledMembers : List (String × Json) → List (String × Json)
  | [] => []
  | (key, value) :: rest => (key, value.settled) :: settledMembers rest

end

mutual

/-- The integers in a value. -/
def integers : Json → List Int
  | .number (.integer n) => [n]
  | .array items => itemIntegers items
  | .object members => memberIntegers members
  | .number (.real _) | .null | .boolean _ | .string _ => []

def itemIntegers : List Json → List Int
  | [] => []
  | item :: rest => item.integers ++ itemIntegers rest

def memberIntegers : List (String × Json) → List Int
  | [] => []
  | (_, value) :: rest => value.integers ++ memberIntegers rest

end

def isObject : Json → Bool
  | .object _ => true
  | _ => false

variable {v : Json} {items : List Json} {members : List (String × Json)}

theorem settledMembers_keys (members : List (String × Json)) :
    (settledMembers members).map Prod.fst = members.map Prod.fst := by
  induction members with
  | nil => rfl
  | cons member rest ih => rw [settledMembers, List.map_cons, List.map_cons, ih]

/-- A key after all others is put at the end. -/
theorem insertMember_of_lt {α : Type} {key : String} {value : α} {sorted : List (String × α)}
    (h : ∀ member ∈ sorted, member.1 < key) :
    insertMember key value sorted = sorted ++ [(key, value)] := by
  induction sorted with
  | nil => rfl
  | cons member rest ih =>
    have before : member.1 < key := h member List.mem_cons_self
    have asymm : ¬ key < member.1 := fun after => String.lt_asymm before after
    have other : key ≠ member.1 := fun same => String.lt_irrefl _ (same ▸ before)
    rw [insertMember, if_neg asymm, if_neg other,
      ih fun m hm => h m (List.mem_cons_of_mem _ hm), List.cons_append]

/-- Members that stand in the order of their keys are left as they are. -/
theorem sortMembers_of_pairwise {α : Type} {members : List (String × α)}
    (h : (members.map Prod.fst).Pairwise (· < ·)) : sortMembers members = members := by
  suffices ∀ sorted : List (String × α), ((sorted ++ members).map Prod.fst).Pairwise (· < ·) →
      members.foldl (fun sorted member => insertMember member.1 member.2 sorted) sorted =
        sorted ++ members from this [] h
  clear h
  induction members with
  | nil =>
    intro sorted _
    rw [List.foldl_nil, List.append_nil]
  | cons member rest ih =>
    intro sorted h
    have last : ∀ m ∈ sorted, m.1 < member.1 := by
      rw [List.map_append, List.pairwise_append] at h
      exact fun m hm => h.2.2 m.1 (List.mem_map_of_mem hm) member.1 List.mem_cons_self
    have regroup : sorted ++ member :: rest = sorted ++ [(member.1, member.2)] ++ rest := by
      rw [List.append_assoc, List.singleton_append]
    rw [List.foldl_cons, insertMember_of_lt last, ih _ (regroup ▸ h), regroup]

mutual

/-- A JSON value comes back as JSON with its numbers settled. -/
theorem toJson?_ofJson : ∀ {v : Json}, v.IsProper → (Input.ofJson v).toJson? = some v.settled
  | .null, _ => rfl
  | .boolean _, _ => rfl
  | .string _, _ => rfl
  | .number _, h => JsonNumber.toJson?_ofNumber h
  | .array items, h => by
    rw [Input.ofJson, Input.toJson?, itemsToJson?_ofItems h]
    rfl
  | .object members, h => by
    have sorted := h.1
    rw [← settledMembers_keys] at sorted
    rw [Input.ofJson, Input.toJson?, entriesToJson?_ofMembers h.2, Option.map_some, ofMembers,
      sortMembers_of_pairwise sorted]
    rfl

theorem itemsToJson?_ofItems : ∀ {items : List Json}, ItemsProper items →
    Input.itemsToJson? (Input.ofItems items) = some (settledItems items)
  | [], _ => rfl
  | _ :: _, h => by
    rw [Input.ofItems, Input.itemsToJson?, toJson?_ofJson h.1, itemsToJson?_ofItems h.2]
    rfl

theorem entriesToJson?_ofMembers : ∀ {members : List (String × Json)}, MembersProper members →
    Input.entriesToJson? (Input.ofMembers members) = some (settledMembers members)
  | [], _ => rfl
  | (_, _) :: _, h => by
    rw [Input.ofMembers, Input.entriesToJson?, toJson?_ofJson h.1, entriesToJson?_ofMembers h.2]
    rfl

end

mutual

theorem settled_eq_iff : ∀ {v : Json},
    v.settled = v ↔ ∀ n ∈ v.integers, (int64? n).isSome = true
  | .null | .boolean _ | .string _ => by simp [settled, integers]
  | .number n => by
    cases n with
    | real x => simp [settled, integers, JsonNumber.settled]
    | integer n =>
      rw [settled, JsonNumber.settled]
      by_cases fits : (int64? n).isSome = true <;> simp [integers, fits]
  | .array items => by
    rw [settled, integers, Json.array.injEq]
    exact settledItems_eq_iff
  | .object members => by
    rw [settled, integers, Json.object.injEq]
    exact settledMembers_eq_iff

theorem settledItems_eq_iff : ∀ {items : List Json},
    settledItems items = items ↔ ∀ n ∈ itemIntegers items, (int64? n).isSome = true
  | [] => by simp [settledItems, itemIntegers]
  | item :: rest => by
    rw [settledItems, itemIntegers, List.cons.injEq, settled_eq_iff, settledItems_eq_iff,
      List.forall_mem_append]

theorem settledMembers_eq_iff : ∀ {members : List (String × Json)},
    settledMembers members = members ↔ ∀ n ∈ memberIntegers members, (int64? n).isSome = true
  | [] => by simp [settledMembers, memberIntegers]
  | (key, value) :: rest => by
    rw [settledMembers, memberIntegers, List.cons.injEq, Prod.mk.injEq, settled_eq_iff,
      settledMembers_eq_iff, List.forall_mem_append]
    simp

end

mutual

/-- The value of a parameter that a JSON value comes back as: the plain value of its kind, and JSON
only if it is an object. -/
def received : Json → Value
  | .null => .null
  | .boolean b => .boolean b
  | .number (.integer n) => (int64? n).elim (.real (.ofInt n)) .integer
  | .number (.real x) => .real x
  | .string s => .text s
  | .array items => .list (receivedItems items)
  | .object members => .json (settled (.object members))

def receivedItems : List Json → List Value
  | [] => []
  | item :: rest => item.received :: receivedItems rest

end

mutual

theorem toValue?_ofJson : ∀ {v : Json}, v.IsProper → (Input.ofJson v).toValue? = some v.received
  | .null, _ => rfl
  | .boolean _, _ => rfl
  | .string _, _ => rfl
  | .number (.real _), _ => rfl
  | .number (.integer n), _ => by
    rw [Input.ofJson, Input.ofNumber, received]
    cases int64? n <;> rfl
  | .array items, h => by
    rw [Input.ofJson, Input.toValue?, itemsToValue?_ofItems h]
    rfl
  | .object members, h => by
    have json : Input.toJson? (.mapping (Input.ofMembers members)) = some (settled (.object members)) :=
      toJson?_ofJson h
    rw [Input.ofJson, Input.toValue?, json]
    rfl

theorem itemsToValue?_ofItems : ∀ {items : List Json}, ItemsProper items →
    Input.itemsToValue? (Input.ofItems items) = some (receivedItems items)
  | [], _ => rfl
  | _ :: _, h => by
    rw [Input.ofItems, Input.itemsToValue?, toValue?_ofJson h.1, itemsToValue?_ofItems h.2]
    rfl

end

/-- A JSON value comes back as itself if it is an object and its integers are those of inputs. -/
theorem received_eq_json_iff : v.received = .json v ↔
    v.isObject = true ∧ ∀ n ∈ v.integers, (int64? n).isSome = true := by
  cases v with
  | object members => rw [received, Value.json.injEq, settled_eq_iff, isObject, eq_self, true_and]
  | number n =>
    cases n with
    | real x => simp [received, isObject]
    | integer n =>
      rw [received]
      cases int64? n <;> simp [isObject]
  | null => simp [received, isObject]
  | boolean b => simp [received, isObject]
  | string s => simp [received, isObject]
  | array items => simp [received, isObject]

end Json

namespace Value

/-! ## Values of parameters -/

mutual

/-- The JSON values in a value. -/
def jsons : Value → List Json
  | .json v => [v]
  | .list items => itemJsons items
  | .null | .boolean _ | .integer _ | .real _ | .text _ | .timestamp _ | .uuid _ => []

def itemJsons : List Value → List Json
  | [] => []
  | item :: rest => item.jsons ++ itemJsons rest

end

mutual

/-- The value of a parameter that a value comes back as. -/
def received : Value → Value
  | .json v => v.received
  | .list items => .list (receivedItems items)
  | .null => .null
  | .boolean b => .boolean b
  | .integer n => .integer n
  | .real x => .real x
  | .text s => .text s
  | .timestamp t => .timestamp t
  | .uuid u => .uuid u

def receivedItems : List Value → List Value
  | [] => []
  | item :: rest => item.received :: receivedItems rest

end

mutual

/-- Every value is one that an input can stand for, and it comes back as the value `received`. -/
theorem toValue?_ofValue : ∀ {b : Value}, (∀ v ∈ b.jsons, v.IsProper) →
    (Input.ofValue b).toValue? = some b.received
  | .null, _ => rfl
  | .boolean _, _ => rfl
  | .integer _, _ => rfl
  | .real _, _ => rfl
  | .text _, _ => rfl
  | .timestamp _, _ => rfl
  | .uuid _, _ => rfl
  | .json _, h => Json.toValue?_ofJson (h _ List.mem_cons_self)
  | .list items, h => by
    rw [Input.ofValue, Input.toValue?, itemsToValue?_ofValues h]
    rfl

theorem itemsToValue?_ofValues : ∀ {items : List Value}, (∀ v ∈ itemJsons items, v.IsProper) →
    Input.itemsToValue? (Input.ofValues items) = some (receivedItems items)
  | [], _ => rfl
  | item :: rest, h => by
    rw [itemJsons, List.forall_mem_append] at h
    rw [Input.ofValues, Input.itemsToValue?, toValue?_ofValue h.1, itemsToValue?_ofValues h.2]
    rfl

end

/-- Whether a JSON value is the same after it was an input. -/
def IsKept (v : Json) : Prop := v.isObject = true ∧ ∀ n ∈ v.integers, (int64? n).isSome = true

mutual

theorem received_eq_iff : ∀ {b : Value}, b.received = b ↔ ∀ v ∈ b.jsons, IsKept v
  | .null | .boolean _ | .integer _ | .real _ | .text _ | .timestamp _ | .uuid _ => by
    simp [received, jsons]
  | .json v => by
    rw [received, Json.received_eq_json_iff, jsons, List.forall_mem_singleton, IsKept]
  | .list items => by
    rw [received, jsons, Value.list.injEq]
    exact receivedItems_eq_iff

theorem receivedItems_eq_iff : ∀ {items : List Value},
    receivedItems items = items ↔ ∀ v ∈ itemJsons items, IsKept v
  | [] => by simp [receivedItems, itemJsons]
  | item :: rest => by
    rw [receivedItems, itemJsons, List.cons.injEq, received_eq_iff, receivedItems_eq_iff,
      List.forall_mem_append]

end

/-- A value that comes back as none at all was no value to begin with. -/
theorem ofValue_of_isNull {b : Value} (h : b.received.isNull = true) :
    Input.ofValue b = .nothing := by
  cases b with
  | null => rfl
  | json v =>
    cases v with
    | null => rfl
    | number n =>
      cases n with
      | real x => cases h
      | integer n =>
        rw [received, Json.received] at h
        cases fits : int64? n <;> rw [fits] at h <;> cases h
    | _ => cases h
  | _ => cases h

end Value

end SqlAlgebra
