import Mathlib.Data.List.Pairwise
import SqlAlgebra.Proofs.Cache.ParameterNames

/-!
# Conflicts between parameters of one name

The check of the names compares a parameter only with the first of its name, in the order in which a
survey met them.  That is enough for all pairs: values that compare as the same as a third one
compare as the same, and that a NaN is not the same as itself does not matter, since no parameter is
compared with itself.  A survey gives a parameter one slot however often it is met, so the check
fails exactly if two nodes of the tree are in conflict, in whichever order they are met.
-/

namespace SqlAlgebra

open Node

namespace Value

/-- Whether a value is a NaN or a list with a NaN in it. -/
inductive HasNaN : Value → Prop where
  | real {x : Double} : x.isNaN = true → HasNaN (.real x)
  | item {v : Value} {items : List Value} : v ∈ items → HasNaN v → HasNaN (.list items)

variable {v w : Value}

theorem sameItems_eq_false {vs ws : List Value} (hv : v ∈ vs)
    (h : ∀ w : Value, v.same w = false) : sameItems vs ws = false := by
  induction vs generalizing ws with
  | nil => cases hv
  | cons x xs ih =>
    cases ws with
    | nil => rfl
    | cons w ws =>
      rw [sameItems, Bool.and_eq_false_iff]
      obtain rfl | hv := List.mem_cons.1 hv
      · exact .inl (h w)
      · exact .inr (ih hv)

/-- A value with a NaN in it is not the same as any value, itself included. -/
theorem HasNaN.same_eq_false (h : v.HasNaN) (w : Value) : v.same w = false := by
  induction h generalizing w with
  | real nan => cases w <;> simp [same, Double.same, nan]
  | item mem _ ih =>
    cases w with
    | list ws =>
      rw [same]
      exact sameItems_eq_false mem ih
    | _ => rfl

end Value

/-- Whether two nodes are parameters that keep the same key, one of them expanding and the other
not, or with values that are not the same. -/
def Node.Clash (key : String) (a b : Node) : Prop :=
  ∃ p q, a.Keeps key p ∧ b.Keeps key q ∧
    (p.isExpanding ≠ q.isExpanding ∨ p.value.same q.value = false)

/-- Whether two nodes of a tree clash over a key. -/
def Node.HasClash (n : Node) (key : String) : Prop :=
  ∃ a b, Occurs a n ∧ Occurs b n ∧ a ≠ b ∧ Clash key a b

namespace Survey

variable {s : Survey} {root a b n x : Node} {ns ms : List Node} {key : String}
  {p q other : BindParam} {first : List (String × BindParam)}

/-! ## The check of a list of parameters -/

theorem agree_eq_false_iff :
    agree p q = false ↔ p.isExpanding ≠ q.isExpanding ∨ p.value.same q.value = false := by
  rw [agree, Bool.and_eq_false_iff, beq_eq_false_iff_ne]

theorem agree_symm (h : agree p q = true) : agree q p = true := by
  rw [agree, Bool.and_eq_true, beq_iff_eq] at h ⊢
  exact ⟨h.1.symm, Value.same_symm h.2⟩

theorem agree_trans {r : BindParam} (h : agree p q = true) (h' : agree q r = true) :
    agree p r = true := by
  rw [agree, Bool.and_eq_true, beq_iff_eq] at h h' ⊢
  exact ⟨h.1.trans h'.1, Value.same_trans h.2 h'.2⟩

theorem clash_iff (ha : a.Keeps key p) (hb : b.Keeps key q) :
    Clash key a b ↔ agree p q = false := by
  rw [agree_eq_false_iff]
  constructor
  · rintro ⟨p', q', ha', hb', differ⟩
    obtain ⟨-, rfl⟩ := keeps_unique ha ha'
    obtain ⟨-, rfl⟩ := keeps_unique hb hb'
    exact differ
  · exact fun differ => ⟨p, q, ha, hb, differ⟩

theorem clash_symm (h : Clash key a b) : Clash key b a := by
  obtain ⟨p, q, ha, hb, -⟩ := id h
  rw [clash_iff ha hb] at h
  rw [clash_iff hb ha, ← Bool.not_eq_true]
  exact fun agrees => Bool.false_ne_true (h.symm.trans (agree_symm agrees))

/-- What the check does with a parameter that keeps its key. -/
theorem checkNames_of_keeps (keeps : n.Keeps key p) :
    checkNames first (n :: ns) =
      match first.lookup key with
      | none => checkNames ((key, p) :: first) ns
      | some other =>
        if agree other p then checkNames first ns else .error (.conflictingBinds key) := by
  obtain ⟨param, hk, unique⟩ := keeps
  rw [checkNames_cons, param]
  dsimp only
  rw [hk]
  dsimp only
  rw [unique]
  exact if_neg Bool.false_ne_true

theorem checkNames_of_not_keeps (plain : ∀ key p, ¬ n.Keeps key p) :
    checkNames first (n :: ns) = checkNames first ns := by
  rw [checkNames_cons]
  cases param : n.param? with
  | none => rfl
  | some p =>
    dsimp only
    cases hk : p.key with
    | none => rfl
    | some key =>
      dsimp only
      cases unique : p.isUnique with
      | true => rfl
      | false => exact absurd ⟨param, hk, unique⟩ (plain key p)

/-- Whether a parameter agrees with the first of its name, if there is one. -/
def Follows (first : List (String × BindParam)) (n : Node) : Prop :=
  ∀ key p other, n.Keeps key p → first.lookup key = some other → agree other p = true

/-- Whether parameters are the first of their names after one more parameter: those from before are,
and nothing but the one more joined them. -/
structure Joins (first : List (String × BindParam)) (n : Node)
    (first' : List (String × BindParam)) : Prop where
  keeps : ∀ key other, first.lookup key = some other → first'.lookup key = some other
  knows : ∀ key p, n.Keeps key p →
    ∃ other, first'.lookup key = some other ∧ (other = p ∨ agree other p = true)
  from_either : ∀ key other, first'.lookup key = some other →
    first.lookup key = some other ∨ n.Keeps key other

/-- The check of one parameter fails over its key, or the check goes on. -/
theorem checkNames_step (first : List (String × BindParam)) (n : Node) :
    (∃ key p other, n.Keeps key p ∧ first.lookup key = some other ∧ agree other p = false ∧
        ∀ ns, checkNames first (n :: ns) = .error (.conflictingBinds key)) ∨
      (Follows first n ∧ ∃ first', Joins first n first' ∧
        ∀ ns, checkNames first (n :: ns) = checkNames first' ns) := by
  by_cases keeps : ∃ key p, n.Keeps key p
  · obtain ⟨key, p, keeps⟩ := keeps
    cases found : first.lookup key with
    | none =>
      refine .inr ⟨fun key' q other kept known => ?_, (key, p) :: first,
        ⟨fun key' other known => ?_, fun key' q kept => ?_, fun key' other known => ?_⟩,
        fun ns => ?_⟩
      · obtain ⟨rfl, -⟩ := keeps_unique keeps kept
        cases found.symm.trans known
      · have different : key' ≠ key := by
          rintro rfl
          cases found.symm.trans known
        rwa [List.lookup_cons, beq_eq_false_iff_ne.2 different]
      · obtain ⟨rfl, rfl⟩ := keeps_unique keeps kept
        exact ⟨p, List.lookup_cons_self, .inl rfl⟩
      · by_cases same : key' = key
        · subst same
          cases List.lookup_cons_self.symm.trans known
          exact .inr keeps
        · rw [List.lookup_cons, beq_eq_false_iff_ne.2 same] at known
          exact .inl known
      · rw [checkNames_of_keeps keeps, found]
    | some other =>
      cases agrees : agree other p with
      | false =>
        refine .inl ⟨key, p, other, keeps, found, agrees, fun ns => ?_⟩
        rw [checkNames_of_keeps keeps, found]
        exact if_neg (Bool.eq_false_iff.1 agrees)
      | true =>
        refine .inr ⟨fun key' q other' kept known => ?_, first,
          ⟨fun _ _ known => known, fun key' q kept => ?_, fun _ _ => .inl⟩, fun ns => ?_⟩
        · obtain ⟨rfl, rfl⟩ := keeps_unique keeps kept
          cases found.symm.trans known
          exact agrees
        · obtain ⟨rfl, rfl⟩ := keeps_unique keeps kept
          exact ⟨other, found, .inr agrees⟩
        · rw [checkNames_of_keeps keeps, found]
          exact if_pos agrees
  · have plain (key : String) (p : BindParam) (kept : n.Keeps key p) : False :=
      keeps ⟨key, p, kept⟩
    exact .inr ⟨fun key p _ kept => absurd kept (plain key p), first,
      ⟨fun _ _ known => known, fun key p kept => absurd kept (plain key p), fun _ _ => .inl⟩,
      fun ns => checkNames_of_not_keeps plain⟩

/-- A check of some more parameters succeeds if they agree with the first of their names and no two
of them clash.  Otherwise it fails over a key, and a parameter that keeps it does not agree with the
first of this name or with another one. -/
theorem checkNames_cases (first : List (String × BindParam)) (ns : List Node) :
    (checkNames first ns = .ok () ∧ (∀ x ∈ ns, Follows first x) ∧
        ns.Pairwise fun a b => ∀ key, ¬ Clash key a b) ∨
      ∃ key, checkNames first ns = .error (.conflictingBinds key) ∧
        ((∃ x ∈ ns, ∃ p other, x.Keeps key p ∧ first.lookup key = some other ∧
            agree other p = false) ∨
          ∃ a b, [a, b].Sublist ns ∧ Clash key a b) := by
  induction ns generalizing first with
  | nil => exact .inl ⟨rfl, nofun, .nil⟩
  | cons n ns ih =>
    obtain ⟨key, p, other, keeps, found, differ, fails⟩ | ⟨follows, first', joins, goes⟩ :=
      checkNames_step first n
    · exact .inr ⟨key, fails ns, .inl ⟨n, List.mem_cons_self, p, other, keeps, found, differ⟩⟩
    · rw [goes ns]
      obtain ⟨ok, later, apart⟩ | ⟨key, fails, ⟨x, hx, p, other, keeps, found, differ⟩ |
        ⟨a, b, within, clash⟩⟩ := ih first'
      · refine .inl ⟨ok, List.forall_mem_cons.2 ⟨follows, fun x hx key p other keeps found =>
          later x hx key p other keeps (joins.keeps key other found)⟩,
          List.pairwise_cons.2 ⟨fun x hx key clash => ?_, apart⟩⟩
        -- both agree with the first of the name, hence with each other
        obtain ⟨p, q, keeps, keeps', -⟩ := id clash
        obtain ⟨other, found, agrees⟩ := joins.knows key p keeps
        have agrees' := later x hx key q other keeps' found
        rw [clash_iff keeps keeps', ← Bool.not_eq_true] at clash
        obtain rfl | agrees := agrees
        · exact clash agrees'
        · exact clash (agree_trans (agree_symm agrees) agrees')
      · refine .inr ⟨key, fails, ?_⟩
        obtain found | kept := joins.from_either key other found
        · exact .inl ⟨x, List.mem_cons_of_mem _ hx, p, other, keeps, found, differ⟩
        · exact .inr ⟨n, x, List.cons_sublist_cons.2 (List.singleton_sublist.2 hx),
            (clash_iff kept keeps).2 differ⟩
      · exact .inr ⟨key, fails, .inr ⟨a, b, within.cons n, clash⟩⟩

/-- A check of different nodes fails exactly if two of them clash, over a key that two of them clash
over. -/
theorem checkNames_eq_error (nodup : ns.Nodup) :
    ((∃ fault, checkNames [] ns = .error fault) ↔
        ∃ key a b, a ∈ ns ∧ b ∈ ns ∧ a ≠ b ∧ Clash key a b) ∧
      ∀ fault, checkNames [] ns = .error fault → ∃ key, fault = .conflictingBinds key ∧
        ∃ a b, a ∈ ns ∧ b ∈ ns ∧ a ≠ b ∧ Clash key a b := by
  obtain ⟨ok, -, apart⟩ | ⟨key, fails, ⟨x, hx, p, other, keeps, found, differ⟩ |
    ⟨a, b, within, clash⟩⟩ := checkNames_cases [] ns
  · rw [ok]
    refine ⟨⟨nofun, fun ⟨key, a, b, ha, hb, different, clash⟩ => ?_⟩, nofun⟩
    have : Std.Symm fun a b => ∀ key, ¬ Clash key a b :=
      ⟨fun _ _ h key clash => h key (clash_symm clash)⟩
    exact absurd clash (apart.forall ha hb different key)
  · cases found
  · have pair : a ∈ ns ∧ b ∈ ns ∧ a ≠ b := by
      refine ⟨within.subset List.mem_cons_self,
        within.subset (List.mem_cons_of_mem _ List.mem_cons_self), ?_⟩
      simpa using within.nodup nodup
    refine ⟨⟨fun _ => ⟨key, a, b, pair.1, pair.2.1, pair.2.2, clash⟩, fun _ => ⟨_, fails⟩⟩,
      fun fault failed => ?_⟩
    cases fails.symm.trans failed
    exact ⟨key, rfl, a, b, pair.1, pair.2.1, pair.2.2, clash⟩

/-! ## The parameters of a tree -/

/-- A node has no slot but its own. -/
theorem eq_of_slot_mem_marks (h : .slot x ∈ n.marks) : x = n := by
  obtain ⟨p, hp⟩ := exists_bind_of_slot_mem_marks h
  rw [marks, hp] at h
  cases hk : p.key <;> simpa [hk, Mark.identifier?] using h

/-- Whether the parameters of a survey are nodes of a tree. -/
def Inside (root : Node) (s : Survey) : Prop := ∀ x ∈ s.binds, Occurs x root

theorem Inside.visit (h : s.Inside root) (n : Node) : (s.visit n).Inside root := by
  rwa [Inside, visit_binds]

theorem Inside.survey (h : s.Inside root) (hn : Occurs n root) : (survey s n).Inside root := by
  refine keeps_over (fun _ _ h => h) (fun s n _ _ h => Inside.visit ?_ n) (fun s n hn h below => ?_)
    hn h
  · split <;> exact h
  · refine keeps_takeAll (fun mark hm s hs => ?_) h
    cases mark with
    | child c => exact below c hm s hs
    | slot c =>
      obtain rfl := eq_of_slot_mem_marks hm
      intro x hx
      obtain hx | rfl := mem_binds_slotted hx
      · exact hs x hx
      · exact hn
    | _ => exact hs

end Survey

namespace Node

variable {n a b : Node} {key : String} {bound : Nat}

/-- A survey of a coherent tree has the bound parameters of the tree and no others. -/
theorem mem_binds_iff (coherent : n.IsCoherent) (bound : Nat) {p : BindParam}
    (kind : a.kind = .bind p) : a ∈ (n.surveyed bound).binds ↔ Occurs a n := by
  have inside : (n.surveyed bound).Inside n := Survey.Inside.survey nofun .root
  constructor
  · exact inside a
  · intro ha
    obtain ⟨slot, hs⟩ : ∃ slot, (n.surveyed bound).slot? a = some slot :=
      exists_slot coherent ha kind
    obtain ⟨b, hb, same⟩ := List.mem_map.1 (List.mem_of_getElem? (Survey.slot?_eq_some hs))
    rwa [← coherent b a (inside b hb) ha same]

theorem Keeps.kind_eq {p : BindParam} (h : a.Keeps key p) : a.kind = .bind p := by
  rcases a with ⟨i, kind, type, annotations, diagnostics⟩
  cases kind with
  | bind q =>
    cases h.1
    rfl
  | _ => cases h.1

theorem nodup_binds (n : Node) (bound : Nat) : (n.surveyed bound).binds.Nodup :=
  ((Survey.tidy_start bound).survey n).binds.of_map

/-- The clashes of a tree are those among the parameters of a survey. -/
theorem hasClash_iff (coherent : n.IsCoherent) (bound : Nat) :
    n.HasClash key ↔ ∃ a b, a ∈ (n.surveyed bound).binds ∧ b ∈ (n.surveyed bound).binds ∧ a ≠ b ∧
      Clash key a b := by
  have listed {a : Node} {p : BindParam} (h : a.Keeps key p) :
      a ∈ (n.surveyed bound).binds ↔ Occurs a n := mem_binds_iff coherent bound h.kind_eq
  constructor
  · rintro ⟨a, b, ha, hb, different, p, q, keeps, keeps', differ⟩
    exact ⟨a, b, (listed keeps).2 ha, (listed keeps').2 hb, different, p, q, keeps, keeps', differ⟩
  · rintro ⟨a, b, ha, hb, different, p, q, keeps, keeps', differ⟩
    exact ⟨a, b, (listed keeps).1 ha, (listed keeps').1 hb, different, p, q, keeps, keeps', differ⟩

/-- The check of the names fails exactly if two nodes of the tree clash, and over a key that two of
them clash over; whether it fails does not depend on the order in which the parameters are met.
Parameters of one key clash if the value of one of them has a NaN in it. -/
theorem checkBindNames_exact (coherent : n.IsCoherent) (bound : Nat) :
    ((∃ fault, (n.surveyed bound).checkBindNames = .error fault) ↔ ∃ key, n.HasClash key) ∧
      (∀ order : List Node, order.Perm (n.surveyed bound).binds →
        ((∃ fault, Survey.checkNames [] order = .error fault) ↔ ∃ key, n.HasClash key) ∧
          ∀ fault, Survey.checkNames [] order = .error fault →
            ∃ key, fault = .conflictingBinds key ∧ n.HasClash key) ∧
      ∀ a b key p q, Occurs a n → Occurs b n → a ≠ b → a.Keeps key p → b.Keeps key q →
        p.value.HasNaN → n.HasClash key := by
  have each (order : List Node) (perm : order.Perm (n.surveyed bound).binds) :
      ((∃ fault, Survey.checkNames [] order = .error fault) ↔ ∃ key, n.HasClash key) ∧
        ∀ fault, Survey.checkNames [] order = .error fault →
          ∃ key, fault = .conflictingBinds key ∧ n.HasClash key := by
    simpa only [hasClash_iff coherent bound, perm.mem_iff] using
      Survey.checkNames_eq_error (perm.nodup_iff.2 (nodup_binds n bound))
  exact ⟨(each _ (.refl _)).1, each, fun a b key p q ha hb different keeps keeps' nan =>
    ⟨a, b, ha, hb, different, p, q, keeps, keeps', .inr (nan.same_eq_false q.value)⟩⟩

section Sample

variable (v w : Value)

def sampleX (i : Identity) : Node := ⟨i, .bind ⟨some "x", v, false, false, false⟩, .integer, [], []⟩

/-- Two parameters that keep the name `x`. -/
def sampleTwoX : Node := ⟨2, .clauseList .and [sampleX v 0, sampleX w 1], .boolean, [], []⟩

def sampleTwoXParts : List Node := [sampleX v 0, sampleX w 1, sampleTwoX v w]

theorem mem_sampleTwoXParts_of_child :
    ∀ x ∈ sampleTwoXParts v w, ∀ c ∈ x.children, c ∈ sampleTwoXParts v w := by
  simp [sampleTwoXParts, children, Kind.children, sampleX, sampleTwoX]

theorem isCoherent_sampleTwoX : (sampleTwoX v w).IsCoherent :=
  isCoherent_of_list (sampleTwoXParts v w) (by simp [sampleTwoXParts])
    (mem_sampleTwoXParts_of_child v w) (by simp [sampleTwoXParts, sampleX, sampleTwoX])

/-- The parameters of the list have the key `x` and one of its values. -/
theorem value_of_keeps_sampleTwoX {p : BindParam} (ha : Occurs a (sampleTwoX v w))
    (keeps : a.Keeps key p) : p.isExpanding = false ∧ (p.value = v ∨ p.value = w) := by
  have mem : a ∈ sampleTwoXParts v w :=
    mem_of_occurs (by simp [sampleTwoXParts]) (mem_sampleTwoXParts_of_child v w) ha
  simp only [sampleTwoXParts, List.mem_cons, List.not_mem_nil, or_false] at mem
  obtain rfl | rfl | rfl := mem
  · cases keeps.1
    exact ⟨rfl, .inl rfl⟩
  · cases keeps.1
    exact ⟨rfl, .inr rfl⟩
  · cases keeps.1

/-- Two parameters that keep one name clash if both are the same NaN or if they are different
integers, in either order; they do not clash if they are equal integers. -/
theorem hasClash_sampleTwoX :
    (let nan : Value := .real ⟨0x7ff8000000000000⟩
      ∃ fault, ((sampleTwoX nan nan).surveyed 10).checkBindNames = .error fault) ∧
      (∃ fault, Survey.checkNames [] ((sampleTwoX (.integer 1) (.integer 2)).surveyed
        10).binds.reverse = .error fault) ∧
      ¬ ∃ fault, ((sampleTwoX (.integer 1) (.integer 1)).surveyed 10).checkBindNames =
        .error fault := by
  have inside (v w : Value) : Occurs (sampleX v 0) (sampleTwoX v w) ∧
      Occurs (sampleX w 1) (sampleTwoX v w) ∧ sampleX v 0 ≠ sampleX w 1 :=
    ⟨.deeper List.mem_cons_self .root, .deeper (List.mem_cons_of_mem _ List.mem_cons_self) .root,
      fun same => Nat.zero_ne_one (congrArg id same)⟩
  refine ⟨?_, ?_, ?_⟩
  · obtain ⟨check, -, clash⟩ := checkBindNames_exact (isCoherent_sampleTwoX
      (.real ⟨0x7ff8000000000000⟩) (.real ⟨0x7ff8000000000000⟩)) 10
    obtain ⟨ha, hb, different⟩ := inside (.real ⟨0x7ff8000000000000⟩) (.real ⟨0x7ff8000000000000⟩)
    exact check.2 ⟨"x", clash _ _ "x" _ _ ha hb different ⟨rfl, rfl, rfl⟩ ⟨rfl, rfl, rfl⟩
      (.real (by decide))⟩
  · obtain ⟨-, orders, -⟩ := checkBindNames_exact
      (isCoherent_sampleTwoX (.integer 1) (.integer 2)) 10
    obtain ⟨ha, hb, different⟩ := inside (.integer 1) (.integer 2)
    exact (orders _ (List.reverse_perm _)).1.2 ⟨"x", _, _, ha, hb, different, _, _,
      ⟨rfl, rfl, rfl⟩, ⟨rfl, rfl, rfl⟩, .inr (by decide)⟩
  · rw [(checkBindNames_exact (isCoherent_sampleTwoX (.integer 1) (.integer 1)) 10).1]
    rintro ⟨key, a, b, ha, hb, -, p, q, keeps, keeps', differ⟩
    obtain ⟨plain, value⟩ := value_of_keeps_sampleTwoX _ _ ha keeps
    obtain ⟨plain', value'⟩ := value_of_keeps_sampleTwoX _ _ hb keeps'
    rw [plain, plain', or_self_iff.1 value, or_self_iff.1 value'] at differ
    obtain differ | differ := differ
    · exact differ rfl
    · exact absurd differ (by decide)

end Sample

end Node

end SqlAlgebra
