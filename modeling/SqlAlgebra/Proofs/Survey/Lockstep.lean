import Mathlib.Data.List.Nodup
import SqlAlgebra.Proofs.Survey.Reading

/-!
# Surveys that write the same key

Two trees are surveyed side by side, and both surveys write the same key.  Then they take down the
same marks, and the nodes that they number get the same numbers.  What a survey leaves out, because
it met the element before, was read when the element was met first.
-/

namespace SqlAlgebra

open List (Forall₂)
open Node

namespace Survey

variable {s t s' t' s'' t'' : Survey} {a b m n : Node} {key : Key} {e e' : KeyElement}

/-! ## What was written -/

/-- The elements that were written so far. -/
def written (s : Survey) : Key := s.buffer.reversed.reverse

/-- Whether a survey had room so far and a key begins with what it wrote. -/
def Within (key : Key) (s : Survey) : Prop := s.buffer.overflown = false ∧ s.written <+: key

theorem within_push (h : Within key (s.push e)) :
    Within key s ∧ (s.push e).written = s.written ++ [e] := by
  unfold Within written push KeyBuffer.push at h ⊢
  by_cases overflown : s.buffer.overflown
  · simp [overflown] at h
  · by_cases full : s.buffer.length = s.buffer.bound
    · simp [overflown, full] at h
    · simp only [overflown, full, if_false, Bool.false_eq_true] at h ⊢
      rw [List.reverse_cons] at h
      exact ⟨⟨trivial, (List.prefix_append _ _).trans h.2⟩, by simp⟩

/-- After the same beginning, the next elements of one key are equal. -/
theorem eq_of_within_push (h : s.written = t.written) (hs : Within key (s.push e))
    (ht : Within key (t.push e')) : e = e' := by
  have hs' := hs.2
  have ht' := ht.2
  rw [(within_push hs).2] at hs'
  rw [(within_push ht).2, ← h] at ht'
  have length : (s.written ++ [e]).length = (s.written ++ [e']).length := by simp
  have same := (List.prefix_of_prefix_length_le hs' ht' (Nat.le_of_eq length)).eq_of_length length
  simpa using same

@[simp] theorem visit_buffer (s : Survey) (n : Node) : (s.visit n).buffer = s.buffer := by
  unfold visit
  split <;> rfl

@[simp] theorem visit_written (s : Survey) (n : Node) : (s.visit n).written = s.written := by
  rw [written, visit_buffer, written]

@[simp] theorem visit_defined (s : Survey) (n : Node) : (s.visit n).defined = s.defined := by
  unfold visit
  split <;> rfl

@[simp] theorem visit_anonymous (s : Survey) (n : Node) :
    (s.visit n).anonymous = s.anonymous := by
  unfold visit
  split <;> rfl

@[simp] theorem visit_binds (s : Survey) (n : Node) : (s.visit n).binds = s.binds := by
  unfold visit
  split <;> rfl

theorem take_buffer {mark : Mark} (h : ∀ n, mark ≠ .child n) :
    ∃ e, mark.Starts e ∧ (s.take mark).buffer = s.buffer.push e := by
  cases mark with
  | put e => exact ⟨e, .put e, rfl⟩
  | name ident => exact ⟨_, .name ident, rfl⟩
  | anonymous => exact ⟨_, .anonymous _, rfl⟩
  | slot n =>
    rw [take, slotted]
    split
    · exact ⟨_, .slot n _, rfl⟩
    · exact ⟨_, .slot n _, rfl⟩
  | child n => exact absurd rfl (h n)

theorem within_of_take {mark : Mark} (h : ∀ n, mark ≠ .child n)
    (hs : Within key (s.take mark)) : Within key s := by
  obtain ⟨e, -, he⟩ := take_buffer (s := s) h
  unfold Within written at hs
  rw [he] at hs
  exact (within_push (e := e) hs).1

theorem within_of_survey (h : Within key (survey s n)) : Within key s :=
  keeps (P := fun x => Within key x → Within key s)
    (fun _ _ hm ih h => ih (within_of_take hm h))
    (fun x m _ ih h => ih (within_push (s := x) (e := .definition x.defined.length) h).1)
    (fun x m ih h => ih (by rwa [Within, written, visit_buffer] at h)) id n h

theorem within_of_takeAll {marks : List Mark} (h : Within key (s.takeAll marks)) :
    Within key s := by
  refine keeps_takeAll (P := fun x => Within key x → Within key s) (fun mark _ x ih h => ih ?_) id h
  cases mark with
  | child n => exact within_of_survey h
  | _ => exact within_of_take (by simp) h

/-! ## The numbers of nodes -/

/-- No node has two numbers. -/
structure Tidy (s : Survey) : Prop where
  defined : s.defined.Nodup
  binds : (s.binds.map Node.id).Nodup

theorem ordinal?_eq_none (h : s.ordinal? n = none) : n.id ∉ s.defined := by
  intro hn
  simp only [ordinal?, Option.map_eq_none_iff, List.findIdx?_eq_none_iff] at h
  simpa using h _ hn

theorem ordinal?_eq_some {i : Nat} (h : s.ordinal? n = some i) :
    ∃ j, s.defined[j]? = some n.id ∧ i = s.defined.length - 1 - j := by
  simp only [ordinal?, Option.map_eq_some_iff] at h
  obtain ⟨j, hj, rfl⟩ := h
  obtain ⟨lt, hj, -⟩ := List.findIdx?_eq_some_iff_getElem.1 hj
  exact ⟨j, by rw [List.getElem?_eq_getElem lt, beq_iff_eq.1 hj], rfl⟩

theorem slot?_eq_none (h : s.slot? n = none) : n.id ∉ s.binds.map Node.id := by
  intro hn
  obtain ⟨p, hp, hn⟩ := List.mem_map.1 hn
  simp only [slot?, List.findIdx?_eq_none_iff, isSame] at h
  simpa [hn] using h p hp

theorem slot?_eq_some {i : Nat} (h : s.slot? n = some i) :
    (s.binds.map Node.id)[i]? = some n.id := by
  obtain ⟨lt, hi, -⟩ := List.findIdx?_eq_some_iff_getElem.1 h
  rw [List.getElem?_map, List.getElem?_eq_getElem lt, Option.map_some, beq_iff_eq.1 hi]

theorem tidy_start (bound : Nat) : (start bound).Tidy := ⟨.nil, .nil⟩

theorem Tidy.define (h : s.Tidy) (hn : s.ordinal? n = none) : (s.define n).Tidy :=
  ⟨List.nodup_cons.2 ⟨ordinal?_eq_none hn, h.defined⟩, h.binds⟩

theorem Tidy.slotted (h : s.Tidy) (n : Node) : (s.slotted n).Tidy := by
  unfold Survey.slotted
  split
  · exact ⟨h.defined, h.binds⟩
  · next hn =>
    refine ⟨h.defined, ?_⟩
    show ((s.binds ++ [n]).map Node.id).Nodup
    rw [List.map_append, List.nodup_append]
    refine ⟨h.binds, List.nodup_singleton _, ?_⟩
    rintro i hi j hj rfl
    rw [List.map_singleton, List.mem_singleton] at hj
    exact slot?_eq_none hn (hj ▸ hi)

theorem Tidy.survey (h : s.Tidy) (n : Node) : (survey s n).Tidy := by
  refine keeps (fun s mark hm h => ?_) (fun s n hn h => h.define hn) (fun s n h => ?_) h n
  · cases mark with
    | slot n => exact h.slotted n
    | child n => exact absurd rfl (hm n)
    | _ => exact ⟨h.defined, h.binds⟩
  · exact ⟨by rw [visit_defined]; exact h.defined, by rw [visit_binds]; exact h.binds⟩

/-- The FROM elements and labels that two surveys gave the same ordinal. -/
def ordinals (s t : Survey) : List (Identity × Identity) := s.defined.zip t.defined

/-- The bound parameters that two surveys gave the same slot. -/
def slots (s t : Survey) : List (Identity × Identity) :=
  (s.binds.map Node.id).zip (t.binds.map Node.id)

/-- Numbers in common match nodes one to one. -/
theorem zip_nodup {xs ys : List Identity} (hx : xs.Nodup) (hy : ys.Nodup)
    {p q : Identity × Identity}
    (hp : p ∈ xs.zip ys) (hq : q ∈ xs.zip ys) : p.1 = q.1 ↔ p.2 = q.2 := by
  obtain ⟨i, hi, rfl⟩ := List.mem_iff_getElem.1 hp
  obtain ⟨j, hj, rfl⟩ := List.mem_iff_getElem.1 hq
  rw [List.getElem_zip, List.getElem_zip]
  exact hx.getElem_inj_iff.trans hy.getElem_inj_iff.symm

/-! ## Two surveys in lockstep -/

/-- Surveys that wrote the same so far. -/
structure Lockstep (s t : Survey) : Prop where
  written : s.written = t.written
  anonymous : s.anonymous = t.anonymous
  defined : s.defined.length = t.defined.length
  binds : s.binds.length = t.binds.length

/-- Trees that were read alike.  `again` are elements that were met before, with the same
ordinal. -/
inductive Walked (ordinals slots : List (Identity × Identity)) : Node → Node → Prop where
  | again {a b : Node} :
      a.hasOrdinal → b.hasOrdinal → (a.id, b.id) ∈ ordinals → Walked ordinals slots a b
  | entered {a b : Node} :
      a.SameForm b → (a.hasOrdinal → (a.id, b.id) ∈ ordinals) →
        (∀ p, a.kind = .bind p → (a.id, b.id) ∈ slots) →
          (∀ c d, (c, d) ∈ a.children.zip b.children → Walked ordinals slots c d) →
            Walked ordinals slots a b

/-- Nodes that were read alike, and their children. -/
structure Entered (ordinals slots : List (Identity × Identity)) (a b : Node) : Prop where
  form : a.SameForm b
  ordinal : a.hasOrdinal → (a.id, b.id) ∈ ordinals
  slot : ∀ p, a.kind = .bind p → (a.id, b.id) ∈ slots
  children : ∀ c d, (c, d) ∈ a.children.zip b.children → Walked ordinals slots c d

theorem Entered.walked {o p : List (Identity × Identity)} (h : Entered o p a b) : Walked o p a b :=
  .entered h.form h.ordinal h.slot h.children

theorem Walked.mono {o p o' p' : List (Identity × Identity)} (ho : o ⊆ o') (hp : p ⊆ p')
    (h : Walked o p a b) : Walked o' p' a b := by
  induction h with
  | again ha hb h => exact .again ha hb (ho h)
  | entered form ordinal slot _ ih =>
    exact .entered form (fun h => ho (ordinal h)) (fun q h => hp (slot q h)) ih

theorem Entered.mono {o p o' p' : List (Identity × Identity)} (ho : o ⊆ o') (hp : p ⊆ p')
    (h : Entered o p a b) : Entered o' p' a b :=
  ⟨h.form, fun ha => ho (h.ordinal ha), fun q ha => hp (h.slot q ha),
    fun c d hc => (h.children c d hc).mono ho hp⟩

/-- What two surveys in lockstep add to what they numbered: an element that got its ordinal now was
entered now. -/
structure Advance (m n : Node) (s t s' t' : Survey) : Prop where
  lockstep : Lockstep s' t'
  ordinals : ordinals s t ⊆ ordinals s' t'
  slots : slots s t ⊆ slots s' t'
  entered : ∀ p ∈ Survey.ordinals s' t', p ∈ Survey.ordinals s t ∨
    ∃ c d, Occurs c m ∧ Occurs d n ∧ (c.id, d.id) = p ∧
      Entered (Survey.ordinals s' t') (Survey.slots s' t') c d

theorem Advance.refl (h : Lockstep s t) : Advance m n s t s t :=
  ⟨h, List.Subset.refl _, List.Subset.refl _, fun _ hp => .inl hp⟩

theorem Advance.trans (h : Advance m n s t s' t') (h' : Advance m n s' t' s'' t'') :
    Advance m n s t s'' t'' := by
  refine ⟨h'.lockstep, List.Subset.trans h.ordinals h'.ordinals,
    List.Subset.trans h.slots h'.slots, fun p hp => ?_⟩
  obtain hp | found := h'.entered p hp
  · obtain hp | ⟨c, d, hc, hd, hp, entered⟩ := h.entered p hp
    · exact .inl hp
    · exact .inr ⟨c, d, hc, hd, hp, entered.mono h'.ordinals h'.slots⟩
  · exact .inr found

theorem Lockstep.push (h : Lockstep s t) (hs : Within key (s.push e)) (ht : Within key (t.push e)) :
    Lockstep (s.push e) (t.push e) :=
  ⟨by rw [(within_push hs).2, (within_push ht).2, h.written], h.anonymous, h.defined, h.binds⟩

theorem Lockstep.advance_push (h : Lockstep s t) (hs : Within key (s.push e))
    (ht : Within key (t.push e)) : Advance m n s t (s.push e) (t.push e) :=
  ⟨h.push hs ht, List.Subset.refl _, List.Subset.refl _, fun _ hp => .inl hp⟩

theorem Lockstep.define (h : Lockstep s t)
    (hs : Within key (s.push (.definition s.defined.length)))
    (ht : Within key (t.push (.definition t.defined.length))) :
    Lockstep (s.define a) (t.define b) := by
  refine ⟨?_, h.anonymous, congrArg (· + 1) h.defined, h.binds⟩
  show (s.push (.definition s.defined.length)).written =
    (t.push (.definition t.defined.length)).written
  rw [← h.defined] at ht ⊢
  exact (h.push hs ht).written

theorem Lockstep.slotted (h : Lockstep s t) (hs : Within key (s.slotted a))
    (ht : Within key (t.slotted b)) :
    Advance m n s t (s.slotted a) (t.slotted b) ∧
      (a.id, b.id) ∈ slots (s.slotted a) (t.slotted b) := by
  unfold Survey.slotted at hs ht ⊢
  cases ha : s.slot? a with
  | some i =>
    cases hb : t.slot? b with
    | some j =>
      simp only [ha, hb] at hs ht ⊢
      obtain rfl := KeyElement.slot.inj (eq_of_within_push h.written hs ht)
      refine ⟨h.advance_push hs ht, List.mem_iff_getElem?.2 ⟨i, ?_⟩⟩
      exact List.getElem?_zip_eq_some.2 ⟨slot?_eq_some ha, slot?_eq_some hb⟩
    | none =>
      -- an old slot is smaller than a new one
      simp only [ha, hb] at hs ht
      have i_eq : i = t.binds.length :=
        KeyElement.slot.inj
          (eq_of_within_push (t := { t with binds := t.binds ++ [b] }) h.written hs ht)
      have lt := (List.getElem?_eq_some_iff.1 (slot?_eq_some ha)).1
      rw [List.length_map, h.binds, i_eq] at lt
      exact absurd lt (Nat.lt_irrefl _)
  | none =>
    cases hb : t.slot? b with
    | some j =>
      simp only [ha, hb] at hs ht
      have j_eq : s.binds.length = j :=
        KeyElement.slot.inj
          (eq_of_within_push (s := { s with binds := s.binds ++ [a] }) h.written hs ht)
      have lt := (List.getElem?_eq_some_iff.1 (slot?_eq_some hb)).1
      rw [List.length_map, ← h.binds, j_eq] at lt
      exact absurd lt (Nat.lt_irrefl _)
    | none =>
      simp only [ha, hb] at hs ht ⊢
      have grown : Lockstep { s with binds := s.binds ++ [a] } { t with binds := t.binds ++ [b] } :=
        ⟨h.written, h.anonymous, h.defined, by simp [h.binds]⟩
      rw [h.binds] at hs ⊢
      have slots_eq : slots { s with binds := s.binds ++ [a] } { t with binds := t.binds ++ [b] } =
          slots s t ++ [(a.id, b.id)] := by
        unfold slots
        rw [List.map_append, List.map_append, List.zip_append (by simp [h.binds])]
        rfl
      refine ⟨⟨grown.push hs ht, List.Subset.refl _, ?_, fun _ hp => .inl hp⟩, ?_⟩
      · show slots s t ⊆ slots { s with binds := s.binds ++ [a] } { t with binds := t.binds ++ [b] }
        rw [slots_eq]
        exact List.subset_append_left _ _
      · show _ ∈ slots { s with binds := s.binds ++ [a] } { t with binds := t.binds ++ [b] }
        rw [slots_eq]
        exact List.mem_append_right _ List.mem_cons_self

/-- What is known of two marks after both were taken down. -/
inductive Handled (ordinals slots : List (Identity × Identity)) : Mark → Mark → Prop where
  | put (e : KeyElement) : Handled ordinals slots (.put e) (.put e)
  | name (ident : String) : Handled ordinals slots (.name ident) (.name ident)
  | anonymous : Handled ordinals slots .anonymous .anonymous
  | slot {a b : Node} : (a.id, b.id) ∈ slots → Handled ordinals slots (.slot a) (.slot b)
  | child {a b : Node} :
      Walked ordinals slots a b → Handled ordinals slots (.child a) (.child b)

theorem Handled.mono {o p o' p' : List (Identity × Identity)} {x y : Mark} (ho : o ⊆ o')
    (hp : p ⊆ p')
    (h : Handled o p x y) : Handled o' p' x y := by
  cases h with
  | put e => exact .put e
  | name ident => exact .name ident
  | anonymous => exact .anonymous
  | slot h => exact .slot (hp h)
  | child h => exact .child (h.mono ho hp)

theorem handled_slot {o p : List (Identity × Identity)} {q : BindParam} (form : a.SameForm b)
    (h : Forall₂ (Handled o p) a.marks b.marks) (ha : a.kind = .bind q) : (a.id, b.id) ∈ p := by
  have hb : ∃ r, b.kind = .bind r := by
    have kind := form.kind
    rw [ha] at kind
    generalize b.kind = k at kind
    cases kind with
    | bind => exact ⟨_, rfl⟩
  obtain ⟨r, hb⟩ := hb
  simp only [marks, ha, hb, List.forall₂_cons] at h
  cases h.1 with
  | slot h => exact h

theorem handled_children {o p : List (Identity × Identity)} {xs ys : List Mark} {c d : Node}
    (h : Forall₂ (Handled o p) xs ys)
    (hc : (c, d) ∈ (xs.filterMap Mark.child?).zip (ys.filterMap Mark.child?)) : Walked o p c d := by
  induction h with
  | nil => simp at hc
  | cons hxy _ ih =>
    cases hxy with
    | child walked =>
      rw [List.filterMap_cons_some (by rfl), List.filterMap_cons_some (by rfl), List.zip_cons_cons,
        List.mem_cons] at hc
      obtain hc | hc := hc
      · cases hc
        exact walked
      · exact ih hc
    | _ =>
      rw [List.filterMap_cons_none (by rfl), List.filterMap_cons_none (by rfl)] at hc
      exact ih hc

/-- The three ways of a survey with a node. -/
theorem survey_cases (s : Survey) (n : Node) :
    (n.hasOrdinal ∧ ∃ i, s.ordinal? n = some i ∧ survey s n = s.push (.reference i)) ∨
      (n.hasOrdinal ∧ s.ordinal? n = none ∧
        survey s n = (((s.define n).visit n).push (.kind n.kindName)).takeAll n.marks) ∨
      (n.hasOrdinal = false ∧
        survey s n = ((s.visit n).push (.kind n.kindName)).takeAll n.marks) := by
  rw [survey_eq, entered]
  by_cases h : n.hasOrdinal
  · rw [if_pos h, if_pos h]
    cases ho : s.ordinal? n with
    | some i => exact .inl ⟨h, i, rfl, rfl⟩
    | none => exact .inr (.inl ⟨h, rfl, rfl⟩)
  · rw [if_neg h, if_neg h]
    exact .inr (.inr ⟨Bool.eq_false_iff.2 h, rfl⟩)

theorem within_visit : Within key (s.visit n) ↔ Within key s := by
  rw [Within, visit_buffer, visit_written, Within]

theorem within_definition {marks : List Mark}
    (h : Within key ((((s.define n).visit n).push e).takeAll marks)) :
    Within key (s.push (.definition s.defined.length)) := by
  have defined : Within key (s.define n) := within_visit.1 (within_push (within_of_takeAll h)).1
  exact defined

theorem within_plain {marks : List Mark}
    (h : Within key (((s.visit n).push e).takeAll marks)) : Within key (s.push e) := by
  have pushed := within_of_takeAll h
  rwa [Within, written, push, visit_buffer] at pushed

theorem survey_begins (h : Within key (survey s n)) :
    ∃ e, (Mark.child n).Starts e ∧ Within key (s.push e) := by
  obtain ⟨-, i, -, eq⟩ | ⟨-, -, eq⟩ | ⟨-, eq⟩ := survey_cases s n
  · rw [eq] at h
    exact ⟨_, .reference n i, h⟩
  · rw [eq] at h
    exact ⟨_, .definition n s.defined.length, within_definition h⟩
  · rw [eq] at h
    exact ⟨_, .kind n, within_plain h⟩

theorem take_starts {x : Mark} (h : Within key (s.take x)) :
    ∃ e, x.Starts e ∧ Within key (s.push e) := by
  by_cases hx : ∀ n, x ≠ .child n
  · obtain ⟨e, starts, he⟩ := take_buffer (s := s) hx
    unfold Within written at h
    rw [he] at h
    exact ⟨e, starts, h⟩
  · obtain ⟨n, hn⟩ := not_forall_not.1 hx
    subst hn
    exact survey_begins h

theorem Lockstep.agree {x y : Mark} (h : Lockstep s t) (told : x.Told y)
    (hs : Within key (s.take x)) (ht : Within key (t.take y)) : x.Agree y := by
  obtain ⟨e, hx, hs⟩ := take_starts hs
  obtain ⟨e', hy, ht⟩ := take_starts ht
  obtain rfl := eq_of_within_push h.written hs ht
  exact told e hx hy

/-- Whether surveys in lockstep that write the same of two nodes read nodes that are alike, and are
in lockstep after them. -/
def InStep (key : Key) (m n a b : Node) : Prop :=
  ∀ ⦃s t : Survey⦄, Lockstep s t → Within key (survey s a) → Within key (survey t b) →
    Advance m n s t (survey s a) (survey t b) ∧
      Walked (Survey.ordinals (survey s a) (survey t b)) (Survey.slots (survey s a) (survey t b))
        a b

/-- Two surveys that write the same take down marks that decide something about themselves, if the
nodes among them are walked in lockstep. -/
theorem Lockstep.takeAll {P : Prop} {xs ys : List Mark} (decides : Mark.Decides P xs ys)
    (walk : ∀ c d, .child c ∈ xs → .child d ∈ ys → InStep key m n c d)
    (h : Lockstep s t) (hs : Within key (s.takeAll xs)) (ht : Within key (t.takeAll ys)) :
    P ∧ Advance m n s t (s.takeAll xs) (t.takeAll ys) ∧
      Forall₂
        (Handled (Survey.ordinals (s.takeAll xs) (t.takeAll ys))
          (Survey.slots (s.takeAll xs) (t.takeAll ys)))
        xs ys := by
  induction decides generalizing s t with
  | done hP => exact ⟨hP, .refl h, .nil⟩
  | @next x y xs ys told _ ih =>
    rw [takeAll_cons] at hs ht
    have hx := within_of_takeAll hs
    have hy := within_of_takeAll ht
    have agree := h.agree told hx hy
    have step : Advance m n s t (s.take x) (t.take y) ∧
        Handled (Survey.ordinals (s.take x) (t.take y))
          (Survey.slots (s.take x) (t.take y)) x y := by
      cases agree with
      | put e => exact ⟨h.advance_push hx hy, .put e⟩
      | name ident =>
        have grown := h.push (e := .spelling ident) hx hy
        exact ⟨⟨⟨grown.written, h.anonymous, h.defined, h.binds⟩, List.Subset.refl _,
          List.Subset.refl _, fun _ hp => .inl hp⟩, .name ident⟩
      | anonymous =>
        have grown : Lockstep { s with anonymous := s.anonymous + 1 }
            { t with anonymous := t.anonymous + 1 } :=
          ⟨h.written, congrArg (· + 1) h.anonymous, h.defined, h.binds⟩
        have same : t.take .anonymous =
            { t with anonymous := t.anonymous + 1 }.push (.anonymous (s.anonymous + 1)) := by
          rw [h.anonymous]
          rfl
        rw [same] at hy ⊢
        exact ⟨⟨grown.push hx hy, List.Subset.refl _, List.Subset.refl _, fun _ hp => .inl hp⟩,
          .anonymous⟩
      | slot a b =>
        obtain ⟨advance, slot⟩ := h.slotted hx hy
        exact ⟨advance, .slot slot⟩
      | child a b =>
        obtain ⟨advance, walked⟩ := walk a b List.mem_cons_self List.mem_cons_self h hx hy
        exact ⟨advance, .child walked⟩
    obtain ⟨advance, handled⟩ := step
    obtain ⟨hP, advance', handled'⟩ := ih agree
      (fun c d hc hd => walk c d (List.mem_cons_of_mem _ hc) (List.mem_cons_of_mem _ hd))
      advance.lockstep hs ht
    exact ⟨hP, advance.trans advance',
      .cons (handled.mono advance'.ordinals advance'.slots) handled'⟩

/-- After the kind of two nodes, their marks are taken down in lockstep. -/
theorem Lockstep.enter (ha : Occurs a m) (hb : Occurs b n) (h : Lockstep s t)
    (walk : ∀ c ∈ a.children, ∀ d, Occurs c m → Occurs d n → InStep key m n c d)
    (ordinal : a.hasOrdinal → (a.id, b.id) ∈ Survey.ordinals s t)
    (hs : Within key (((s.visit a).push (.kind a.kindName)).takeAll a.marks))
    (ht : Within key (((t.visit b).push (.kind b.kindName)).takeAll b.marks)) :
    ∃ s' t', s' = ((s.visit a).push (.kind a.kindName)).takeAll a.marks ∧
      t' = ((t.visit b).push (.kind b.kindName)).takeAll b.marks ∧ Advance m n s t s' t' ∧
        Entered (Survey.ordinals s' t') (Survey.slots s' t') a b := by
  refine ⟨_, _, rfl, rfl, ?_⟩
  have visited : Lockstep (s.visit a) (t.visit b) :=
    ⟨by rw [visit_written, visit_written, h.written],
      by rw [visit_anonymous, visit_anonymous, h.anonymous],
      by rw [visit_defined, visit_defined, h.defined], by rw [visit_binds, visit_binds, h.binds]⟩
  have ordinals_eq : Survey.ordinals (s.visit a) (t.visit b) = Survey.ordinals s t := by
    rw [Survey.ordinals, visit_defined, visit_defined, Survey.ordinals]
  have slots_eq : Survey.slots (s.visit a) (t.visit b) = Survey.slots s t := by
    rw [Survey.slots, visit_binds, visit_binds, Survey.slots]
  have kind_s := within_of_takeAll hs
  have kind_t := within_of_takeAll ht
  have kindName := KeyElement.kind.inj (eq_of_within_push visited.written kind_s kind_t)
  rw [← kindName] at ht kind_t ⊢
  have named : Advance m n s t ((s.visit a).push (.kind a.kindName))
      ((t.visit b).push (.kind a.kindName)) := by
    refine ⟨visited.push kind_s kind_t, ?_, ?_, fun p hp => .inl ?_⟩
    · exact fun _ hp => ordinals_eq.symm ▸ hp
    · exact fun _ hp => slots_eq.symm ▸ hp
    · exact ordinals_eq ▸ hp
  obtain ⟨form, advance, handled⟩ := named.lockstep.takeAll (decides_marks kindName)
    (fun c d hc hd => walk c (mem_children_of_mark hc) d
      (.trans (.deeper (mem_children_of_mark hc) .root) ha)
      (.trans (.deeper (mem_children_of_mark hd) .root) hb)) hs ht
  have advance := named.trans advance
  refine ⟨advance, form, fun ho => advance.ordinals (ordinal ho), fun p hp => ?_, fun c d hc => ?_⟩
  · exact handled_slot form handled hp
  · rw [children_eq_marks, children_eq_marks] at hc
    exact handled_children handled hc

/-- Surveys that write the same read trees that are alike, down to elements that they met before. -/
theorem inStep_of_occurs (ha : Occurs a m) (hb : Occurs b n) : InStep key m n a b := by
  induction a using Node.induct generalizing b with
  | step a ih =>
    intro s t h hs ht
    -- the first element of both keys tells in which of the three ways the nodes were taken down
    have differ {e e' : KeyElement} (ne : e ≠ e') {P : Prop} (hs : Within key (s.push e))
        (ht : Within key (t.push e')) : P := absurd (eq_of_within_push h.written hs ht) ne
    have walk (c : Node) (hc : c ∈ a.children) (d : Node) (hcm : Occurs c m) (hdn : Occurs d n) :
        InStep key m n c d := ih c hc hcm hdn
    obtain ⟨hoa, i, hi, eqa⟩ | ⟨hoa, hi, eqa⟩ | ⟨hoa, eqa⟩ := survey_cases s a
    all_goals obtain ⟨hob, j, hj, eqb⟩ | ⟨hob, hj, eqb⟩ | ⟨hob, eqb⟩ := survey_cases t b
    all_goals rw [eqa] at hs ⊢
    all_goals rw [eqb] at ht ⊢
    case inl.inl =>
      obtain rfl := KeyElement.reference.inj (eq_of_within_push h.written hs ht)
      obtain ⟨p, hp, rfl⟩ := ordinal?_eq_some hi
      obtain ⟨q, hq, eq⟩ := ordinal?_eq_some hj
      have p_lt := (List.getElem?_eq_some_iff.1 hp).1
      have q_lt := (List.getElem?_eq_some_iff.1 hq).1
      have defined := h.defined
      obtain rfl : p = q := by omega
      refine ⟨h.advance_push hs ht, .again hoa hob (List.mem_iff_getElem?.2 ⟨p, ?_⟩)⟩
      exact List.getElem?_zip_eq_some.2 ⟨hp, hq⟩
    case inl.inr.inl => exact differ (by simp) hs (within_definition ht)
    case inl.inr.inr => exact differ (by simp) hs (within_plain ht)
    case inr.inl.inl => exact differ (by simp) (within_definition hs) ht
    case inr.inl.inr.inl =>
      have defined := h.define (a := a) (b := b) (within_definition hs) (within_definition ht)
      have ordinal : (a.id, b.id) ∈ Survey.ordinals (s.define a) (t.define b) :=
        List.mem_cons_self
      obtain ⟨s', t', rfl, rfl, advance, entered⟩ :=
        defined.enter ha hb walk (fun _ => ordinal) hs ht
      refine ⟨⟨advance.lockstep, ?_, advance.slots, fun p hp => ?_⟩, entered.walked⟩
      · exact List.Subset.trans (List.subset_cons_self _ _) advance.ordinals
      · obtain hp | found := advance.entered p hp
        · obtain rfl | hp := List.mem_cons.1 hp
          · exact .inr ⟨a, b, ha, hb, rfl, entered⟩
          · exact .inl hp
        · exact .inr found
    case inr.inl.inr.inr => exact differ (by simp) (within_definition hs) (within_plain ht)
    case inr.inr.inl => exact differ (by simp) (within_plain hs) ht
    case inr.inr.inr.inl => exact differ (by simp) (within_plain hs) (within_definition ht)
    case inr.inr.inr.inr =>
      have none {P : Prop} (ho : a.hasOrdinal) : P := by rw [hoa] at ho; cases ho
      obtain ⟨s', t', rfl, rfl, advance, entered⟩ := h.enter ha hb walk none hs ht
      exact ⟨advance, entered.walked⟩

end Survey

end SqlAlgebra
