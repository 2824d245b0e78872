import Mathlib.Data.List.Perm.Subperm
import SqlAlgebra.Proofs.Survey.Coverage
import SqlAlgebra.Proofs.Template.Parts

/-!
# Names of parameters

A synthetic name is none that the caller wrote and none that another node has: among the names with
one number after another there is always a free one, since names with different numbers differ, and
a name that is given is remembered.  So two parameters of one name are the same node, or both keep a
key that the caller gave them.
-/

namespace SqlAlgebra

open List (Forall₂)
open Node

namespace Namer

theorem append_cons_inj {α : Type} {a : α} {xs xs' ys ys' : List α} (h : a ∉ ys) (h' : a ∉ ys')
    (eq : xs ++ a :: ys = xs' ++ a :: ys') : xs = xs' ∧ ys = ys' := by
  induction xs generalizing xs' with
  | nil =>
    cases xs' with
    | nil => exact ⟨rfl, (List.cons.inj eq).2⟩
    | cons x xs' =>
      have tail : ys = xs' ++ a :: ys' := (List.cons.inj eq).2
      exact absurd (tail ▸ List.mem_append_right _ List.mem_cons_self) h
  | cons x xs ih =>
    cases xs' with
    | nil =>
      have tail : xs ++ a :: ys = ys' := (List.cons.inj eq).2
      exact absurd (tail ▸ List.mem_append_right _ List.mem_cons_self) h'
    | cons x' xs' =>
      obtain ⟨rfl, tail⟩ := List.cons.inj eq
      obtain ⟨rfl, same⟩ := ih tail
      exact ⟨rfl, same⟩

/-- A number has no underscore in it, so the last underscore of a name tells its stem and its number
apart. -/
theorem numbered_injective {stem stem' : String} {n n' : Nat}
    (h : numbered stem n = numbered stem' n') : stem = stem' ∧ n = n' := by
  have plain (n : Nat) : '_' ∉ Nat.toDigits 10 n := by
    intro mem
    exact absurd (Nat.isDigit_of_mem_toDigits (by decide) (by decide) mem) (by decide)
  have text (stem : String) (n : Nat) :
      (numbered stem n).toList = stem.toList ++ '_' :: Nat.toDigits 10 n := by
    rw [← Nat.toList_repr]
    simp [numbered]
  have chars := congrArg String.toList h
  rw [text, text] at chars
  obtain ⟨stems, digits⟩ := append_cons_inj (plain n) (plain n') chars
  refine ⟨String.toList_inj.1 stems, ?_⟩
  rw [← Nat.ofDigitChars_ten_toDigits (n := n), digits, Nat.ofDigitChars_ten_toDigits]

variable {namer : Namer} {stem name : String} {i j : Identity} {a : Node} {p : BindParam}

theorem isFree_iff : namer.isFree name = true ↔ name ∉ namer.taken ∧ name ∉ namer.issued := by
  simp [isFree]

/-- A search finds a free name, or none of the names that it tried is free. -/
theorem firstFree_cases (namer : Namer) (stem : String) (steps n : Nat) :
    namer.isFree (numbered stem (namer.firstFree stem steps n)) = true ∨
      ∀ k < steps, numbered stem (n + k) ∈ namer.taken ++ namer.issued := by
  induction steps generalizing n with
  | zero => exact .inr fun k hk => absurd hk (Nat.not_lt_zero k)
  | succ steps ih =>
    rw [firstFree]
    by_cases free : namer.isFree (numbered stem n)
    · rw [if_pos free]
      exact .inl free
    · rw [if_neg free]
      refine (ih (n + 1)).imp_right fun tried k hk => ?_
      cases k with
      | zero =>
        rw [isFree_iff, ← not_or, ← List.mem_append, not_not] at free
        exact free
      | succ k =>
        rw [Nat.add_comm k 1, ← Nat.add_assoc]
        exact tried k (Nat.lt_of_succ_lt_succ hk)

theorem isFree_fresh (namer : Namer) (stem : String) :
    namer.isFree (namer.fresh stem).1 = true := by
  obtain free | tried := namer.firstFree_cases stem
    (namer.taken.length + namer.issued.length + 1) (namer.counter stem + 1)
  · exact free
  · -- there are more names than are in use
    exfalso
    have nodup : ((List.range (namer.taken.length + namer.issued.length + 1)).map fun k =>
        numbered stem (namer.counter stem + 1 + k)).Nodup :=
      List.nodup_range.map fun k k' same =>
        Nat.add_left_cancel (numbered_injective same).2
    have subset : ((List.range (namer.taken.length + namer.issued.length + 1)).map fun k =>
        numbered stem (namer.counter stem + 1 + k)) ⊆ namer.taken ++ namer.issued := by
      intro name mem
      obtain ⟨k, hk, rfl⟩ := List.mem_map.1 mem
      exact tried k (List.mem_range.1 hk)
    have length := (List.subperm_of_subset nodup subset).length_le
    rw [List.length_map, List.length_range, List.length_append] at length
    omega

/-- Whether the names that were given are different, and none of them is one that the caller wrote.
-/
structure Sound (namer : Namer) : Prop where
  apart : ∀ name ∈ namer.issued, name ∉ namer.taken
  given : ∀ entry ∈ namer.assigned, entry.2 ∈ namer.issued
  names : (namer.assigned.map Prod.snd).Nodup

/-- Whether a namer has the names of another one, and the same identifiers of the caller. -/
structure Continues (namer later : Namer) : Prop where
  taken : later.taken = namer.taken
  keeps : ∀ ⦃i name⦄, namer.assigned.lookup i = some name → later.assigned.lookup i = some name

theorem Continues.refl (namer : Namer) : namer.Continues namer := ⟨rfl, fun _ _ h => h⟩

theorem Continues.trans {later latest : Namer} (h : namer.Continues later)
    (h' : later.Continues latest) : namer.Continues latest :=
  ⟨h'.taken.trans h.taken, fun _ _ hi => h'.keeps (h.keeps hi)⟩

theorem sound_start (taken : List String) : (start taken).Sound :=
  ⟨fun _ h => absurd h List.not_mem_nil, fun _ h => absurd h List.not_mem_nil, .nil⟩

theorem Sound.assign (h : namer.Sound) (i : Identity) (stem : String) :
    (namer.assign i stem).2.Sound ∧ namer.Continues (namer.assign i stem).2 ∧
      (namer.assign i stem).2.assigned.lookup i = some (namer.assign i stem).1 := by
  unfold Namer.assign
  cases known : namer.assigned.lookup i with
  | some name => exact ⟨h, .refl _, known⟩
  | none =>
    obtain ⟨untaken, unissued⟩ := isFree_iff.1 (isFree_fresh namer stem)
    refine ⟨⟨?_, ?_, ?_⟩, ⟨rfl, ?_⟩, List.lookup_cons_self⟩
    · intro name mem
      obtain rfl | mem := List.mem_cons.1 mem
      · exact untaken
      · exact h.apart name mem
    · intro entry mem
      obtain rfl | mem := List.mem_cons.1 mem
      · exact List.mem_cons_self
      · exact List.mem_cons_of_mem _ (h.given entry mem)
    · refine List.nodup_cons.2 ⟨fun mem => ?_, h.names⟩
      obtain ⟨entry, hentry, same⟩ := List.mem_map.1 mem
      have issued := h.given entry hentry
      rw [same] at issued
      exact unissued issued
    · intro j name hj
      show List.lookup j ((i, _) :: namer.assigned) = some name
      have other : (j == i) = false := by
        rw [beq_eq_false_iff_ne]
        rintro rfl
        rw [known] at hj
        cases hj
      rw [List.lookup_cons, other]
      exact hj

theorem Sound.param (h : namer.Sound) (a : Node) (p : BindParam) :
    (namer.param a p).2.Sound ∧ namer.Continues (namer.param a p).2 ∧
      ((p.key = some (namer.param a p).1 ∧ p.isUnique = false) ∨
        (namer.param a p).2.assigned.lookup a.id = some (namer.param a p).1) := by
  have assigned (stem : String) := h.assign a.id stem
  unfold Namer.param
  cases hk : p.key with
  | none => exact ⟨(assigned "param").1, (assigned "param").2.1, .inr (assigned "param").2.2⟩
  | some key =>
    dsimp only
    cases unique : p.isUnique with
    | true => exact ⟨(assigned key).1, (assigned key).2.1, .inr (assigned key).2.2⟩
    | false => exact ⟨h, .refl _, .inl ⟨rfl, rfl⟩⟩

theorem mem_assigned_of_lookup (h : namer.assigned.lookup i = some name) :
    (i, name) ∈ namer.assigned := by
  obtain ⟨before, after, eq, -⟩ := List.lookup_eq_some_iff.1 h
  exact eq ▸ List.mem_append_right _ List.mem_cons_self

/-- A name is given to one node only. -/
theorem Sound.lookup_inj (h : namer.Sound) (hi : namer.assigned.lookup i = some name)
    (hj : namer.assigned.lookup j = some name) : i = j :=
  (Prod.mk.inj (List.inj_on_of_nodup_map h.names (mem_assigned_of_lookup hi)
    (mem_assigned_of_lookup hj) rfl)).1

theorem Sound.notMem_taken (h : namer.Sound) (hi : namer.assigned.lookup i = some name) :
    name ∉ namer.taken :=
  h.apart name (h.given _ (mem_assigned_of_lookup hi))

end Namer

/-- Whether a namer has given a node a name. -/
def Namer.Gave (namer : Namer) (n : Node) (name : String) : Prop :=
  namer.assigned.lookup n.id = some name

/-- Whether a parameter gets a name of its own, made from its key if it has one. -/
def BindParam.IsSynthetic (p : BindParam) : Prop := p.key = none ∨ p.isUnique = true

/-- How a piece of a layout stands in a statement: text as it is, a node under a name that it has, a
parameter under its key or a name that it has, or as its value where values are written out. -/
inductive Piece.Written (d : Dialect) (inline : Bool) (named : Node → String → Prop) :
    Piece → Part → Prop where
  | text (sql : String) : Written d inline named (.text sql) (.text (Template.escaped d sql))
  | anonymous {n : Node} {name : String} :
      named n name → Written d inline named (.anonymous n) (.text (Template.escaped d name))
  | kept {n : Node} {p : BindParam} {key : String} :
      inline = false → p.key = some key → p.isUnique = false →
        Written d inline named (.bind n p) (.param n p key)
  | synthetic {n : Node} {p : BindParam} {name : String} :
      inline = false → p.IsSynthetic → named n name →
        Written d inline named (.bind n p) (.param n p name)
  | literal {n : Node} {p : BindParam} {sql : String} :
      inline = true → Template.inlined d p = .ok sql →
        Written d inline named (.bind n p) (.text (Template.escaped d sql))

theorem Piece.Written.mono {d : Dialect} {inline : Bool} {named named' : Node → String → Prop}
    {piece : Piece} {part : Part} (h : piece.Written d inline named part)
    (sub : ∀ n name, named n name → named' n name) : piece.Written d inline named' part := by
  cases h with
  | text sql => exact .text sql
  | anonymous known => exact .anonymous (sub _ _ known)
  | kept placeholders key unique => exact .kept placeholders key unique
  | synthetic placeholders kind known => exact .synthetic placeholders kind (sub _ _ known)
  | literal inline written => exact .literal inline written

/-- A parameter is written under its key, or under the name that a namer gives it. -/
theorem Namer.Sound.written_param {namer : Namer} (h : namer.Sound) (d : Dialect) (a : Node)
    (p : BindParam) :
    Piece.Written d false (namer.param a p).2.Gave (.bind a p)
      (.param a p (namer.param a p).1) := by
  have assigned (stem : String) := (h.assign a.id stem).2.2
  unfold Namer.param
  cases hk : p.key with
  | none => exact .synthetic rfl (.inl hk) (assigned "param")
  | some key =>
    dsimp only
    cases unique : p.isUnique with
    | true => exact .synthetic rfl (.inr unique) (assigned key)
    | false => exact .kept rfl hk unique

namespace Template

variable {d : Dialect} {survey : Survey} {reversed settled : List Segment}

/-- Whatever the order is in which nodes are met for the first time, what is written for a node is
the name that it has in the end.  In the end everything holds that holds at first and after every
name that is given to a node of the pieces. -/
theorem written_ofPieces_of {I : Namer → Prop} (d : Dialect) (pieces : List Piece) {namer : Namer}
    (h : namer.Sound) (start : I namer)
    (anonymous : ∀ n, .anonymous n ∈ pieces → ∀ namer, I namer → I (namer.anonymous n).2)
    (param : ∀ n b, .bind n b ∈ pieces → ∀ namer, I namer → I (namer.param n b).2) :
    ∃ later, I later ∧ later.Sound ∧ namer.Continues later ∧
      Forall₂ (Piece.Written d false later.Gave) pieces (Part.ofPieces d pieces namer) := by
  induction pieces generalizing namer with
  | nil => exact ⟨namer, start, h, .refl _, .nil⟩
  | cons piece rest ih =>
    have rests {namer' : Namer} (h' : namer'.Sound) (start' : I namer') := ih h' start'
      (fun n mem => anonymous n (List.mem_cons_of_mem _ mem))
      (fun n b mem => param n b (List.mem_cons_of_mem _ mem))
    cases piece with
    | text sql =>
      obtain ⟨later, holds, sound, continues, written⟩ := rests h start
      exact ⟨later, holds, sound, continues, .cons (.text sql) written⟩
    | anonymous n =>
      obtain ⟨sound', continues', known⟩ := h.assign n.id "anon"
      obtain ⟨later, holds, sound, continues, written⟩ :=
        rests sound' (anonymous n List.mem_cons_self namer start)
      exact ⟨later, holds, sound, continues'.trans continues,
        .cons (.anonymous (continues.keeps known)) written⟩
    | bind n b =>
      obtain ⟨sound', continues', -⟩ := h.param n b
      obtain ⟨later, holds, sound, continues, written⟩ :=
        rests sound' (param n b List.mem_cons_self namer start)
      exact ⟨later, holds, sound, continues'.trans continues,
        .cons ((h.written_param d n b).mono fun _ _ known => continues.keeps known) written⟩

theorem written_ofPieces (d : Dialect) (pieces : List Piece) {namer : Namer} (h : namer.Sound) :
    ∃ later, later.Sound ∧ namer.Continues later ∧
      Forall₂ (Piece.Written d false later.Gave) pieces (Part.ofPieces d pieces namer) := by
  obtain ⟨later, -, written⟩ := written_ofPieces_of (I := fun _ => True) d pieces h trivial
    (fun _ _ _ _ => trivial) fun _ _ _ _ _ => trivial
  exact ⟨later, written⟩

/-- Where values are written out, the segments of some pieces are text alone. -/
theorem written_of_settle {pieces : List Piece} {namer : Namer} (h : namer.Sound)
    (hs : settle d survey true pieces namer reversed = .ok settled) :
    ∃ later parts, later.Sound ∧ namer.Continues later ∧
      Forall₂ (Piece.Written d true later.Gave) pieces parts ∧
      ∀ {d' : Dialect} {binds : List Node} {before : List Part},
        Assembled d' binds before reversed → Assembled d' binds (before ++ parts) settled := by
  induction pieces generalizing namer reversed with
  | nil =>
    cases hs
    exact ⟨namer, [], h, .refl _, .nil, fun assembled => by rwa [List.append_nil]⟩
  | cons piece rest ih =>
    -- one more piece of text, and then the rest
    have text {namer' later : Namer} {sql : String} {parts : List Part}
        (written : piece.Written d true later.Gave (.text sql))
        (continues' : namer.Continues namer') (sound : later.Sound)
        (continues : namer'.Continues later)
        (rests : Forall₂ (Piece.Written d true later.Gave) rest parts)
        (assembles : ∀ {d' : Dialect} {binds : List Node} {before : List Part},
          Assembled d' binds before (pushText reversed sql) →
            Assembled d' binds (before ++ parts) settled) :
        ∃ later parts, later.Sound ∧ namer.Continues later ∧
          Forall₂ (Piece.Written d true later.Gave) (piece :: rest) parts ∧
          ∀ {d' : Dialect} {binds : List Node} {before : List Part},
            Assembled d' binds before reversed → Assembled d' binds (before ++ parts) settled := by
      refine ⟨later, .text sql :: parts, sound, continues'.trans continues, .cons written rests,
        fun assembled => ?_⟩
      have next := assembles (assembled.pushText sql)
      rwa [List.append_assoc] at next
    cases piece with
    | text sql =>
      obtain ⟨later, parts, sound, continues, written, assembles⟩ := ih h hs
      exact text (.text sql) (.refl _) sound continues written assembles
    | anonymous n =>
      obtain ⟨sound', continues', known⟩ := h.assign n.id "anon"
      obtain ⟨later, parts, sound, continues, written, assembles⟩ := ih sound' hs
      exact text (.anonymous (continues.keeps known)) continues' sound continues written assembles
    | bind n b =>
      rw [settle, if_pos rfl] at hs
      cases literal : inlined d b with
      | error fault =>
        rw [literal] at hs
        cases hs
      | ok sql =>
        rw [literal] at hs
        obtain ⟨later, parts, sound, continues, written, assembles⟩ := ih h hs
        exact text (.literal rfl literal) (.refl _) sound continues written assembles

/-- A template in which values are written out is text alone: it needs no parameters, and its
statement is made of the pieces of its layout. -/
theorem exists_inlined {layout : Layout} {t : Template}
    (h : ofLayout d survey true layout = .ok t) :
    ∃ later parts, later.Sound ∧ (Namer.start survey.identifiers).Continues later ∧
      Forall₂ (Piece.Written d true later.Gave) layout.pieces parts ∧
      ∀ (d' : Dialect) (binds : List Node),
        ∃ s, t.assemble d' binds = .ok s ∧ s.MadeOf d' parts := by
  obtain ⟨later, parts, sound, continues, written, assembles⟩ :=
    written_of_settle (Namer.sound_start _) (settled_of_ofLayout h)
  refine ⟨later, parts, sound, continues, written, fun d' binds => ?_⟩
  obtain ⟨s, assembled, made⟩ := assembles (.nil d' binds)
  rw [List.reverse_reverse] at assembled
  exact ⟨s, assembled, made⟩

end Template

namespace Part

/-- Whether a parameter keeps the key that the caller gave it, or has the name that a namer gave it.
-/
def Named (namer : Namer) : Part → Prop
  | .text _ => True
  | .param a p name =>
    (p.key = some name ∧ p.isUnique = false) ∨ namer.assigned.lookup a.id = some name

theorem named_of_written {d : Dialect} {inline : Bool} {namer : Namer} {piece : Piece} {part : Part}
    (h : piece.Written d inline namer.Gave part) : part.Named namer := by
  cases h with
  | text | anonymous | literal => trivial
  | kept _ key unique => exact .inl ⟨key, unique⟩
  | synthetic _ _ known => exact .inr known

/-- All parts that pieces become are named by one namer in the end. -/
theorem exists_namer (d : Dialect) (pieces : List Piece) {namer : Namer} (h : namer.Sound) :
    ∃ later, later.Sound ∧ namer.Continues later ∧
      ∀ part ∈ ofPieces d pieces namer, part.Named later := by
  obtain ⟨later, sound, continues, written⟩ := Template.written_ofPieces d pieces h
  refine ⟨later, sound, continues, fun part mem => ?_⟩
  obtain ⟨i, hi⟩ := List.getElem?_of_mem mem
  obtain ⟨piece, -, stands⟩ := exists_getElem? written.flip hi
  exact named_of_written stands

end Part

/-- Only bound parameters have a slot. -/
theorem Node.exists_bind_of_slot_mem_marks {x n : Node} (h : .slot x ∈ n.marks) :
    ∃ p, n.kind = .bind p := by
  rcases n with ⟨i, kind, type, annotations, diagnostics⟩
  cases kind with
  | bind p => exact ⟨p, rfl⟩
  | insert insert =>
    rcases insert with ⟨target, values, _ | source, returning⟩ <;>
      simp [marks, Mark.pairs, Mark.inserted, Mark.group, Mark.enclosed] at h
  | table t =>
    rcases t with ⟨name, _ | schema, columns⟩ <;>
      simp [marks, Mark.identifier?, Mark.columnShapes] at h
  | label name | «alias» _ name | subquery _ name =>
    cases name <;> simp [marks, Mark.nameOrAnonymous] at h
  | _ =>
    simp [marks, Mark.columnShapes, Mark.option, Mark.group, Mark.pairs, Mark.enclosed,
      Mark.nullsOrder] at h

namespace Survey

/-- The keys of the bound parameters of a survey are among the identifiers. -/
def Keyed (s : Survey) : Prop :=
  ∀ x ∈ s.binds, ∀ p key, x.kind = .bind p → p.key = some key → key ∈ s.identifiers

variable {s : Survey} {n x : Node}

theorem Keyed.take (h : s.Keyed) {mark : Mark} (child : ∀ c, mark ≠ .child c)
    (slot : ∀ c, mark ≠ .slot c) : (s.take mark).Keyed := by
  cases mark with
  | put e => exact h
  | anonymous => exact h
  | name ident => exact fun x hx p key hp hk => mem_identifiers_of_mem (h x hx p key hp hk) ident
  | slot c => exact absurd rfl (slot c)
  | child c => exact absurd rfl (child c)

theorem Keyed.visit (h : s.Keyed) (n : Node) : (s.visit n).Keyed := by
  unfold Survey.visit
  split <;> exact h

theorem mem_binds_slotted (h : x ∈ (s.slotted n).binds) : x ∈ s.binds ∨ x = n := by
  unfold slotted at h
  split at h
  · exact .inl h
  · exact (List.mem_append.1 h).imp_right List.mem_singleton.1

/-- A survey takes the key of a bound parameter down together with its slot. -/
theorem Keyed.bind (h : s.Keyed) {p : BindParam} (hn : n.kind = .bind p) :
    (s.takeAll n.marks).Keyed := by
  have marks : n.marks = [.slot n, .identifier? p.key, .put (.flag p.isUnique),
      .put (.flag p.isExpanding), .put (.type n.type)] := by
    rw [Node.marks, hn]
  rw [marks]
  cases hk : p.key with
  | none =>
    intro x hx q key hq hkey
    obtain hx | rfl := mem_binds_slotted (s := s) (n := n) hx
    · exact identifiers_slotted s n ▸ h x hx q key hq hkey
    · cases hn.symm.trans hq
      cases hk.symm.trans hkey
  | some ident =>
    intro x hx q key hq hkey
    show key ∈ ((s.slotted n).identifier ident).identifiers
    obtain hx | rfl := mem_binds_slotted (s := s) (n := n) hx
    · exact mem_identifiers_of_mem (identifiers_slotted s n ▸ h x hx q key hq hkey) ident
    · cases hn.symm.trans hq
      cases hk.symm.trans hkey
      exact mem_identifiers_identifier _ _

theorem Keyed.survey (h : s.Keyed) (n : Node) : (survey s n).Keyed := by
  refine keeps_over (fun _ _ h => h) (fun s n _ _ h => Keyed.visit ?_ n) (fun s n _ h below => ?_)
    .root h
  · split <;> exact h
  · by_cases bind : ∃ p, n.kind = .bind p
    · obtain ⟨p, hn⟩ := bind
      exact h.bind hn
    · refine keeps_takeAll (fun mark hm s hs => ?_) h
      cases mark with
      | child c => exact below c hm s hs
      | slot c => exact absurd (exists_bind_of_slot_mem_marks hm) bind
      | _ => exact hs.take nofun nofun

theorem keyed_surveyed (n : Node) (bound : Nat) : (n.surveyed bound).Keyed :=
  Keyed.survey (fun _ h => absurd h List.not_mem_nil) n

end Survey

end SqlAlgebra
