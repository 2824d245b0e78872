import SqlAlgebra.Proofs.Survey.Lockstep
import SqlAlgebra.Proofs.Template.Likeness
import SqlAlgebra.Proofs.Tree.Refill
import SqlAlgebra.Template.Assembly

/-!
# What a statement is made of

A statement with placeholders consists of parts: text, and the bound parameters of a tree under
their names.  The parts say at once what the text is and what its parameters are, so the
placeholders in the text and the parameters beside it belong together one to one.  A template of one
tree that is filled for another has the parts of the first, with the parameters of the second in
their places.
-/

namespace SqlAlgebra

open List (Forall₂)
open Node

inductive Part where
  | text (sql : String)
  | param (node : Node) (param : BindParam) (name : String)

namespace Part

/-- The values that a part has bound: none, one, or as many as an expanding parameter has elements.
-/
def values : Part → List Value
  | .text _ => []
  | .param _ b _ => if b.isExpanding then b.value.expand else [b.value]

/-- The values that a part has bound, with their names. -/
def params : Part → List (String × Value)
  | .text _ => []
  | .param _ b name =>
    if b.isExpanding then Template.elements name b.value.expand else [(name, b.value)]

/-- As many gaps, with commas between them. -/
def gaps : Nat → List (Option String)
  | 0 => []
  | 1 => [none]
  | n + 2 => none :: some ", " :: gaps (n + 1)

/-- The text of a part, with gaps where its placeholders stand.  An expanding parameter is one list
in parentheses, or the empty set. -/
def outline (d : Dialect) : Part → List (Option String)
  | .text sql => [some sql]
  | .param _ b _ =>
    if b.isExpanding then
      if b.value.expand.isEmpty then [some d.emptySet]
      else some "(" :: (gaps b.value.expand.length ++ [some ")"])
    else [none]

/-- A text with placeholders in its gaps. -/
def filled : List (Option String) → List String → String
  | [], _ => ""
  | some sql :: rest, holes => sql ++ filled rest holes
  | none :: rest, hole :: holes => hole ++ filled rest holes
  | none :: rest, [] => filled rest []

/-- The parts that pieces of a layout become. -/
def ofPieces (d : Dialect) : List Piece → Namer → List Part
  | [], _ => []
  | .text sql :: rest, namer => .text (Template.escaped d sql) :: ofPieces d rest namer
  | .anonymous n :: rest, namer =>
    .text (Template.escaped d (namer.anonymous n).1) :: ofPieces d rest (namer.anonymous n).2
  | .bind n b :: rest, namer =>
    .param n b (namer.param n b).1 :: ofPieces d rest (namer.param n b).2

/-- Parts that are the same but for the bound parameters in them, which are related. -/
inductive Like (R : Node → Node → Prop) : Part → Part → Prop where
  | text (sql : String) : Like R (.text sql) (.text sql)
  | param {a b : Node} {p q : BindParam} (name : String) :
      R a b → a.kind = .bind p → b.kind = .bind q → p.Like q →
        Like R (.param a p name) (.param b q name)

variable {R : Node → Node → Prop} {d : Dialect} {ps qs : List Part} {n : Node} {b : BindParam}
  {name : String}

theorem params_of_expanding (h : b.isExpanding = true) :
    (param n b name).params = Template.elements name b.value.expand := if_pos h

theorem params_of_plain (h : b.isExpanding = false) :
    (param n b name).params = [(name, b.value)] := by
  rw [params, h]
  rfl

theorem outline_of_plain (h : b.isExpanding = false) : (param n b name).outline d = [none] := by
  rw [outline, h]
  rfl

theorem outline_of_empty (h : b.isExpanding = true) (empty : b.value.expand = []) :
    (param n b name).outline d = [some d.emptySet] := by
  rw [outline, h, empty]
  rfl

theorem outline_of_cons {item : Value} {items : List Value} (h : b.isExpanding = true)
    (expand : b.value.expand = item :: items) :
    (param n b name).outline d = some "(" :: (gaps (items.length + 1) ++ [some ")"]) := by
  rw [outline, h, expand]
  rfl

theorem map_snd_params (part : Part) : part.params.map Prod.snd = part.values := by
  cases part with
  | text sql => rfl
  | param n b name =>
    cases h : b.isExpanding with
    | false =>
      rw [params_of_plain h, values, h]
      rfl
    | true =>
      rw [params_of_expanding h, values, h, Template.elements, List.map_map]
      exact List.zipIdx_map_fst 0 _

theorem Like.mono {S : Node → Node → Prop} {x y : Part} (h : Like R x y)
    (sub : ∀ a b, R a b → S a b) : Like S x y := by
  cases h with
  | text sql => exact .text sql
  | param name same ha hb like => exact .param name (sub _ _ same) ha hb like

theorem eq_of_like (h : Forall₂ (Like fun a b => a = b) ps qs) : ps = qs := by
  induction h with
  | nil => rfl
  | cons h _ ih =>
    rw [ih]
    cases h with
    | text sql => rfl
    | param name same ha hb =>
      obtain rfl := same
      cases ha.symm.trans hb
      rfl

/-! ## Gaps -/

theorem count_gaps (n : Nat) : (gaps n).count none = n := by
  induction n using gaps.induct with
  | case1 => rfl
  | case2 => rfl
  | case3 n ih => simp [gaps, ih]

/-- A part has a gap for every value that it has bound. -/
theorem count_outline (part : Part) : (part.outline d).count none = part.params.length := by
  cases part with
  | text sql => rfl
  | param n b name =>
    cases h : b.isExpanding with
    | false =>
      rw [outline_of_plain h, params_of_plain h]
      rfl
    | true =>
      rw [params_of_expanding h, Template.elements, List.length_map, List.length_zipIdx]
      cases expand : b.value.expand with
      | nil =>
        rw [outline_of_empty h expand]
        rfl
      | cons item items =>
        rw [outline_of_cons h expand]
        simp [count_gaps]

theorem filled_append {xs ys : List (Option String)} {holes holes' : List String}
    (h : xs.count none = holes.length) :
    filled (xs ++ ys) (holes ++ holes') = filled xs holes ++ filled ys holes' := by
  induction xs generalizing holes with
  | nil =>
    obtain rfl := List.length_eq_zero_iff.1 h.symm
    exact String.empty_append.symm
  | cons x xs ih =>
    cases x with
    | some sql =>
      rw [List.count_cons_of_ne (by simp)] at h
      show sql ++ filled (xs ++ ys) (holes ++ holes') = sql ++ filled xs holes ++ filled ys holes'
      rw [ih h, String.append_assoc]
    | none =>
      cases holes with
      | nil => simp at h
      | cons hole holes =>
        rw [List.count_cons_self, List.length_cons, Nat.add_right_cancel_iff] at h
        show hole ++ filled (xs ++ ys) (holes ++ holes') =
          hole ++ filled xs holes ++ filled ys holes'
        rw [ih h, String.append_assoc]

theorem filled_gaps (holes : List String) :
    filled (gaps holes.length) holes = ", ".intercalate holes := by
  induction holes with
  | nil => rfl
  | cons hole rest ih =>
    cases rest with
    | nil =>
      rw [String.intercalate_singleton]
      exact String.append_empty
    | cons next rest =>
      rw [String.intercalate_cons_cons, ← ih, String.append_assoc]
      rfl

theorem filled_enclosed (holes : List String) :
    filled (some "(" :: (gaps holes.length ++ [some ")"])) holes =
      "(" ++ ", ".intercalate holes ++ ")" := by
  have close : filled (gaps holes.length ++ [some ")"]) (holes ++ []) =
      filled (gaps holes.length) holes ++ filled [some ")"] [] :=
    filled_append (count_gaps holes.length)
  rw [List.append_nil, filled_gaps] at close
  have last : filled [some ")"] [] = ")" := String.append_empty
  show "(" ++ filled (gaps holes.length ++ [some ")"]) holes = _
  rw [close, last, String.append_assoc]

end Part

namespace Template

variable {d : Dialect} {xs ys : List (String × Value)}

@[simp] theorem length_placeholders (d : Dialect) (before : Nat) (params : List (String × Value)) :
    (placeholders d before params).length = params.length := by
  rw [placeholders, List.length_map, List.length_zipIdx]

theorem placeholders_append (before : Nat) :
    placeholders d before (xs ++ ys) =
      placeholders d before xs ++ placeholders d (before + xs.length) ys := by
  unfold placeholders
  rw [List.zipIdx_append, List.map_append, Nat.zero_add,
    List.zipIdx_eq_map_add (l := ys) (i := xs.length), List.map_map]
  refine congrArg _ (List.map_congr_left fun entry _ => ?_)
  show d.bindStyle.placeholder (before + (xs.length + entry.2) + 1) _ = _
  rw [← Nat.add_assoc]

/-- Numbered placeholders count the parameters from one, whatever these are called. -/
theorem placeholders_of_numbered (h : d.bindStyle = .numbered) :
    placeholders d 0 xs = (List.range xs.length).map fun k => "$" ++ toString (k + 1) := by
  unfold placeholders
  rw [h, List.range_eq_range', ← List.zipIdx_map_snd 0 xs, List.map_map]
  refine List.map_congr_left fun entry _ => ?_
  show "$" ++ toString (0 + entry.2 + 1) = "$" ++ toString (entry.2 + 1)
  rw [Nat.zero_add]

/-- What stands at a slot is filled in as the segment says, as a list or on its own. -/
theorem fill_of_bind {binds : List Node} {n : Node} {b : BindParam} {slot : Nat}
    (hslot : binds[slot]? = some n) (hn : n.kind = .bind b) (before : Nat) (name : String)
    (isExpanding : Bool) :
    fill d binds before (.bind slot name isExpanding) =
      let part := Part.param n { b with isExpanding := isExpanding } name
      .ok (Part.filled (part.outline d) (placeholders d before part.params), part.params) := by
  have value : valueAt? binds slot = some b.value := by
    rw [valueAt?, hslot]
    dsimp only
    rw [hn]
  rw [fill, value]
  dsimp only
  cases isExpanding with
  | false =>
    rw [Part.outline_of_plain rfl, Part.params_of_plain rfl]
    exact congrArg (fun sql => Except.ok (sql, [(name, b.value)])) String.append_empty.symm
  | true =>
    rw [if_pos rfl, Part.params_of_expanding rfl]
    cases expand : b.value.expand with
    | nil =>
      rw [Part.outline_of_empty (b := { b with isExpanding := true }) rfl expand]
      exact congrArg (fun sql => Except.ok (sql, [])) String.append_empty.symm
    | cons item items =>
      have length : (placeholders d before (elements name (item :: items))).length =
          items.length + 1 := by
        rw [length_placeholders, elements, List.length_map, List.length_zipIdx]
        rfl
      rw [Part.outline_of_cons (b := { b with isExpanding := true }) rfl expand, ← length,
        Part.filled_enclosed]

theorem fill_of_param {binds : List Node} {n : Node} {b : BindParam} {slot : Nat}
    (hslot : binds[slot]? = some n) (hn : n.kind = .bind b) (before : Nat) (name : String) :
    fill d binds before (.bind slot name b.isExpanding) =
      .ok (Part.filled ((Part.param n b name).outline d)
        (placeholders d before (Part.param n b name).params), (Part.param n b name).params) :=
  fill_of_bind hslot hn before name b.isExpanding

end Template

/-- Whether a statement is made of some parts: these have its parameters, and its text is theirs
with the placeholders of the parameters in the gaps, which are as many. -/
structure Statement.MadeOf (s : Statement) (d : Dialect) (parts : List Part) : Prop where
  params : s.params.entries = parts.flatMap Part.params
  gaps : (parts.flatMap (Part.outline d)).count none = s.params.size
  sql : s.sql =
    Part.filled (parts.flatMap (Part.outline d)) (Template.placeholders d 0 s.params.entries)

namespace Statement.MadeOf

variable {s : Statement} {d : Dialect} {parts : List Part}

theorem empty (d : Dialect) : MadeOf ⟨"", .empty⟩ d [] := ⟨rfl, rfl, rfl⟩

theorem values (h : s.MadeOf d parts) : s.params.values = parts.flatMap Part.values := by
  rw [ParamList.values, h.params, List.map_flatMap]
  exact List.flatMap_congr fun part _ => part.map_snd_params

theorem append (h : s.MadeOf d parts) (part : Part) :
    MadeOf
      ⟨s.sql ++ Part.filled (part.outline d) (Template.placeholders d s.params.size part.params),
        ⟨s.params.entries ++ part.params⟩⟩ d (parts ++ [part]) where
  params := by
    rw [List.flatMap_append, List.flatMap_singleton, ← h.params]
  gaps := by
    rw [List.flatMap_append, List.flatMap_singleton, List.count_append, h.gaps, part.count_outline,
      ParamList.size, ParamList.size, List.length_append]
  sql := by
    have count : (parts.flatMap (Part.outline d)).count none =
        (Template.placeholders d 0 s.params.entries).length := by
      rw [h.gaps, Template.length_placeholders]
      rfl
    rw [List.flatMap_append, List.flatMap_singleton, Template.placeholders_append,
      Part.filled_append count, ← h.sql, Nat.zero_add]
    rfl

theorem appendText (h : s.MadeOf d parts) (sql : String) :
    MadeOf ⟨s.sql ++ sql, s.params⟩ d (parts ++ [.text sql]) := by
  have made := h.append (.text sql)
  have text : Part.filled ((Part.text sql).outline d)
      (Template.placeholders d s.params.size (Part.text sql).params) = sql := String.append_empty
  rw [text] at made
  rwa [show (Part.text sql).params = [] from rfl, List.append_nil] at made

end Statement.MadeOf

namespace Template

variable {d d' : Dialect} {binds : List Node} {parts : List Part} {reversed : List Segment}

theorem exists_of_map {α β ε : Type} {x : Except ε α} {g : α → β} {b : β}
    (h : x.map g = .ok b) : ∃ a, x = .ok a ∧ g a = b := by
  cases x with
  | error e => cases h
  | ok a => exact ⟨a, rfl, Except.ok.inj h⟩

theorem assemble_append (segments : List Segment) (segment : Segment) :
    assemble ⟨segments ++ [segment]⟩ d binds =
      (assemble ⟨segments⟩ d binds).bind fun s =>
        (fill d binds s.params.size segment).map fun filled =>
          ⟨s.sql ++ filled.1, ⟨s.params.entries ++ filled.2⟩⟩ := by
  unfold assemble
  rw [List.foldlM_append]
  refine congrArg (Except.bind _) (funext fun s => ?_)
  rw [List.foldlM_cons]
  cases fill d binds s.params.size segment <;> rfl

/-- Whether segments that stand in reverse are assembled to a statement made of some parts. -/
def Assembled (d : Dialect) (binds : List Node) (parts : List Part) (reversed : List Segment) :
    Prop :=
  ∃ s : Statement, assemble ⟨reversed.reverse⟩ d binds = .ok s ∧ s.MadeOf d parts

theorem Assembled.nil (d : Dialect) (binds : List Node) : Assembled d binds [] [] :=
  ⟨⟨"", .empty⟩, rfl, .empty d⟩

theorem assembled_text (segments : List Segment) (sql : String) :
    assemble ⟨(Segment.text sql :: segments).reverse⟩ d binds =
      (assemble ⟨segments.reverse⟩ d binds).map fun s => ⟨s.sql ++ sql, s.params⟩ := by
  rw [List.reverse_cons, assemble_append]
  cases assemble ⟨segments.reverse⟩ d binds with
  | error fault => rfl
  | ok s =>
    show Except.ok (Statement.mk (s.sql ++ sql) ⟨s.params.entries ++ []⟩) = _
    rw [List.append_nil]
    rfl

theorem assembled_pushText (reversed : List Segment) (sql : String) :
    assemble ⟨(pushText reversed sql).reverse⟩ d binds =
      (assemble ⟨reversed.reverse⟩ d binds).map fun s => ⟨s.sql ++ sql, s.params⟩ := by
  unfold pushText
  by_cases empty : sql.isEmpty
  · rw [if_pos empty, String.isEmpty_iff.1 empty]
    simp only [String.append_empty]
    cases assemble ⟨reversed.reverse⟩ d binds <;> rfl
  · rw [if_neg empty]
    split
    · next before rest =>
      rw [assembled_text, assembled_text]
      cases assemble ⟨rest.reverse⟩ d binds with
      | error fault => rfl
      | ok s =>
        show Except.ok (Statement.mk (s.sql ++ (before ++ sql)) s.params) = _
        rw [← String.append_assoc]
        rfl
    · exact assembled_text reversed sql

theorem Assembled.pushText (h : Assembled d binds parts reversed) (sql : String) :
    Assembled d binds (parts ++ [.text sql]) (pushText reversed sql) := by
  obtain ⟨s, assembled, made⟩ := h
  refine ⟨⟨s.sql ++ sql, s.params⟩, ?_, made.appendText sql⟩
  rw [assembled_pushText, assembled]
  rfl

theorem Assembled.param (h : Assembled d binds parts reversed) {n : Node} {b : BindParam}
    {slot : Nat} (hslot : binds[slot]? = some n) (hn : n.kind = .bind b) (name : String) :
    Assembled d binds (parts ++ [.param n b name]) (.bind slot name b.isExpanding :: reversed) := by
  obtain ⟨s, assembled, made⟩ := h
  refine ⟨_, ?_, made.append (.param n b name)⟩
  rw [List.reverse_cons, assemble_append, assembled]
  show (fill d binds s.params.size _).map _ = _
  rw [fill_of_param hslot hn]
  rfl

/-- The segments of a template are its pieces as they were settled. -/
theorem settled_of_ofLayout {survey : Survey} {inline : Bool} {layout : Layout} {t : Template}
    (h : ofLayout d survey inline layout = .ok t) :
    settle d survey inline layout.pieces (.start survey.identifiers) [] =
      .ok t.segments.reverse := by
  unfold ofLayout at h
  split at h
  · cases h
  · next reversed settled =>
    split at h
    · cases h
    · cases h
      rw [settled, List.reverse_reverse]

/-- A template is made of a layout that did not fail. -/
theorem fault_of_ofLayout {survey : Survey} {inline : Bool} {layout : Layout} {t : Template}
    (h : ofLayout d survey inline layout = .ok t) : layout.fault = none := by
  unfold ofLayout at h
  split at h
  · cases h
  · split at h
    · cases h
    · assumption

/-- Settled pieces are assembled to parts that are like theirs, if the parameter at the slot of each
bound parameter among them is related to it. -/
theorem Assembled.settle {R : Node → Node → Prop} {survey : Survey} {pieces : List Piece}
    {namer : Namer} {settled : List Segment} (h : Assembled d binds parts reversed)
    (slots : ∀ n b, .bind n b ∈ pieces → ∀ slot, survey.slot? n = some slot →
      ∃ n' b', binds[slot]? = some n' ∧ n'.kind = .bind b' ∧ n.kind = .bind b ∧ R n n' ∧ b.Like b')
    (hs : settle d' survey false pieces namer reversed = .ok settled) :
    ∃ parts', Forall₂ (Part.Like R) (Part.ofPieces d' pieces namer) parts' ∧
      Assembled d binds (parts ++ parts') settled := by
  induction pieces generalizing namer reversed parts with
  | nil =>
    cases hs
    exact ⟨[], .nil, by rwa [List.append_nil]⟩
  | cons piece rest ih =>
    have later {n : Node} {b : BindParam} (hb : .bind n b ∈ rest) :=
      slots n b (List.mem_cons_of_mem _ hb)
    cases piece with
    | text sql =>
      obtain ⟨parts', like, assembled⟩ := ih (h.pushText _) (fun _ _ => later) hs
      exact ⟨_, .cons (.text _) like, by rwa [List.append_assoc] at assembled⟩
    | anonymous n =>
      obtain ⟨parts', like, assembled⟩ := ih (h.pushText _) (fun _ _ => later) hs
      exact ⟨_, .cons (.text _) like, by rwa [List.append_assoc] at assembled⟩
    | bind n b =>
      rw [Template.settle, if_neg Bool.false_ne_true] at hs
      cases found : survey.slot? n with
      | none =>
        rw [found] at hs
        cases hs
      | some slot =>
        rw [found] at hs
        obtain ⟨n', b', hslot, hn', hn, hR, like⟩ := slots n b List.mem_cons_self slot found
        have next := h.param hslot hn' (namer.param n b).1
        rw [← like.isExpanding] at next
        obtain ⟨parts', likes, assembled⟩ := ih next (fun _ _ => later) hs
        exact ⟨_, .cons (.param _ hR hn hn' like) likes, by rwa [List.append_assoc] at assembled⟩

end Template

/-- Whether the node of a piece is one of a tree, without a name of its own or a bound parameter. -/
def Piece.IsOf (n : Node) : Piece → Prop
  | .text _ => True
  | .anonymous a => a.isNameless ∧ Occurs a n
  | .bind a p => a.kind = .bind p ∧ Occurs a n

namespace Node

variable {m n a b : Node} {R S T : Node → Node → Prop} {d d' : Dialect} {bound : Nat}
  {t : Template} {s : Statement}

/-- The nodes of a tree beside themselves. -/
def Same (n a b : Node) : Prop := a = b ∧ Occurs a n

theorem simulation_same (n : Node) : Simulation (Same n) (Same n) (Same n) where
  like {a b} h := by
    obtain ⟨rfl, ha⟩ := h
    exact ⟨Kind.like_self fun c hc => ⟨rfl, .trans (.deeper hc .root) ha⟩, rfl⟩
  fromPlace h := h
  target h := h
  tracked h h' _ := by rw [h.1, h'.1]
  places h h' := by rw [h.1, h'.1]
  provided h h' := by rw [h.1, h'.1]

theorem exists_getElem? {α β : Type} {P : α → β → Prop} {xs : List α} {ys : List β} {i : Nat}
    {x : α} (h : Forall₂ P xs ys) (hx : xs[i]? = some x) : ∃ y, ys[i]? = some y ∧ P x y := by
  induction h generalizing i with
  | nil => cases hx
  | @cons _ y _ _ hxy _ ih =>
    cases i with
    | zero =>
      cases hx
      exact ⟨y, rfl, hxy⟩
    | succ i => exact ih hx

/-- The nodes in the layout of a tree are nodes of the tree. -/
theorem isOf_of_mem_pieces {piece : Piece} (h : piece ∈ (Layout.statement d [] n).pieces) :
    piece.IsOf n := by
  have like : Layout.Like n.Same (Layout.statement d [] n) (Layout.statement d [] n) :=
    ((simulation_same n).rendered d ⟨rfl, .root⟩).statement .nil
  obtain ⟨i, hi⟩ := List.getElem?_of_mem h
  obtain ⟨piece, -, alike⟩ := exists_getElem? like.pieces hi
  cases alike with
  | text sql => trivial
  | anonymous same nameless => exact ⟨nameless, same.2⟩
  | bind same ha => exact ⟨ha, same.2⟩

theorem occurs_of_mem_pieces {p : BindParam} (h : .bind a p ∈ (Layout.statement d [] n).pieces) :
    a.kind = .bind p ∧ Occurs a n := isOf_of_mem_pieces h

/-- The parts of a statement, as a tree gives them. -/
def parts (n : Node) (d : Dialect) (bound : Nat) : List Part :=
  Part.ofPieces d (Layout.statement d [] n).pieces (.start (n.surveyed bound).identifiers)

/-- Bound parameters that are related and have the same slot in the surveys of two trees. -/
def AtSlot (R : Node → Node → Prop) (m n : Node) (bound : Nat) (a b : Node) : Prop :=
  R a b ∧ ∃ slot : Nat, (m.surveyed bound).binds[slot]? = some a ∧
    (n.surveyed bound).binds[slot]? = some b

/-- The node at the slot of a bound parameter is that parameter, and so it is in a tree that
corresponds. -/
theorem exists_atSlot (hR : Correspondence R) (hmn : R m n) (left : ∀ {a b}, R a b → Occurs a m)
    (coherent : m.IsCoherent) (ha : Occurs a m) {slot : Nat}
    (h : (m.surveyed bound).slot? a = some slot) :
    ∃ b, (n.surveyed bound).binds[slot]? = some b ∧ AtSlot R m n bound a b := by
  have found := Survey.slot?_eq_some h
  rw [List.getElem?_map, Option.map_eq_some_iff] at found
  obtain ⟨c, hc, same⟩ := found
  obtain ⟨b, hb, hcb, -⟩ := exists_getElem? (hR.surveyed hmn bound).binds hc
  obtain rfl := coherent c a (left hcb) ha same
  exact ⟨b, hb, hcb, slot, hc, hb⟩

/-- Whether parts are those of a tree `m` with the bound parameters of a tree `n` in the places of
the ones that correspond to them. -/
structure Fills (R : Node → Node → Prop) (m n : Node) (d : Dialect) (bound : Nat)
    (parts : List Part) : Prop where
  correspondence : Correspondence R
  roots : R m n
  inside : ∀ {a b : Node}, R a b → Occurs b n
  parts : Forall₂ (Part.Like (AtSlot R m n bound)) (m.parts d bound) parts

/-- A template is assembled to the parts of its tree, with the corresponding bound parameters of the
tree that it is filled for. -/
theorem exists_fills (hR : Correspondence R) (hmn : R m n)
    (occurs : ∀ {a b}, R a b → Occurs a m ∧ Occurs b n) (coherent : m.IsCoherent)
    (ht : m.template d' (m.surveyed bound) false = .ok t) :
    ∃ parts s, Fills R m n d' bound parts ∧ t.assemble d (n.surveyed bound).binds = .ok s ∧
      s.MadeOf d parts := by
  have start : Template.Assembled d (n.surveyed bound).binds [] [] := .nil d _
  obtain ⟨parts, like, s, assembled, made⟩ := start.settle (R := AtSlot R m n bound) (by
    intro a p mem slot found
    obtain ⟨ha, occursIn⟩ := occurs_of_mem_pieces mem
    obtain ⟨b, hb, hab⟩ := exists_atSlot hR hmn (fun h => (occurs h).1) coherent occursIn found
    have kinds := (hR.like hab.1).kind
    rw [ha] at kinds
    generalize hk : b.kind = k at kinds
    cases kinds with
    | @bind _ q hpq => exact ⟨b, q, hb, hk, ha, hab, hpq⟩) (Template.settled_of_ofLayout ht)
  rw [List.reverse_reverse] at assembled
  exact ⟨parts, s, ⟨hR, hmn, fun h => (occurs h).2, like⟩, assembled, made⟩

/-- A template that is filled for the tree that it was made for is assembled to the parts of this
tree. -/
theorem exists_fills_same (coherent : n.IsCoherent)
    (ht : n.template d' (n.surveyed bound) false = .ok t) :
    Fills n.Same n n d' bound (n.parts d' bound) ∧
      ∃ s, t.assemble d (n.surveyed bound).binds = .ok s ∧ s.MadeOf d (n.parts d' bound) := by
  obtain ⟨parts, s, fills, assembled, made⟩ := exists_fills (d := d)
    (simulation_same n).correspondence ⟨rfl, .root⟩ (fun same => ⟨same.2, same.1 ▸ same.2⟩)
    coherent ht
  obtain rfl : n.parts d' bound = parts :=
    Part.eq_of_like (fills.parts.imp fun _ _ like => like.mono fun _ _ h => h.1.1)
  exact ⟨fills, s, assembled, made⟩

/-- Whether a tree has all the bound parameters of some parts. -/
def Binds (n : Node) (parts : List Part) : Prop :=
  ∀ a b name, .param a b name ∈ parts → a.kind = .bind b ∧ Occurs a n

/-- A part with a parameter of `n` stands for one with the parameter of `m` at the same slot. -/
theorem Fills.exists_param {parts : List Part} (h : Fills R m n d bound parts) {q : BindParam}
    {name : String} (hb : .param b q name ∈ parts) :
    ∃ a p, .param a p name ∈ m.parts d bound ∧ AtSlot R m n bound a b ∧ a.kind = .bind p ∧
      b.kind = .bind q ∧ p.Like q := by
  obtain ⟨i, hi⟩ := List.getElem?_of_mem hb
  obtain ⟨part, hpart, like⟩ := exists_getElem? h.parts.flip hi
  cases like with
  | param _ at_ ha hb like => exact ⟨_, _, List.mem_of_getElem? hpart, at_, ha, hb, like⟩

theorem Fills.binds {parts : List Part} (h : Fills R m n d bound parts) : n.Binds parts := by
  intro b q name mem
  obtain ⟨a, p, -, ⟨hab, -⟩, -, hb, -⟩ := h.exists_param mem
  exact ⟨hb, h.inside hab⟩

end Node

end SqlAlgebra
