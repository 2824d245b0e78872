import SqlAlgebra.Compiler
import SqlAlgebra.Dialect.Database
import SqlAlgebra.Proofs.Coercion.Membership
import SqlAlgebra.Proofs.Layout.Render
import SqlAlgebra.Proofs.Reading.ListItems
import SqlAlgebra.Proofs.Template.Inline
import SqlAlgebra.Proofs.Template.Percent

/-!
# Lists in a statement

A list on the right of IN stands in a statement with one item for each of its elements, in their
order, whether it is one expanding parameter or a list of clauses: a gap with its value for a plain
value, NULL for no value, and a column expression as it is rendered elsewhere.  Whoever reads the
statement finds these items between the commas unless a column expression is no single item itself.
-/

namespace SqlAlgebra

open List (Forall₂)
open Reading (Characters IsItem listItems? separated)

namespace Layout

variable {x y : Layout} {xs : List Layout} {d : Dialect} {frames : List Frame}

theorem fault_append : (x ++ y).fault = none ↔ x.fault = none ∧ y.fault = none := by
  rcases x with ⟨pieces, _ | fault⟩
  · exact ⟨fun h => ⟨rfl, h⟩, fun h => h.2⟩
  · exact ⟨nofun, fun h => nomatch h.1⟩

theorem pieces_append (h : x.fault = none) : (x ++ y).pieces = x.pieces ++ y.pieces := by
  rcases x with ⟨pieces, _ | fault⟩
  · rfl
  · cases h

theorem fault_parenthesized : (parenthesized x).fault = none ↔ x.fault = none := by
  rw [parenthesized, fault_append, fault_append]
  exact ⟨fun h => h.1.2, fun h => ⟨⟨rfl, h⟩, rfl⟩⟩

theorem fault_separated (separator : String) :
    (separated separator xs).fault = none ↔ ∀ x ∈ xs, x.fault = none := by
  induction xs with
  | nil => exact iff_of_true rfl nofun
  | cons x xs ih =>
    rw [List.forall_mem_cons, ← ih]
    cases xs with
    | nil => exact ⟨fun h => ⟨h, rfl⟩, fun h => h.1⟩
    | cons next rest =>
      rw [separated, fault_append, fault_append]
      · exact ⟨fun h => ⟨h.1.1, h.2⟩, fun h => ⟨⟨h.1, rfl⟩, h.2⟩⟩
      · exact List.cons_ne_nil _ _

theorem expression_of_null {n : Node} (h : n.kind = .null) (outer : Nat) :
    expression d frames outer n = text "NULL" := by
  rcases n with ⟨id, kind, type, annotations, diagnostics⟩
  cases h
  rw [expression]

theorem expression_of_bind {n : Node} {b : BindParam} (h : n.kind = .bind b) (outer : Nat) :
    expression d frames outer n = piece (.bind n b) := by
  rcases n with ⟨id, kind, type, annotations, diagnostics⟩
  cases h
  rw [expression]

theorem expression_of_grouping {n element : Node} (h : n.kind = .grouping element) (outer : Nat) :
    expression d frames outer n = parenthesized (expression d frames 0 element) := by
  rcases n with ⟨id, kind, type, annotations, diagnostics⟩
  cases h
  rw [expression]

/-- A list of clauses with commas between them, where it needs no parentheses. -/
theorem expression_of_commas {n : Node} {clauses : List Node} (h : n.kind = .clauseList .comma clauses)
    (some : clauses ≠ []) :
    expression d frames 0 n = separated ", " (clauses.map (expression d frames 0)) := by
  rcases n with ⟨id, kind, type, annotations, diagnostics⟩
  cases h
  match clauses, some with
  | [single], _ =>
    rw [expression]
    rfl
  | first :: second :: rest, _ =>
    rw [expression]
    show separated ", " (expressions d frames 0 _) = _
    rw [expressions_eq]

end Layout

/-- A text with gaps for its parameters, and the values of these. -/
structure Excerpt where
  outline : List (Option String)
  values : List Value

namespace Excerpt

/-- What parts of a statement say. -/
def ofParts (d : Dialect) (parts : List Part) : Excerpt :=
  ⟨parts.flatMap (Part.outline d), parts.flatMap Part.values⟩

def characters (excerpt : Excerpt) : Characters := Part.characters excerpt.outline

end Excerpt

/-- Outlines with commas between them. -/
def commas : List (List (Option String)) → List (Option String)
  | [] => []
  | [single] => single
  | first :: rest => first ++ some ", " :: commas rest

/-- Groups of parts with commas between them. -/
def commaParts : List (List Part) → List Part
  | [] => []
  | [single] => single
  | first :: rest => first ++ .text ", " :: commaParts rest

namespace ListEntry

/-- How an element of a list stands in a statement in which nodes have names: a plain value as a gap
with the value, no value as NULL, and a column expression as it is rendered. -/
inductive Reads (d : Dialect) (frames : List Frame) (named : Node → String → Prop) :
    ListEntry → Excerpt → Prop where
  | null : Reads d frames named .null ⟨[some "NULL"], []⟩
  | value (value : Value) : Reads d frames named (.value value) ⟨[none], [value]⟩
  | element {n : Node} {parts : List Part} :
      Forall₂ (Piece.Written d false named) (Layout.expression d frames 0 n).pieces parts →
        Reads d frames named (.element n) (.ofParts d parts)

/-- Whether a node is rendered as a list of elements, wherever it stands. -/
structure Shows (entries : List ListEntry) (n : Node) : Prop where
  fault : ∀ d frames outer, (Layout.expression d frames outer n).fault = none ↔
    ∀ m, .element m ∈ entries → (Layout.expression d frames 0 m).fault = none
  /-- A list of nothing is the empty set of the dialect. -/
  empty : entries = [] → ∀ d frames outer named parts,
    Forall₂ (Piece.Written d false named) (Layout.expression d frames outer n).pieces parts →
      Excerpt.ofParts d parts = ⟨[some d.emptySet], []⟩
  /-- Any other list has one text between parentheses for each of its elements.  These texts are the
  items that are read there exactly if what stands for a column expression is an item itself. -/
  reads : entries ≠ [] → ∀ d frames outer named parts,
    (Layout.expression d frames outer n).fault = none →
    Forall₂ (Piece.Written d false named) (Layout.expression d frames outer n).pieces parts →
      ∃ excerpts, Forall₂ (Reads d frames named) entries excerpts ∧
        Excerpt.ofParts d parts = ⟨some "(" :: (commas (excerpts.map Excerpt.outline) ++ [some ")"]),
          excerpts.flatMap Excerpt.values⟩ ∧
        (listItems? (Part.characters (commas (excerpts.map Excerpt.outline))) =
            some (excerpts.map Excerpt.characters) ↔
          ∀ m excerpt, (.element m, excerpt) ∈ entries.zip excerpts → IsItem excerpt.characters)

variable {d : Dialect} {frames : List Frame} {named : Node → String → Prop} {entry : ListEntry}
  {entries : List ListEntry} {excerpt : Excerpt} {excerpts : List Excerpt} {n : Node}
  {clauses : List Node} {parts : List Part} {groups : List (List Part)}

/-! ## Commas -/

theorem characters_commas (outlines : List (List (Option String))) :
    Part.characters (commas outlines) = separated (outlines.map Part.characters) := by
  induction outlines with
  | nil => rfl
  | cons first rest ih =>
    cases rest with
    | nil => rfl
    | cons next rest =>
      rw [commas, List.map_cons, List.map_cons, separated, ← List.map_cons, ← ih]
      · exact List.flatMap_append
      · exact List.cons_ne_nil _ _
      · exact List.cons_ne_nil _ _

theorem ofParts_commaParts (groups : List (List Part)) :
    Excerpt.ofParts d (commaParts groups) =
      ⟨commas ((groups.map (Excerpt.ofParts d)).map Excerpt.outline),
        (groups.map (Excerpt.ofParts d)).flatMap Excerpt.values⟩ := by
  induction groups with
  | nil => rfl
  | cons first rest ih =>
    cases rest with
    | nil =>
      simp [commaParts, commas, Excerpt.ofParts]
    | cons next rest =>
      have outline := congrArg Excerpt.outline ih
      have values := congrArg Excerpt.values ih
      simp only [Excerpt.ofParts, List.map_cons] at outline values
      simp [commaParts, commas, Excerpt.ofParts, outline, values, Part.outline, Part.values]

theorem commas_gaps (values : List Value) :
    commas (values.map fun _ => [none]) = Part.gaps values.length := by
  induction values with
  | nil => rfl
  | cons value values ih =>
    cases values with
    | nil => rfl
    | cons next values =>
      rw [List.map_cons, List.map_cons, commas]
      · exact congrArg (none :: some ", " :: ·) ih
      · exact List.cons_ne_nil _ _

/-! ## Items -/

theorem isItem_null : IsItem (Part.characters [some "NULL"]) := by
  unfold IsItem
  decide

theorem isItem_value : IsItem (Part.characters [none]) := by
  unfold IsItem
  decide

/-- What stands for the elements of a list are its items, unless a column expression is none. -/
theorem listItems?_commas (h : Forall₂ (Reads d frames named) entries excerpts)
    (some : entries ≠ []) :
    listItems? (Part.characters (commas (excerpts.map Excerpt.outline))) =
        .some (excerpts.map Excerpt.characters) ↔
      ∀ m excerpt, (.element m, excerpt) ∈ entries.zip excerpts → IsItem excerpt.characters := by
  have texts : excerpts.map Excerpt.characters ≠ [] := by
    cases h with
    | nil => exact absurd rfl some
    | cons => exact List.cons_ne_nil _ _
  have joined : Part.characters (commas (excerpts.map Excerpt.outline)) =
      separated (excerpts.map Excerpt.characters) := by
    rw [characters_commas, List.map_map]
    rfl
  rw [joined, Reading.listItems?_separated texts, List.forall_mem_map]
  constructor
  · intro items m excerpt mem
    exact items excerpt (List.of_mem_zip mem).2
  · intro elements excerpt mem
    obtain ⟨k, hk, rfl⟩ := List.getElem_of_mem mem
    have hk' : k < entries.length := h.length_eq ▸ hk
    have paired : (entries[k], excerpts[k]) ∈ entries.zip excerpts := by
      refine List.mem_iff_getElem.2 ⟨k, ?_, List.getElem_zip⟩
      rw [List.length_zip]
      omega
    have reads : Reads d frames named entries[k] excerpts[k] := h.get hk' hk
    generalize entries[k] = entry at paired reads
    generalize excerpts[k] = excerpt at paired reads
    cases reads with
    | null => exact isItem_null
    | value v => exact isItem_value
    | element written => exact elements _ _ paired

/-! ## Parts of layouts -/

theorem exists_of_written_append {x y : Layout} (sound : x.fault = none)
    (h : Forall₂ (Piece.Written d false named) (x ++ y).pieces parts) :
    ∃ ps qs, parts = ps ++ qs ∧ Forall₂ (Piece.Written d false named) x.pieces ps ∧
      Forall₂ (Piece.Written d false named) y.pieces qs := by
  rw [Layout.pieces_append sound] at h
  refine ⟨parts.take x.pieces.length, parts.drop x.pieces.length, (List.take_append_drop _ _).symm,
    ?_, ?_⟩
  · exact (List.forall₂_take_append parts x.pieces y.pieces h.flip).flip
  · exact (List.forall₂_drop_append parts x.pieces y.pieces h.flip).flip

theorem eq_of_written_text {sql : String} (plain : '%' ∉ sql.toList)
    (h : Forall₂ (Piece.Written d false named) (Layout.text sql).pieces parts) :
    parts = [.text sql] := by
  cases h with
  | cons written rest =>
    cases rest
    cases written
    rw [Template.escaped_of_notMem plain]

theorem exists_of_written_bind {b : BindParam}
    (h : Forall₂ (Piece.Written d false named) (Layout.piece (.bind n b)).pieces parts) :
    ∃ name, parts = [.param n b name] := by
  cases h with
  | cons written rest =>
    cases rest
    cases written with
    | kept _ _ _ | synthetic _ _ _ => exact ⟨_, rfl⟩
    | literal inline _ => cases inline

theorem exists_of_written_separated {xs : List Layout} (sound : ∀ x ∈ xs, x.fault = none)
    (h : Forall₂ (Piece.Written d false named) (Layout.separated ", " xs).pieces parts) :
    ∃ groups, parts = commaParts groups ∧
      Forall₂ (fun x ps => Forall₂ (Piece.Written d false named) x.pieces ps) xs groups := by
  induction xs generalizing parts with
  | nil =>
    cases h
    exact ⟨[], rfl, .nil⟩
  | cons x xs ih =>
    obtain ⟨first, rest⟩ := List.forall_mem_cons.1 sound
    cases xs with
    | nil => exact ⟨[parts], rfl, .cons h .nil⟩
    | cons next xs =>
      rw [Layout.separated] at h
      · obtain ⟨ps, qs, rfl, front, back⟩ :=
          exists_of_written_append (Layout.fault_append.2 ⟨first, rfl⟩) h
        obtain ⟨own, comma, rfl, written, between⟩ := exists_of_written_append first front
        obtain rfl := eq_of_written_text (by decide) between
        obtain ⟨groups, rfl, each⟩ := ih rest back
        refine ⟨own :: groups, ?_, .cons written each⟩
        cases each with
        | cons _ _ => exact List.append_assoc _ _ _
      · exact List.cons_ne_nil _ _

theorem exists_of_written_parenthesized {x : Layout} (sound : x.fault = none)
    (h : Forall₂ (Piece.Written d false named) (Layout.parenthesized x).pieces parts) :
    ∃ ps, parts = .text "(" :: (ps ++ [.text ")"]) ∧
      Forall₂ (Piece.Written d false named) x.pieces ps := by
  obtain ⟨front, close, rfl, opened, closing⟩ :=
    exists_of_written_append (Layout.fault_append.2 ⟨rfl, sound⟩) h
  obtain ⟨opening, ps, rfl, opens, inside⟩ := exists_of_written_append rfl opened
  obtain rfl := eq_of_written_text (by decide) opens
  obtain rfl := eq_of_written_text (by decide) closing
  exact ⟨ps, rfl, inside⟩

/-! ## Clauses -/

theorem fault_of_isClause (h : IsClause entry n) :
    (Layout.expression d frames 0 n).fault = none ↔
      ∀ m, entry = .element m → (Layout.expression d frames 0 m).fault = none := by
  cases h with
  | null hn =>
    rw [Layout.expression_of_null hn]
    exact iff_of_true rfl nofun
  | value hn =>
    rw [Layout.expression_of_bind hn]
    exact iff_of_true rfl nofun
  | element n => exact ⟨fun sound m same => (element.inj same) ▸ sound, fun sound => sound n rfl⟩

theorem fault_of_clauses (h : Forall₂ IsClause entries clauses) :
    (∀ n ∈ clauses, (Layout.expression d frames 0 n).fault = none) ↔
      ∀ m, .element m ∈ entries → (Layout.expression d frames 0 m).fault = none := by
  induction h with
  | nil => exact iff_of_true nofun nofun
  | cons first _ ih =>
    rw [List.forall_mem_cons, fault_of_isClause first, ih]
    constructor
    · rintro ⟨own, rest⟩ m mem
      obtain same | mem := List.mem_cons.1 mem
      · exact own m same.symm
      · exact rest m mem
    · intro all
      exact ⟨fun m same => all m (same ▸ List.mem_cons_self),
        fun m mem => all m (List.mem_cons_of_mem _ mem)⟩

/-- A clause stands in a statement as the element that it was made for. -/
theorem reads_of_isClause (h : IsClause entry n)
    (written : Forall₂ (Piece.Written d false named) (Layout.expression d frames 0 n).pieces parts) :
    Reads d frames named entry (.ofParts d parts) := by
  cases h with
  | null hn =>
    rw [Layout.expression_of_null hn] at written
    obtain rfl := eq_of_written_text (by decide) written
    exact .null
  | value hn =>
    rw [Layout.expression_of_bind hn] at written
    obtain ⟨name, rfl⟩ := exists_of_written_bind written
    exact .value _
  | element n => exact .element written

theorem reads_of_clauses (h : Forall₂ IsClause entries clauses)
    (written : Forall₂ (fun x ps => Forall₂ (Piece.Written d false named) x.pieces ps)
      (clauses.map (Layout.expression d frames 0)) groups) :
    Forall₂ (Reads d frames named) entries (groups.map (Excerpt.ofParts d)) := by
  induction h generalizing groups with
  | nil =>
    cases written
    exact .nil
  | cons first _ ih =>
    cases written with
    | cons own rest => exact .cons (reads_of_isClause first own) (ih rest)

theorem reads_values (values : List Value) :
    Forall₂ (Reads d frames named) (values.map .value) (values.map fun v => ⟨[none], [v]⟩) := by
  induction values with
  | nil => exact .nil
  | cons v _ ih => exact .cons (.value v) ih

/-- An expanding parameter shows its values. -/
theorem shows_of_values {key : Option String} {values : List Value}
    (hn : n.kind = .bind ⟨key, .list values, true, true, false⟩) :
    Shows (values.map .value) n where
  fault d frames outer := by
    rw [Layout.expression_of_bind hn]
    refine iff_of_true rfl fun m mem => ?_
    obtain ⟨_, -, same⟩ := List.mem_map.1 mem
    cases same
  empty none d frames outer named parts written := by
    obtain rfl := List.map_eq_nil_iff.1 none
    rw [Layout.expression_of_bind hn] at written
    obtain ⟨name, rfl⟩ := exists_of_written_bind written
    rfl
  reads some d frames outer named parts _ written := by
    rw [Layout.expression_of_bind hn] at written
    obtain ⟨name, rfl⟩ := exists_of_written_bind written
    have reads : Forall₂ (Reads d frames named) (values.map .value)
        (values.map fun v => ⟨[none], [v]⟩) := reads_values values
    refine ⟨_, reads, ?_, listItems?_commas reads some⟩
    cases values with
    | nil => exact absurd rfl some
    | cons v values =>
      have outlines : ((v :: values).map fun v => (⟨[none], [v]⟩ : Excerpt)).map Excerpt.outline =
          (v :: values).map fun _ => [none] := List.map_map
      have own : ((v :: values).map fun v => (⟨[none], [v]⟩ : Excerpt)).flatMap Excerpt.values =
          v :: values := by
        rw [List.flatMap_map]
        exact List.flatMap_singleton' _
      rw [outlines, own, commas_gaps]
      show Excerpt.mk (_ ++ []) (_ ++ []) = _
      rw [List.append_nil, List.append_nil]
      rfl

/-- Clauses in parentheses show the elements that they stand for. -/
theorem shows_of_clauses {list : Node} (some : entries ≠ []) (each : Forall₂ IsClause entries clauses)
    (hlist : list.kind = .clauseList .comma clauses) (hn : n.kind = .grouping list) :
    Shows entries n := by
  have clause : clauses ≠ [] := by
    cases each with
    | nil => exact absurd rfl some
    | cons => exact List.cons_ne_nil _ _
  have layout (d : Dialect) (frames : List Frame) (outer : Nat) :
      Layout.expression d frames outer n = Layout.parenthesized
        (Layout.separated ", " (clauses.map (Layout.expression d frames 0))) := by
    rw [Layout.expression_of_grouping hn, Layout.expression_of_commas hlist clause]
  refine ⟨fun d frames outer => ?_, fun none => absurd none some, ?_⟩
  · rw [layout, Layout.fault_parenthesized, Layout.fault_separated, List.forall_mem_map,
      fault_of_clauses each]
  · intro _ d frames outer named parts sound written
    rw [layout, Layout.fault_parenthesized] at sound
    rw [layout] at written
    obtain ⟨inside, rfl, inner⟩ := exists_of_written_parenthesized sound written
    obtain ⟨groups, rfl, apart⟩ :=
      exists_of_written_separated ((Layout.fault_separated _).1 sound) inner
    have reads := reads_of_clauses each apart
    refine ⟨_, reads, ?_, listItems?_commas reads some⟩
    have own := ofParts_commaParts (d := d) groups
    have outline := congrArg Excerpt.outline own
    have values := congrArg Excerpt.values own
    simp only [Excerpt.ofParts] at outline values
    simp [Excerpt.ofParts, outline, values, Part.outline, Part.values]

theorem IsList.shows (h : IsList entries n) : Shows entries n := by
  cases h with
  | values hn => exact shows_of_values hn
  | clauses some each hlist hn => exact shows_of_clauses some each hlist hn

/-- A list is no pair of bounds. -/
theorem IsList.bounds?_eq_none (h : IsList entries n) (op : BinaryOp) :
    Layout.bounds? op n = none := by
  unfold Layout.bounds?
  cases h with
  | values hn | clauses _ _ _ hn =>
    rw [hn]
    cases op <;> rfl

end ListEntry

namespace Node

/-- A list in IN is refused as a whole if anything in it is no plain value, no column expression and
not NULL.  Otherwise it becomes the right operand, which shows its elements, and nothing is reported.
-/
theorem membership_shows_list (left : Node) (op : BinaryOp) (items : List Input) (i : Identity) :
    (∀ item ∈ items, item.listElement? = none →
      left.membership op (.list items) i =
        .error ((⟨.inElement, { left := some left, operator := some op }⟩ : Site).unexpected
          (.list items) none)) ∧
    ∀ entries, items.map Input.listElement? = entries.map some →
      ∃ n right next, left.membership op (.list items) i = .ok (n, next) ∧
        n.kind = .binary left op right ∧ n.diagnostics = [] ∧ ListEntry.Shows entries right ∧
        ∀ d frames symbol, Layout.operation d frames left op symbol right =
          Layout.expression d frames op.precedence left ++ Layout.text (" " ++ symbol ++ " ") ++
            Layout.expression d frames (Layout.rightStrength op) right := by
  refine ⟨fun item mem refused => membership_list_eq_error mem refused i, fun entries h => ?_⟩
  obtain ⟨n, right, next, run, kind, quiet, list⟩ := @membership_list left op items entries h i
  refine ⟨n, right, next, run, kind, quiet, list.shows, fun d frames symbol => ?_⟩
  exact Layout.operation_of_none (list.bounds?_eq_none op)

/-! ### A column beside a value and NULL, and two columns in one element -/

section Sample

def sampleRows : Node := ⟨0, .table ⟨"u", none, [("a", .integer), ("b", .integer)]⟩, .null, [], []⟩

def sampleFirst : Node := ⟨1, .column "a" (some sampleRows) false, .integer, [], []⟩

/-- All columns of a table, as GROUP BY takes them. -/
def sampleColumns : Node :=
  ⟨3, .clauseList .comma [sampleFirst, ⟨2, .column "b" (some sampleRows) false, .integer, [], []⟩],
    .null, [], []⟩

theorem shows_sampleFirst :
    let items : List Input := [.node sampleFirst, .integer 1, .nothing]
    let entries : List ListEntry := [.element sampleFirst, .value (.integer 1), .null]
    items.map Input.listElement? = entries.map some ∧
      ∃ n right next, sampleFirst.membership .member (.list items) 4 = .ok (n, next) ∧
        n.kind = .binary sampleFirst .member right ∧ ListEntry.Shows entries right ∧
        (Input.node sampleRows).listElement? = none ∧
        ∃ e, sampleFirst.membership .notMember (.list [.integer 1, .node sampleRows]) 4 = .error e := by
  intro items entries
  obtain ⟨n, right, next, run, kind, -, shows, -⟩ :=
    (membership_shows_list sampleFirst .member items 4).2 entries rfl
  have refused := (membership_shows_list sampleFirst .notMember [.integer 1, .node sampleRows] 4).1
    (.node sampleRows) (List.mem_cons_of_mem _ List.mem_cons_self) rfl
  exact ⟨rfl, n, right, next, run, kind, shows, rfl, _, refused⟩

/-- An element that is a list of columns itself stands in the list without parentheses, so one item
more is read than there are elements. -/
theorem length_listItems?_sampleColumns :
    let items : List Input := [.node sampleColumns, .integer 1, .nothing]
    (items.map Input.listElement?).all Option.isSome = true ∧
      ∃ n next, sampleFirst.membership .member (.list items) 4 = .ok (n, next) ∧
        ((Compiler.new {}).compile (fun _ _ => pure .nothing) n .postgres {} next).1.toOption.map
          (fun out => out.1.sql) = some "u.a IN (u.a, u.b, $1, NULL)" ∧
        (listItems? ("u.a, u.b, $1, NULL".toList.map some)).map List.length = some 4 ∧
        items.length = 3 :=
  ⟨rfl, _, _, rfl, by decide +kernel, by decide +kernel, rfl⟩

end Sample

end Node

end SqlAlgebra
