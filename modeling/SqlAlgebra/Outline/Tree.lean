import SqlAlgebra.Json.Basic
import SqlAlgebra.Outline.Label
import SqlAlgebra.Tree.Class

/-!
# Outlines

The outline of a tree is a JSON value that shows all of it.  Nodes are numbered as they are met, and a
node that is met again is written as its number only.  So two trees have one outline if they differ in
nothing but the identities of their nodes.
-/

namespace SqlAlgebra

/-- How a bound value, and a diagnostic, is written in an outline. -/
structure OutlineStyle where
  value : Value → Json
  diagnostic : Diagnostic → Json

namespace Outline

/-- The nodes that were met, the last one first. -/
abbrev Met := StateM (List Identity)

def natural (n : Nat) : Json := .number (.integer n)

def text? : Option String → Json
  | some s => .string s
  | none => .null

def shape (column : ColumnShape) : Json := .array [.string column.1, .string column.2.label]

def shapes (columns : List ColumnShape) : Json := .array (columns.map shape)

def notes (annotations : List (String × String)) : Json :=
  .ofMembers (annotations.map fun (key, value) => (key, .string value))

/-- A member that is left out where there is nothing to say. -/
def member? {α : Type} (key : String) (write : List α → Json) (items : List α) : List (String × Json) :=
  if items.isEmpty then [] else [(key, write items)]

end Outline

namespace Node

open Outline

mutual

def outline (style : OutlineStyle) (n : Node) : Met Json := do
  let met ← get
  match met.findIdx? (· == n.id) with
  | some later => pure (.object [("id", natural (met.length - 1 - later))])
  | none =>
    set (n.id :: met)
    let fields ← outlineFields style n
    pure (.ofMembers
      ([("id", natural met.length), ("kind", .string n.kindName), ("type", .string n.type.label)] ++
        member? "annotations" notes n.annotations ++
        member? "diagnostics" (fun ds => .array (ds.map style.diagnostic)) n.diagnostics ++ fields))
termination_by 3 * sizeOf n + 1

/-- What a node holds besides what every node has. -/
def outlineFields (style : OutlineStyle) (n : Node) : Met (List (String × Json)) := do
  match _h : n.kind with
  | .null | .truth _ => pure []
  | .bind b =>
    pure
      [("key", text? b.key), ("value", style.value b.value), ("unique", .boolean b.isUnique),
        ("expanding", .boolean b.isExpanding), ("crud", .boolean b.isCrud)]
  | .column name source isLiteral =>
    let table ← outlineOption style source
    pure [("name", .string name), ("is_literal", .boolean isLiteral), ("table", table)]
  | .text sql => pure [("sql", .string sql)]
  | .textualSelect text columns =>
    pure [("text", ← outline style text), ("columns", shapes columns)]
  | .unary op operand => pure [("op", .string op.label), ("operand", ← outline style operand)]
  | .binary left op right =>
    let left ← outline style left
    let right ← outline style right
    pure [("op", .string op.label), ("left", left), ("right", right)]
  | .clauseList op clauses =>
    pure [("op", .string op.label), ("clauses", ← outlineList style clauses)]
  | .grouping element => pure [("element", ← outline style element)]
  | .labelReference element => pure [("element", ← outline style element)]
  | .scalarSubquery element => pure [("element", ← outline style element)]
  | .tableValued element => pure [("element", ← outline style element)]
  | .function name args => pure [("name", .string name), ("args", ← outlineList style args)]
  | .cast element target => pure [("to", .string target.label), ("element", ← outline style element)]
  | .label name element => pure [("name", text? name), ("element", ← outline style element)]
  | .alias element name => pure [("name", text? name), ("element", ← outline style element)]
  | .subquery element name => pure [("name", text? name), ("element", ← outline style element)]
  | .textualLabelReference name => pure [("name", .string name)]
  | .ordering element isDescending nulls =>
    let element ← outline style element
    pure
      [("descending", .boolean isDescending), ("nulls", text? (nulls.map NullsOrder.name)),
        ("element", element)]
  | .table t =>
    pure [("name", .string t.name), ("schema", text? t.schema), ("columns", shapes t.columns)]
  | .join ⟨left, right, on, kind⟩ =>
    let left ← outline style left
    let right ← outline style right
    let on ← outline style on
    pure [("join", .string kind.label), ("left", left), ("right", right), ("on", on)]
  | .select ⟨columns, froms, criteria, groupBy, having, orderBy, limit, offset, distinct, correlate⟩ =>
    let columns ← outlineList style columns
    let froms ← outlineList style froms
    let criteria ← outlineOption style criteria
    let groupBy ← outlineList style groupBy
    let having ← outlineOption style having
    let orderBy ← outlineList style orderBy
    let limit ← outlineOption style limit
    let offset ← outlineOption style offset
    pure
      [("distinct", .boolean distinct), ("auto_correlate", .boolean correlate), ("columns", columns),
        ("froms", froms), ("where", criteria), ("group_by", groupBy), ("having", having),
        ("order_by", orderBy), ("limit", limit), ("offset", offset)]
  | .compound op selects =>
    pure [("op", .string op.label), ("selects", ← outlineList style selects)]
  | .insert ⟨target, values, source, returning⟩ =>
    let target ← outline style target
    let values ← outlinePairs style values
    let source ←
      match _hs : source with
      | some (names, select) => do
        let select ← outline style select
        pure (.array [.array (names.map .string), select])
      | none => pure .null
    let returning ← outlineList style returning
    pure
      [("table", target), ("values", .array values), ("select", source), ("returning", returning)]
  | .update ⟨target, values, criteria, returning⟩ =>
    let target ← outline style target
    let values ← outlinePairs style values
    let criteria ← outlineOption style criteria
    let returning ← outlineList style returning
    pure
      [("table", target), ("values", .array values), ("where", criteria), ("returning", returning)]
  | .delete ⟨target, criteria, returning⟩ =>
    let target ← outline style target
    let criteria ← outlineOption style criteria
    let returning ← outlineList style returning
    pure [("table", target), ("where", criteria), ("returning", returning)]
  | .deferred _ role => pure [("role", .string role.label)]
termination_by 3 * sizeOf n
decreasing_by all_goals (have smaller := n.sizeOf_kind; simp [*] at smaller; omega)

def outlineAll (style : OutlineStyle) (ns : List Node) : Met (List Json) := do
  match ns with
  | [] => pure []
  | n :: rest =>
    let first ← outline style n
    pure (first :: (← outlineAll style rest))
termination_by 3 * sizeOf ns

def outlineList (style : OutlineStyle) (ns : List Node) : Met Json :=
  .array <$> outlineAll style ns
termination_by 3 * sizeOf ns + 1

def outlineOption (style : OutlineStyle) (n : Option Node) : Met Json :=
  match n with
  | some n => outline style n
  | none => pure .null
termination_by 3 * sizeOf n

def outlinePairs (style : OutlineStyle) (values : List (String × Node)) : Met (List Json) := do
  match values with
  | [] => pure []
  | (key, n) :: rest =>
    let first ← outline style n
    pure (.array [.string key, first] :: (← outlinePairs style rest))
termination_by 3 * sizeOf values

end

end Node

end SqlAlgebra
