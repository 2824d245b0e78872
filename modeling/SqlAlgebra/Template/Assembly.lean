import SqlAlgebra.Template.Basic

/-!
# Assembly

A template becomes a statement when its parameters are filled in, in the order of the text.  An expanding
parameter becomes a list with a placeholder for each of its elements.
-/

namespace SqlAlgebra

/-- The parameters of a statement in the order of their placeholders. -/
structure ParamList where
  entries : List (String × Value)

namespace ParamList

def empty : ParamList := ⟨[]⟩

/-- One parameter more, and its position; positions count from one. -/
def push (params : ParamList) (name : String) (value : Value) : Nat × ParamList :=
  (params.entries.length + 1, ⟨params.entries ++ [(name, value)]⟩)

def size (params : ParamList) : Nat := params.entries.length

def isEmpty (params : ParamList) : Bool := params.entries.isEmpty

def names (params : ParamList) : List String := params.entries.map Prod.fst

def values (params : ParamList) : List Value := params.entries.map Prod.snd

end ParamList

/-- A statement with the parameters that its placeholders stand for. -/
structure Statement where
  sql : String
  params : ParamList

namespace Template

/-- The names of the elements of an expanding parameter. -/
def elements (name : String) (items : List Value) : List (String × Value) :=
  items.zipIdx.map fun (item, i) => (Namer.numbered name (i + 1), item)

/-- The placeholders of some parameters that stand after `before` others. -/
def placeholders (d : Dialect) (before : Nat) (params : List (String × Value)) : List String :=
  params.zipIdx.map fun (param, i) => d.bindStyle.placeholder (before + i + 1) param.1

/-- The value of the parameter at a slot. -/
def valueAt? (binds : List Node) (slot : Nat) : Option Value :=
  match binds[slot]? with
  | some n =>
    match n.kind with
    | .bind b => some b.value
    | _ => none
  | none => none

/-- The text of a segment that stands after `before` parameters, with the parameters in it. -/
def fill (d : Dialect) (binds : List Node) (before : Nat) (segment : Segment) :
    Except CompileFault (String × List (String × Value)) :=
  match segment with
  | .text sql => .ok (sql, [])
  | .bind slot name isExpanding =>
    match valueAt? binds slot with
    | none => .error (.emptySlot slot name)
    | some value =>
      if isExpanding then
        match value.expand with
        | [] => .ok (d.emptySet, [])
        | items =>
          let params := elements name items
          .ok ("(" ++ ", ".intercalate (placeholders d before params) ++ ")", params)
      else .ok (d.bindStyle.placeholder (before + 1) name, [(name, value)])

/-- The statement that a template is with these bound parameters. -/
def assemble (template : Template) (d : Dialect) (binds : List Node) :
    Except CompileFault Statement :=
  template.segments.foldlM
    (fun done segment => do
      let (sql, params) ← fill d binds done.params.size segment
      .ok ⟨done.sql ++ sql, ⟨done.params.entries ++ params⟩⟩)
    ⟨"", .empty⟩

end Template

end SqlAlgebra
