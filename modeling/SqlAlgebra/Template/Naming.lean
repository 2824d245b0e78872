import SqlAlgebra.Tree.Node

/-!
# Synthetic names

What the caller left without a name is named when a statement is rendered: a FROM element or label
`anon_1`, `anon_2` and so on, a unique parameter by its key and a number, one without a key `param_1`.
Every node keeps the name that it got first, and no name is one that the caller wrote anywhere in the
tree or one that was given before.
-/

namespace SqlAlgebra

structure Namer where
  /-- The identifiers that the caller wrote. -/
  taken : List String
  issued : List String
  /-- The last number that was tried for a stem. -/
  counters : List (String × Nat)
  assigned : List (Identity × String)

namespace Namer

def start (taken : List String) : Namer := ⟨taken, [], [], []⟩

def numbered (stem : String) (n : Nat) : String := stem ++ "_" ++ toString n

/-- Whether a name can still be given. -/
def isFree (namer : Namer) (name : String) : Bool :=
  !namer.taken.contains name && !namer.issued.contains name

/-- The first number from `n` on whose name is free.  The names of different numbers differ, so among
one more than there are names in use some name is free. -/
def firstFree (namer : Namer) (stem : String) : Nat → Nat → Nat
  | 0, n => n
  | steps + 1, n =>
    if namer.isFree (numbered stem n) then n else firstFree namer stem steps (n + 1)

def counter (namer : Namer) (stem : String) : Nat := (namer.counters.lookup stem).getD 0

/-- A name made from a stem that nothing has yet. -/
def fresh (namer : Namer) (stem : String) : String × Namer :=
  let n := namer.firstFree stem (namer.taken.length + namer.issued.length + 1) (namer.counter stem + 1)
  let name := numbered stem n
  (name,
    { namer with
      issued := name :: namer.issued
      counters := (stem, n) :: namer.counters.filter fun entry => entry.1 != stem })

/-- The name of a node, made from a stem if the node has none yet. -/
def assign (namer : Namer) (id : Identity) (stem : String) : String × Namer :=
  match namer.assigned.lookup id with
  | some name => (name, namer)
  | none =>
    let (name, namer) := namer.fresh stem
    (name, { namer with assigned := (id, name) :: namer.assigned })

/-- The name of a FROM element or label without one. -/
def anonymous (namer : Namer) (n : Node) : String × Namer := namer.assign n.id "anon"

/-- The name of a parameter. -/
def param (namer : Namer) (n : Node) (b : BindParam) : String × Namer :=
  match b.key with
  | some key => if b.isUnique then namer.assign n.id key else (key, namer)
  | none => namer.assign n.id "param"

end Namer

end SqlAlgebra
