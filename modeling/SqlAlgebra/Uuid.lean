import SqlAlgebra.Text.Digits

/-!
# UUIDs

A UUID is a word of 128 bits.  It is written as 32 hexadecimal digits in lower case, in groups of
eight, four, four, four and twelve with hyphens between them.
-/

namespace SqlAlgebra

structure Uuid where
  value : BitVec 128
deriving DecidableEq

namespace Uuid

/-- The sixteen bytes, the highest first. -/
def bytes (u : Uuid) : List UInt8 :=
  (List.range 16).map fun i => UInt8.ofNat (u.value.toNat / Nat.pow 256 (15 - i))

def digits (u : Uuid) : List Char :=
  (List.range 32).map fun i => Text.hexDigit (u.value.toNat / Nat.pow 16 (31 - i))

def text (u : Uuid) : String :=
  let digits := u.digits
  "-".intercalate
    [String.ofList (digits.take 8), String.ofList ((digits.drop 8).take 4),
      String.ofList ((digits.drop 12).take 4), String.ofList ((digits.drop 16).take 4),
      String.ofList (digits.drop 20)]

/-- The UUID that 32 hexadecimal digits of either case stand for. -/
def ofDigits? (s : List Char) : Option Uuid :=
  match s.mapM Text.hexValue? with
  | some digits =>
    if digits.length = 32 then some ⟨BitVec.ofNat 128 (digits.foldl (fun n d => 16 * n + d) 0)⟩
    else none
  | none => none

/-- A text of 36 characters without its hyphens, if they stand between the groups and nowhere else. -/
def ungrouped? (s : List Char) : Option (List Char) :=
  let isGrouped := s.zipIdx.all fun (c, i) => (c == '-') == [8, 13, 18, 23].contains i
  if s.length = 36 ∧ isGrouped then some (s.filter (· != '-')) else none

/-- A text without the braces around it or the name of the URN scheme before it. -/
def unwrapped (s : List Char) : List Char :=
  if s.head? = some '\x7b' ∧ s.getLast? = some '\x7d' then (s.drop 1).dropLast
  else
    let scheme := "urn:uuid:".toList
    if scheme.isPrefixOf s then s.drop scheme.length else s

/-- The UUID that a text stands for: the digits alone, or in groups and then perhaps wrapped. -/
def ofText? (s : String) : Option Uuid :=
  let s := s.toList
  if s.length = 32 then ofDigits? s else (ungrouped? (unwrapped s)).bind ofDigits?

end Uuid

end SqlAlgebra
