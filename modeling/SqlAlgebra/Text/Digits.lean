/-!
# Digits

Digits as numbers and numbers as digits, of the decimal and the hexadecimal system.
-/

namespace SqlAlgebra.Text

/-- The number that decimal digits stand for, the highest digit first. -/
def decimalValue (digits : List Char) : Nat :=
  digits.foldl (fun n c => 10 * n + (c.toNat - '0'.toNat)) 0

/-- The digits at the beginning of a text, and what follows them. -/
def splitDigits (s : List Char) : List Char × List Char :=
  (s.takeWhile Char.isDigit, s.dropWhile Char.isDigit)

/-- The number at the beginning of a text that at most so many digits stand for, and what follows them.
-/
def takeDecimal (most : Nat) (s : List Char) : Option (Nat × List Char) :=
  let digits := (s.take most).takeWhile Char.isDigit
  if digits.isEmpty then none else some (decimalValue digits, s.drop digits.length)

/-- A sign at the beginning of a text, as whether it is a minus, and what follows it. -/
def splitSign : List Char → Bool × List Char
  | '-' :: rest => (true, rest)
  | '+' :: rest => (false, rest)
  | rest => (false, rest)

/-- The integer that a whole text stands for: a sign that may be left out, and digits. -/
def toInt? (s : List Char) : Option Int :=
  let (isNegative, digits) := splitSign s
  if digits.isEmpty || !digits.all Char.isDigit then none
  else
    let magnitude : Int := decimalValue digits
    some (if isNegative then -magnitude else magnitude)

/-- The lower-case hexadecimal digit of a number below sixteen. -/
def hexDigit (n : Nat) : Char := (Nat.toDigits 16 (n % 16)).headD '0'

/-- What a hexadecimal digit of either case stands for. -/
def hexValue? (c : Char) : Option Nat :=
  if c.isDigit then some (c.toNat - '0'.toNat)
  else if 'a' ≤ c ∧ c ≤ 'f' then some (c.toNat - 'a'.toNat + 10)
  else if 'A' ≤ c ∧ c ≤ 'F' then some (c.toNat - 'A'.toNat + 10)
  else none

/-- The hexadecimal digits of bytes, two of each. -/
def hexBytes (bytes : List UInt8) : String :=
  String.ofList (bytes.flatMap fun b => [hexDigit (b.toNat / 16), hexDigit b.toNat])

end SqlAlgebra.Text
