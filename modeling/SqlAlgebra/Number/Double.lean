/-!
# Binary floating point

A number of the binary64 format is its bit pattern, so two numbers can be told apart even where they
compare equal.  Everything here is exact arithmetic on natural numbers: reading a decimal rounds the
quotient of two naturals once, to the nearest pattern and to the even one of two.
-/

namespace SqlAlgebra

/-- What distinguishes one binary format from another. -/
structure BinaryFormat where
  /-- Binary digits of a significand, the leading one included. -/
  precision : Nat
  /-- The power of two that the last digit of the smallest numbers stands for. -/
  leastExponent : Int
  /-- The pattern of positive infinity, which follows that of the largest number. -/
  infinity : Nat
deriving DecidableEq

namespace BinaryFormat

def binary64 : BinaryFormat := ⟨53, -1074, 0x7ff * Nat.pow 2 52⟩

def binary32 : BinaryFormat := ⟨24, -149, 0xff * Nat.pow 2 23⟩

end BinaryFormat

/-- The natural nearest to a quotient, the even one of two that are equally near. -/
def roundHalfEven (num den : Nat) : Nat :=
  let quotient := num / den
  let twice := 2 * (num % den)
  if twice < den ∨ (twice = den ∧ quotient % 2 = 0) then quotient else quotient + 1

/-- The exponent of the greatest power of two that is at most a positive quotient. -/
def binaryExponent (num den : Nat) : Int :=
  let k : Int := (num.log2 : Int) - den.log2
  let reached : Bool :=
    if 0 ≤ k then den * Nat.pow 2 k.toNat ≤ num else den ≤ num * Nat.pow 2 (-k).toNat
  if reached then k else k - 1

/-- The pattern of the number nearest to a quotient, the sign left out.  A significand that rounds up
to the next power of two carries into the exponent by itself. -/
def BinaryFormat.pattern (format : BinaryFormat) (num den : Nat) : Nat :=
  if num = 0 then 0 else
    let last := max format.leastExponent (binaryExponent num den - (format.precision - 1 : Nat))
    let significand :=
      if 0 ≤ last then roundHalfEven num (den * Nat.pow 2 last.toNat)
      else roundHalfEven (num * Nat.pow 2 (-last).toNat) den
    min format.infinity
      ((last - format.leastExponent).toNat * Nat.pow 2 (format.precision - 1) + significand)

/-- A number of the binary64 format. -/
structure Double where
  bits : UInt64
deriving DecidableEq

namespace Double

def pattern (x : Double) : Nat := x.bits.toNat % Nat.pow 2 63

def isNegative (x : Double) : Bool := Nat.pow 2 63 ≤ x.bits.toNat

/-- The eleven bits that the exponent is stored in. -/
def exponentField (x : Double) : Nat := x.pattern / Nat.pow 2 52

/-- The bits of the significand after the leading one. -/
def fractionField (x : Double) : Nat := x.pattern % Nat.pow 2 52

def isNaN (x : Double) : Bool := BinaryFormat.binary64.infinity < x.pattern

def isFinite (x : Double) : Bool := x.pattern < BinaryFormat.binary64.infinity

def isZero (x : Double) : Bool := x.pattern == 0

/-- Whether two numbers compare equal: a NaN equals nothing, and both zeros are equal. -/
def same (x y : Double) : Bool :=
  !x.isNaN && !y.isNaN && (x.bits == y.bits || (x.isZero && y.isZero))

def ofPattern (negative : Bool) (pattern : Nat) : Double :=
  ⟨UInt64.ofNat (if negative then Nat.pow 2 63 + pattern else pattern)⟩

def nan : Double := ofPattern false (BinaryFormat.binary64.infinity + Nat.pow 2 51)

def infinite (negative : Bool) : Double := ofPattern negative BinaryFormat.binary64.infinity

/-- The number nearest to a quotient with the given sign. -/
def ofRatio (negative : Bool) (num den : Nat) : Double :=
  ofPattern negative (BinaryFormat.binary64.pattern num den)

/-- The number nearest to `digits * 10 ^ exponent`.  A decimal far above the largest number or far
below the smallest is settled without its power of ten. -/
def ofDecimal (negative : Bool) (digits : Nat) (exponent : Int) : Double :=
  let magnitude := exponent + (Nat.toDigits 10 digits).length
  if digits = 0 ∨ magnitude < -400 then ofPattern negative 0
  else if 400 < magnitude then infinite negative
  else if 0 ≤ exponent then ofRatio negative (digits * Nat.pow 10 exponent.toNat) 1
  else ofRatio negative digits (Nat.pow 10 (-exponent).toNat)

def ofInt (n : Int) : Double := ofRatio (n < 0) n.natAbs 1

/-- The significand and the exponent of its last digit: the magnitude of a finite number is
`significand * 2 ^ exponent`. -/
def significand (x : Double) : Nat :=
  if x.exponentField = 0 then x.fractionField else Nat.pow 2 52 + x.fractionField

@[inherit_doc significand]
def exponent (x : Double) : Int := max 1 x.exponentField - 1075

/-- The integer that a finite number is, if it is one. -/
def toInt? (x : Double) : Option Int :=
  if !x.isFinite then none
  else
    let sign : Int := if x.isNegative then -1 else 1
    if 0 ≤ x.exponent then some (sign * (x.significand * Nat.pow 2 x.exponent.toNat : Nat))
    else
      let den := Nat.pow 2 (-x.exponent).toNat
      if x.significand % den = 0 then some (sign * (x.significand / den : Nat)) else none

/-- The pattern of the nearest number of the binary32 format.  A NaN keeps its sign and the upper part
of its payload. -/
def toBinary32 (x : Double) : UInt32 :=
  let sign := if x.isNegative then Nat.pow 2 31 else 0
  let magnitude :=
    if x.isNaN then BinaryFormat.binary32.infinity + (Nat.pow 2 22 ||| x.fractionField / Nat.pow 2 29)
    else if !x.isFinite then BinaryFormat.binary32.infinity
    else if 0 ≤ x.exponent then
      BinaryFormat.binary32.pattern (x.significand * Nat.pow 2 x.exponent.toNat) 1
    else BinaryFormat.binary32.pattern x.significand (Nat.pow 2 (-x.exponent).toNat)
  UInt32.ofNat (sign + magnitude)

theorem same_comm (x y : Double) : x.same y = y.same x := by
  simp only [same, Bool.and_comm x.isZero]
  cases x.isNaN <;> cases y.isNaN <;> simp [BEq.comm]

end Double

end SqlAlgebra
