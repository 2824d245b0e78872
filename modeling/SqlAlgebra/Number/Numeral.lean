import SqlAlgebra.Number.Double
import SqlAlgebra.Text.Digits

/-!
# Decimal numerals

A numeral is read in two steps.  The first takes its text apart, the second makes of the parts the
number that is nearest to what they say, however many digits there are.
-/

namespace SqlAlgebra

/-- A decimal numeral taken apart. -/
structure Numeral where
  isNegative : Bool
  /-- The digits before the point. -/
  whole : List Char
  /-- The digits after the point, if there is one. -/
  fraction : Option (List Char)
  exponent : Option Int

namespace Numeral

/-- The exponent at the beginning of a text, if one is there, and what follows it. -/
def scanExponent : List Char → Option (Option Int × List Char)
  | 'e' :: rest | 'E' :: rest =>
    let (isNegative, rest) := Text.splitSign rest
    let (digits, rest) := Text.splitDigits rest
    let magnitude : Int := Text.decimalValue digits
    if digits.isEmpty then none
    else some (some (if isNegative then -magnitude else magnitude), rest)
  | rest => some (none, rest)

/-- The numeral at the beginning of a text, and what follows it. -/
def scan (s : List Char) : Option (Numeral × List Char) :=
  let (isNegative, rest) := Text.splitSign s
  let (whole, rest) := Text.splitDigits rest
  let (fraction, rest) :=
    match rest with
    | '.' :: rest =>
      let (fraction, rest) := Text.splitDigits rest
      (some fraction, rest)
    | _ => (none, rest)
  if whole.isEmpty && (fraction.getD []).isEmpty then none
  else
    match scanExponent rest with
    | some (exponent, rest) => some (⟨isNegative, whole, fraction, exponent⟩, rest)
    | none => none

/-- Whether a numeral is written as an integer. -/
def isIntegral (n : Numeral) : Bool := n.fraction.isNone && n.exponent.isNone

/-- The number nearest to a numeral. -/
def toDouble (n : Numeral) : Double :=
  let fraction := n.fraction.getD []
  .ofDecimal n.isNegative (Text.decimalValue (n.whole ++ fraction))
    (n.exponent.getD 0 - fraction.length)

end Numeral

namespace Double

/-- The number that a whole text stands for: a numeral, or the word for NaN or infinity. -/
def ofText? (s : String) : Option Double :=
  let (isNegative, word) := Text.splitSign s.toList
  let word := word.map Char.toLower
  if word = "nan".toList then some (ofPattern isNegative nan.pattern)
  else if word = "inf".toList ∨ word = "infinity".toList then some (infinite isNegative)
  else
    match Numeral.scan s.toList with
    | some (n, []) => some n.toDouble
    | _ => none

end Double

end SqlAlgebra
