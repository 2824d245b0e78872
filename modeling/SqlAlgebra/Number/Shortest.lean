import SqlAlgebra.Number.Double

/-!
# Shortest decimals

The text of a floating-point number has the fewest digits that read back as that number, and among
those the digits nearest to it.  The search tries one digit, then two, and so on: on the grid of each
length only the two neighbours of the number can be nearest, so only they are tested against the
interval of reals that round to the number.  A number prints in positional or in exponent notation;
which one, and how an exponent is spelled, is what a `NumeralStyle` says.
-/

namespace SqlAlgebra

/-- Which of two equally near neighbours is taken. -/
inductive Tie where
  | even
  | up
deriving DecidableEq

/-- The magnitude `digits * 10 ^ exponent`. -/
structure Decimal where
  digits : Nat
  exponent : Int
deriving DecidableEq

namespace Decimal

/-- The same magnitude without zeros at the end of the digits. -/
def strip (d : Decimal) : Decimal :=
  let rec go : Nat → Nat → Int → Decimal
    | 0, digits, exponent => ⟨digits, exponent⟩
    | steps + 1, digits, exponent =>
      if digits ≠ 0 ∧ digits % 10 = 0 then go steps (digits / 10) (exponent + 1)
      else ⟨digits, exponent⟩
  go d.digits d.digits d.exponent

end Decimal

namespace Double

/-- A finite number and a grid of decimals `10 ^ unit` apart, on one scale of naturals: four times the
number is `4 * value`, and a grid point `d` is `d * step`. -/
structure OnGrid where
  value : Nat
  step : Nat
  /-- Four times the distance of half a unit in the last place, on the same scale. -/
  quarter : Nat

def onGrid (x : Double) (unit : Int) : OnGrid :=
  let down := if unit < 0 then Nat.pow 10 (-unit).toNat else 1
  let up := if unit < 0 then 1 else Nat.pow 10 unit.toNat
  let binaryUp := if x.exponent < 0 then 1 else Nat.pow 2 x.exponent.toNat
  let binaryDown := if x.exponent < 0 then Nat.pow 2 (-x.exponent).toNat else 1
  let scale := binaryUp * down
  ⟨x.significand * scale, up * binaryDown, scale⟩

/-- Whether the decimal `d` on a grid reads back as the number: it lies within half a unit in the last
place, or within a quarter on the lower side of a power of two, where the numbers below are twice as
dense.  The ends of the interval belong to an even significand. -/
def readsBack (x : Double) (grid : OnGrid) (d : Nat) : Bool :=
  let point := 4 * (d * grid.step)
  let dense := x.significand == Nat.pow 2 52 && 1 < x.exponentField
  let low := 4 * grid.value - (if dense then grid.quarter else 2 * grid.quarter)
  let high := 4 * grid.value + 2 * grid.quarter
  if x.significand % 2 = 0 then low ≤ point && point ≤ high else low < point && point < high

/-- The nearest decimal on a grid that reads back, if one of the two neighbours does. -/
def onGrid? (x : Double) (tie : Tie) (unit : Int) : Option Decimal :=
  let grid := x.onGrid unit
  let below := grid.value / grid.step
  let above := below + 1
  match x.readsBack grid below && below != 0, x.readsBack grid above with
  | false, false => none
  | true, false => some ⟨below, unit⟩
  | false, true => some ⟨above, unit⟩
  | true, true =>
    let twice := 2 * (grid.value % grid.step)
    let takeBelow := twice < grid.step ||
      (twice == grid.step && (match tie with | .even => below % 2 == 0 | .up => false))
    some ⟨if takeBelow then below else above, unit⟩

/-- The position of the decimal point of a finite number that is not zero: `10 ^ (point - 1)` is at
most the magnitude, and `10 ^ point` is above it.  Shifted by four hundred places, every such number
is at least one. -/
def point (x : Double) : Int :=
  let shifted :=
    if x.exponent < 0 then x.significand * Nat.pow 10 400 / Nat.pow 2 (-x.exponent).toNat
    else x.significand * Nat.pow 2 x.exponent.toNat * Nat.pow 10 400
  ((Nat.toDigits 10 shifted).length : Int) - 400

/-- The shortest decimal of the magnitude of a finite number.  Seventeen digits always suffice. -/
def shortest (x : Double) (tie : Tie) : Decimal :=
  if x.isZero then ⟨0, 0⟩
  else
    let found := (List.range 17).findSome? fun count => x.onGrid? tie (x.point - (count + 1 : Nat))
    (found.getD ⟨0, 0⟩).strip

end Double

/-- How numbers are written. -/
structure NumeralStyle where
  /-- The least exponent of ten of a number in positional notation. -/
  leastPositional : Int
  /-- The least exponent of ten above that of every number in positional notation. -/
  leastScientific : Int
  /-- What stands before an exponent that is not negative. -/
  exponentMark : String
  tie : Tie

namespace NumeralStyle

/-- Numbers stand in messages and inline literals as `1e16` and `1.5e-5`. -/
def plain : NumeralStyle := ⟨-4, 16, "", .up⟩

/-- Numbers stand in JSON text as `1e+16` and `1.5e-6`. -/
def json : NumeralStyle := ⟨-5, 16, "+", .even⟩

/-- The digits of a decimal with its point, without an exponent. -/
def positional (d : Decimal) : String :=
  let digits := (Nat.repr d.digits).toList
  if 0 ≤ d.exponent then
    String.ofList (digits ++ List.replicate d.exponent.toNat '0') ++ ".0"
  else
    let places := (-d.exponent).toNat
    if places < digits.length then
      String.ofList (digits.take (digits.length - places)) ++ "." ++
        String.ofList (digits.drop (digits.length - places))
    else "0." ++ String.ofList (List.replicate (places - digits.length) '0' ++ digits)

/-- The digits of a decimal with a point after the first and an exponent of ten. -/
def scientific (style : NumeralStyle) (d : Decimal) : String :=
  let digits := (Nat.repr d.digits).toList
  let exponent := d.exponent + (digits.length - 1 : Nat)
  let fraction := if digits.length = 1 then "" else "." ++ String.ofList (digits.drop 1)
  let mark := if 0 ≤ exponent then style.exponentMark else "-"
  String.ofList (digits.take 1) ++ fraction ++ "e" ++ mark ++ toString exponent.natAbs

/-- The text of a number; the texts of the numbers that are not finite are the same in every style. -/
def write (style : NumeralStyle) (x : Double) : String :=
  let sign := if x.isNegative then "-" else ""
  if x.isNaN then "NaN"
  else if !x.isFinite then sign ++ "inf"
  else
    let d := x.shortest style.tie
    let exponent := d.exponent + ((Nat.repr d.digits).length - 1 : Nat)
    sign ++
      if style.leastPositional ≤ exponent ∧ exponent < style.leastScientific then positional d
      else style.scientific d

end NumeralStyle

namespace Double

/-- The text of a number in messages and inline literals. -/
def text (x : Double) : String := NumeralStyle.plain.write x

end Double

end SqlAlgebra
