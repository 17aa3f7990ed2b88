import Workflow.Decimal.Binary

/-!
# Shortest decimals

The decimal with the fewest digits that reads back to a given binary value and,
among those, the nearest.  All comparisons are exact comparisons of fractions.
-/

namespace Workflow.Decimal

/-- The decimal `digits * 10 ^ exponent`. -/
structure Numeral where
  digits : Nat
  exponent : Int
deriving DecidableEq, Repr

/-- Comparison of two non-negative fractions. -/
def compareFractions (left right : Nat × Nat) : Ordering :=
  compare (left.1 * right.2) (right.1 * left.2)

def Numeral.fraction (numeral : Numeral) : Nat × Nat :=
  let power := powerFraction 10 numeral.exponent
  (numeral.digits * power.1, power.2)

/-- Whether reading the numeral gives the binary value: it lies between the two
midpoints to the neighbouring values, where a midpoint itself goes to the value
with the even significand. -/
def Binary.readsBack (value : Binary) (numeral : Numeral) : Bool :=
  let quarter := powerFraction 2 (value.exponent - 2)
  let low := 4 * value.significand - if value.narrowBelow then 1 else 2
  let high := 4 * value.significand + 2
  let fromLow := compareFractions numeral.fraction (low * quarter.1, quarter.2)
  let toHigh := compareFractions numeral.fraction (high * quarter.1, quarter.2)
  if value.significand % 2 = 0 then fromLow.isGE && toHigh.isLE
  else fromLow.isGT && toHigh.isLT

/-- The number of decimal places of the integer part of a value, negative for a
value with leading zeros after the point. -/
def Binary.scale (value : Binary) : Int :=
  let (numerator, denominator) := value.fraction
  ((Nat.toDigits 10 (numerator * Nat.pow 10 400 / denominator)).length : Int) - 400

/-- The numeral with `count` digits that reads back and is nearest to the value,
if one reads back. -/
def Binary.nearest? (value : Binary) (scale : Int) (count : Nat) : Option Numeral :=
  let exponent := scale - count
  let grid := powerFraction 10 exponent
  let (numerator, denominator) := value.fraction
  let below := numerator * grid.2 / (denominator * grid.1)
  let lower : Numeral := ⟨below, exponent⟩
  let upper : Numeral := ⟨below + 1, exponent⟩
  match value.readsBack lower, value.readsBack upper with
  | true, false => some lower
  | false, true => some upper
  | false, false => none
  | true, true =>
    let middle := ((2 * below + 1) * grid.1, 2 * grid.2)
    match compareFractions value.fraction middle with
    | .lt => some lower
    | .gt => some upper
    | .eq => if below % 2 = 0 then some lower else some upper

/-- Moves the zeros at the end of the digits into the exponent. -/
def Numeral.stripZeros (numeral : Numeral) : Numeral :=
  let zeros := (Nat.toDigits 10 numeral.digits).reverse.takeWhile (· == '0')
  if numeral.digits = 0 then ⟨0, 0⟩
  else ⟨numeral.digits / Nat.pow 10 zeros.length, numeral.exponent + zeros.length⟩

/-- The shortest numeral that reads back to the value. -/
def Binary.shortest (value : Binary) : Numeral :=
  if value.significand = 0 then ⟨0, 0⟩
  else
    let scale := value.scale
    match (List.range 17).findSome? fun count => value.nearest? scale (count + 1) with
    | some numeral => numeral.stripZeros
    | none =>
      let fraction := value.fraction
      ⟨fraction.1 * Nat.pow 10 1100 / fraction.2, -1100⟩

end Workflow.Decimal
