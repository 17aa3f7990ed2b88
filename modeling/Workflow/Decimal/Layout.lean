import Workflow.Decimal.Rounding
import Workflow.Decimal.Shortest

/-!
# How numbers are written

Seconds and other computed quantities are written with the fewest digits that
identify them: positionally while the leading digit stands between the fourth
place after the point and the sixteenth before it, and with a signed exponent of
at least two digits otherwise.  Delays in messages are written with one place.
-/

namespace Workflow.Decimal

def zeroText (count : Nat) : String :=
  String.ofList (List.replicate count '0')

/-- A text of digits with zeros in front up to a width. -/
def padded (width : Nat) (number : Nat) : String :=
  let digits := toString number
  zeroText (width - digits.length) ++ digits

/-- The first leading-digit exponent that is written positionally. -/
def plainFrom : Int := -4

/-- The leading-digit exponent from which on an exponent is written. -/
def plainBelow : Int := 16

def scientificText (digits : String) (leading : Int) : String :=
  let mantissa :=
    if digits.length ≤ 1 then digits
    else (digits.take 1).toString ++ "." ++ (digits.drop 1).toString
  let sign := if leading < 0 then "-" else "+"
  mantissa ++ "e" ++ sign ++ padded 2 leading.natAbs

/-- A numeral in positional form, with at least one digit on either side of the
point. -/
def positionalText (digits : String) (point : Int) : String :=
  if point ≤ 0 then
    "0." ++ zeroText point.natAbs ++ digits
  else if digits.length ≤ point.natAbs then
    digits ++ zeroText (point.natAbs - digits.length) ++ ".0"
  else
    (digits.take point.natAbs).toString ++ "." ++ (digits.drop point.natAbs).toString

def Numeral.text (numeral : Numeral) : String :=
  if numeral.digits = 0 then "0.0"
  else
    let digits := toString numeral.digits
    let point := numeral.exponent + digits.length
    if plainFrom ≤ point - 1 ∧ point - 1 < plainBelow then positionalText digits point
    else scientificText digits (point - 1)

/-- A number with the fewest digits that identify it. -/
def shortestText (number : Float) : String :=
  match Reading.ofFloat number with
  | .notANumber => "nan"
  | .infinite negative => if negative then "-inf" else "inf"
  | .finite negative magnitude =>
    (if negative then "-" else "") ++ magnitude.shortest.text

/-- A number with one decimal place, a half going to the even neighbour of the
exact binary value. -/
def onePlaceText (number : Float) : String :=
  match Reading.ofFloat number with
  | .notANumber => "nan"
  | .infinite negative => if negative then "-inf" else "inf"
  | .finite negative magnitude =>
    let fraction := magnitude.fraction
    let tenths := roundToEven (10 * fraction.1) fraction.2
    (if negative then "-" else "") ++ toString (tenths / 10) ++ "."
      ++ toString (tenths % 10)

end Workflow.Decimal
