import Workflow.Decimal.Binary
import Workflow.Decimal.Rounding
import Workflow.Failure

/-!
# Time spans

A number of seconds as a whole number of microseconds.  Whole seconds are exact.
The part after the point is scaled as a floating-point number and rounded to the
nearest microsecond, a half to the even neighbour.  A span holds fewer than a
billion days in either direction.
-/

namespace Workflow.Span

/-- The magnitude of a finite floating-point number cut off at the point, and
whether the number is negative. -/
def wholePart (negative : Bool) (magnitude : Decimal.Binary) : Int :=
  let fraction := magnitude.fraction
  let whole : Int := (fraction.1 / fraction.2 : Nat)
  if negative then -whole else whole

/-- A finite floating-point number rounded to the nearest integer. -/
def nearest (number : Float) : Int :=
  match Decimal.Reading.ofFloat number with
  | .finite negative magnitude =>
    let fraction := magnitude.fraction
    let rounded : Int := (Decimal.roundToEven fraction.1 fraction.2 : Nat)
    if negative then -rounded else rounded
  | _ => 0

/-- The part of a floating-point number after the point, with its sign. -/
def partAfterPoint (number : Float) : Float :=
  if number < 0 then number - number.ceil else number - number.floor

/-- The largest number of days of a span. -/
def dayLimit : Nat := 999999999

/-- The first number of days that does not fit a machine word. -/
def wordBound : Int := 0x80000000

/-- Refuses spans with too many days. -/
def limited (micros : Int) : Except Failure Int :=
  let days := Int.fdiv micros Timestamp.microsPerDay
  if days < -wordBound ∨ wordBound ≤ days then .error .spanBeyondWord
  else if dayLimit < days.natAbs then .error (.spanOutOfRange days)
  else .ok micros

/-- The microseconds of a number of seconds. -/
def ofSeconds (seconds : Float) : Except Failure Int :=
  match Decimal.Reading.ofFloat seconds with
  | .notANumber => .error .undefinedSpan
  | .infinite _ => .error .infiniteSpan
  | .finite negative magnitude =>
    limited (wholePart negative magnitude * 1000000
      + nearest (1000000 * partAfterPoint seconds))

end Workflow.Span
