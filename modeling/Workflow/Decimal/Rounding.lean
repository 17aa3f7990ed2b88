/-!
# Rounding quotients

The nearest integer to a quotient, where a half goes to the even neighbour.
-/

namespace Workflow.Decimal

/-- `numerator / denominator` rounded to the nearest integer, a half to the even
neighbour. -/
def roundToEven (numerator denominator : Nat) : Nat :=
  let quotient := numerator / denominator
  let rest := numerator % denominator
  if 2 * rest < denominator then quotient
  else if denominator < 2 * rest then quotient + 1
  else if quotient % 2 = 0 then quotient
  else quotient + 1

end Workflow.Decimal
