/-!
# Binary floating-point values

A finite floating-point number is a significand times a power of two.  Its exact
value is all that the modules on decimal text look at.
-/

namespace Workflow.Decimal

/-- A finite non-negative value, `significand * 2 ^ exponent`. -/
structure Binary where
  significand : Nat
  exponent : Int
  /-- The gap to the next smaller value is half the gap to the next larger one. -/
  narrowBelow : Bool
deriving DecidableEq, Repr

/-- A floating-point number by its bits. -/
inductive Reading where
  | finite (negative : Bool) (magnitude : Binary)
  | infinite (negative : Bool)
  | notANumber
deriving DecidableEq, Repr

/-- Splits the 64 bits of a number into sign, exponent and fraction. -/
def Reading.ofBits (bits : UInt64) : Reading :=
  let negative := bits >>> 63 == 1
  let exponent := ((bits >>> 52) &&& 0x7ff).toNat
  let fraction := (bits &&& 0xfffffffffffff).toNat
  if exponent == 0x7ff then
    if fraction == 0 then .infinite negative else .notANumber
  else if exponent == 0 then
    .finite negative ⟨fraction, -1074, false⟩
  else
    .finite negative
      ⟨0x10000000000000 + fraction, (exponent : Int) - 1075, fraction == 0 && exponent != 1⟩

def Reading.ofFloat (number : Float) : Reading :=
  .ofBits number.toBits

/-- `base ^ exponent` as a fraction of naturals. -/
def powerFraction (base : Nat) (exponent : Int) : Nat × Nat :=
  match exponent with
  | .ofNat power => (Nat.pow base power, 1)
  | .negSucc power => (1, Nat.pow base (power + 1))

def Binary.fraction (value : Binary) : Nat × Nat :=
  let power := powerFraction 2 value.exponent
  (value.significand * power.1, power.2)

end Workflow.Decimal
