/-!
# Seconds

Spans of time are measured in seconds, as numbers of any type that has their arithmetic.
-/

namespace Workflow

/-- The arithmetic of seconds. -/
class Seconds (τ : Type) extends Add τ, Sub τ, Mul τ, LE τ, LT τ where
  zero : τ
  /-- A base raised to a number of attempts. -/
  power : τ → Nat → τ
  decideLE : (left right : τ) → Decidable (left ≤ right)
  decideLT : (left right : τ) → Decidable (left < right)

namespace Seconds

variable {τ : Type} [Seconds τ]

instance (left right : τ) : Decidable (left ≤ right) :=
  decideLE left right

instance (left right : τ) : Decidable (left < right) :=
  decideLT left right

/-- The smaller of two times; the first if they are equal. -/
def least (left right : τ) : τ :=
  if left ≤ right then left else right

/-- The greater of two times; the second if they are equal. -/
def greatest (left right : τ) : τ :=
  if left ≤ right then right else left

instance : Seconds Float where
  zero := 0
  power := fun base attempts => base ^ Float.ofNat attempts
  decideLE := fun left right => inferInstanceAs (Decidable (left ≤ right))
  decideLT := fun left right => inferInstanceAs (Decidable (left < right))

end Seconds

end Workflow
