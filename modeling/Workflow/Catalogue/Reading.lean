import Workflow.Failure
import Workflow.Text.Capital

/-!
# Reading members

A member can be given by its number or by its written name.  A text of digits is a
number; any other text is a name, whose case and surrounding white space do not
matter.
-/

namespace Workflow.Catalogue

/-- A member as an operator gives it. -/
inductive Entry where
  | number (value : Int)
  | written (text : String)
deriving DecidableEq, Repr

/-- The longest row of digits that is read as a number. -/
def digitLimit : Nat := 4300

variable {α : Type} [Catalogue α]

/-- The member stored under a number. -/
def member (number : Int) : Except Failure α :=
  match ofCode? number with
  | some found => .ok found
  | none => .error (.notAMember number (title (α := α)))

theorem member_of_ofCode? {number : Int} {value : α} (found : ofCode? number = some value) :
    member number = .ok value := by
  rw [member, found]

/-- The number written by a text of digits.  Decimal digits at the start are counted
before the rest is looked at. -/
def readDigits (text : String) : Except Failure Nat :=
  let count := (text.toList.takeWhile fun character => (Text.digit? character).isSome).length
  if digitLimit < count then .error (.tooManyDigits count)
  else
    match Text.decimalNumber? text with
    | some number => .ok number
    | none => .error (.notDecimal text)

def read : Entry → Except Failure α
  | .number value => member value
  | .written text =>
    if !text.isEmpty && text.toList.all Text.showsDigit then do
      member (← readDigits text)
    else
      match ofLabel? (Text.capitals (Text.trim text)) with
      | some found => .ok found
      | none => .error (.unknownMember (title (α := α)) text)

end Workflow.Catalogue
