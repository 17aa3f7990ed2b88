/-!
# Catalogues

A catalogue is a closed list of members.  Each member has a number, which is how
it is stored, and a written name, which is how an operator refers to it.
-/

namespace Workflow

/-- A closed list of members with numbers and written names. -/
class Catalogue (α : Type) where
  /-- What a single member is called in messages. -/
  title : String
  /-- All members, in the order in which they are declared. -/
  members : List α
  code : α → Nat
  label : α → String

namespace Catalogue

variable {α : Type} [Catalogue α]

/-- The member stored under `number`, if there is one. -/
def ofCode? (number : Int) : Option α :=
  (members (α := α)).find? fun member => (code member : Int) == number

theorem code_injective_of_ofCode? (found : ∀ member : α, ofCode? (code member) = some member) :
    Function.Injective (code : α → Nat) := by
  intro left right same
  exact Option.some.inj ((found left).symm.trans (same ▸ found right))

/-- The member with exactly this written name, if there is one. -/
def ofLabel? (name : String) : Option α :=
  (members (α := α)).find? fun member => label member == name

end Catalogue

end Workflow
