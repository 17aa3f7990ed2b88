import Workflow.Catalogue.Basic

/-!
# Process types

The kinds of workflows that a process can represent.
-/

namespace Workflow

/-- The kind of workflow that a process represents. -/
inductive ProcessType where
  | setupDim
  | createTechnicalUser
  | deleteTechnicalUser
deriving DecidableEq, Repr

namespace ProcessType

def code : ProcessType → Nat
  | setupDim => 1
  | createTechnicalUser => 2
  | deleteTechnicalUser => 3

def label : ProcessType → String
  | setupDim => "SETUP_DIM"
  | createTechnicalUser => "CREATE_TECHNICAL_USER"
  | deleteTechnicalUser => "DELETE_TECHNICAL_USER"

/-- All process types in ascending order of their numbers. -/
def members : List ProcessType :=
  [setupDim, createTechnicalUser, deleteTechnicalUser]

theorem mem_members (type : ProcessType) : type ∈ members := by
  cases type <;> decide

instance : Catalogue ProcessType where
  title := "ProcessTypeId"
  members := members
  code := code
  label := label

theorem ofCode?_code (type : ProcessType) : Catalogue.ofCode? (type.code : Int) = some type := by
  cases type <;> rfl

end ProcessType

end Workflow
