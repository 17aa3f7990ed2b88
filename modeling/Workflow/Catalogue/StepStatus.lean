import Workflow.Catalogue.Basic

/-!
# Step statuses

A step is pending until it is done, skipped, failed or found to be a duplicate of
an earlier step of its type.
-/

namespace Workflow

inductive StepStatus where
  | todo
  | done
  | skipped
  | failed
  | duplicate
deriving DecidableEq, Repr

namespace StepStatus

def code : StepStatus → Nat
  | todo => 1
  | done => 2
  | skipped => 3
  | failed => 4
  | duplicate => 5

def label : StepStatus → String
  | todo => "TODO"
  | done => "DONE"
  | skipped => "SKIPPED"
  | failed => "FAILED"
  | duplicate => "DUPLICATE"

/-- All statuses in ascending order of their numbers. -/
def members : List StepStatus :=
  [todo, done, skipped, failed, duplicate]

/-- A step in a terminal status is never run again. -/
def isTerminal (status : StepStatus) : Bool :=
  status != todo

theorem mem_members (status : StepStatus) : status ∈ members := by
  cases status <;> decide

instance : Catalogue StepStatus where
  title := "ProcessStepStatusId"
  members := members
  code := code
  label := label

theorem ofCode?_code (status : StepStatus) :
    Catalogue.ofCode? (status.code : Int) = some status := by
  cases status <;> rfl

theorem code_injective : Function.Injective code :=
  Catalogue.code_injective_of_ofCode? ofCode?_code

end StepStatus

end Workflow
