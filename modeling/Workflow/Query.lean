import Workflow.Failure
import Workflow.Process

/-!
# Questions to a store

What workers and operators ask a store: which processes are eligible for a drain,
which steps of a process are pending, and what is loaded before a step is run by
hand.
-/

namespace Workflow

/-- The processes a worker looks for: of one of the given types, with a pending
step of one of the given types, and not leased at the given date or later. -/
structure Eligible where
  types : List ProcessType
  steps : List StepType
  date : Timestamp
deriving DecidableEq, Repr

structure PendingStep where
  id : Uuid
  type : StepType
deriving DecidableEq, Repr

/-- A process and those of its pending steps that were loaded for a manual run.
Either can be missing when it was not loaded by a store. -/
structure Loaded where
  process : Option ProcessDetail
  steps : Option (List Step)
deriving DecidableEq, Repr

/-- Whether a step is among the types of an optional filter. -/
def allowed (filter : Option (List StepType)) (type : StepType) : Bool :=
  match filter with
  | some types => types.contains type
  | none => true

/-- A process with all its steps, and the pending ones that a filter allows. -/
def Loaded.ofDetail (process : ProcessDetail) (filter : Option (List StepType)) :
    Loaded where
  process := some process
  steps := some (process.steps.filter fun step => step.isPending && allowed filter step.type)

/-- The step types that occur among steps, in ascending order. -/
def typesOf (types : List StepType) : List StepType :=
  StepType.members.filter types.contains

end Workflow
