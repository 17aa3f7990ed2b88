import Workflow.Change

/-!
# Dispatching processes

A new process starts with one pending step for each of its initial types.  A process
without steps would never run and is refused.
-/

namespace Workflow.Dispatch

/-- The initial step types, each once. -/
def initialTypes (types : List StepType) : Except Failure (List StepType) :=
  if types.isEmpty then .error .noInitialStep else .ok types.eraseDups

/-- A new process with its initial steps, whose identifiers are given in order. -/
def newProcess (type : ProcessType) (steps : List StepType) (id : Uuid)
    (stepIds : List Uuid) (clock : Readings) : ProcessDetail :=
  (Process.fresh id type).withSteps (Step.freshEach id clock (steps.zip stepIds))

/-- The changes that store a new process with its steps. -/
def changes (process : ProcessDetail) : Batch :=
  .insertProcess process.toProcess :: process.steps.map .insertStep

end Workflow.Dispatch
