import Workflow.Lease
import Workflow.Query
import Workflow.Resolution

/-!
# Running a step by hand

Before an operator runs one step of a process, the process and its pending steps
are loaded and checked: it must exist, must not be leased, and the step must be
among the pending ones.  The resulting context then skips other steps, schedules
new ones and finally resolves the step itself.  All of this only stages changes.
-/

namespace Workflow

/-- A checked process, its pending steps, and the type of the step about to run. -/
structure ManualContext where
  current : StepType
  process : ProcessDetail
  steps : List Step
deriving DecidableEq, Repr

namespace ManualContext

/-- Checks what was loaded for a run by hand. -/
def check (loaded : Option Loaded) (current : StepType) (owner : String)
    (now : Timestamp) : Except Failure ManualContext :=
  match loaded with
  | none => .error (.missingOwner owner)
  | some loaded =>
    match loaded.process with
    | none => .error (.ownerWithoutProcess owner)
    | some process =>
      if process.isLeased now then
        .error (.leasedProcess process.id owner process.lease)
      else
        match loaded.steps with
        | none => .error (.processWithoutSteps process.id owner)
        | some steps =>
          if steps.any fun step => !step.isPending then .error .finishedStepLoaded
          else if steps.all fun step => step.type != current then
            .error (.ineligibleStep owner current)
          else .ok ⟨current, process, steps⟩

/-- The types of the other steps of the context, in order of appearance. -/
def otherTypes (context : ManualContext) : List StepType :=
  ((context.steps.map Step.type).filter (· != context.current)).eraseDups

def resolveType (context : ManualContext) (status : StepStatus) (type : StepType) :
    ManualContext × List (Uuid × StepUpdate) :=
  let resolved := Resolution.resolve (fun step => step.type == type) status none context.steps
  ({ context with steps := resolved.1 }, resolved.2)

def skipTypes (context : ManualContext) : List StepType →
    ManualContext × List (Uuid × StepUpdate)
  | [] => (context, [])
  | type :: types =>
    let first := context.resolveType .skipped type
    let others := first.1.skipTypes types
    (others.1, first.2 ++ others.2)

/-- Skips the steps of the given types, never the current one. -/
def skip (context : ManualContext) (types : List StepType) :
    ManualContext × List (Uuid × StepUpdate) :=
  context.skipTypes (context.otherTypes.filter types.contains)

/-- Skips all steps except those of the given types and the current one. -/
def skipExcept (context : ManualContext) (types : List StepType) :
    ManualContext × List (Uuid × StepUpdate) :=
  context.skipTypes (context.otherTypes.filter fun type => !types.contains type)

/-- The types among the requested ones that the process has in no status. -/
def unknownTypes (context : ManualContext) (types : List StepType) : List StepType :=
  let existing := (context.process.steps ++ context.steps).map Step.type
  (types.filter fun type => !existing.contains type).eraseDups

/-- Takes newly created steps into the context. -/
def addSteps (context : ManualContext) (steps : List Step) : ManualContext :=
  { context with steps := context.steps ++ steps }

/-- New pending steps for the unknown types, with identifiers in order. -/
def newSteps (context : ManualContext) (types : List StepType) (ids : List Uuid)
    (clock : Readings) : List Step :=
  Step.freshEach context.process.id clock ((context.unknownTypes types).zip ids)

/-- Performs an operation on the lease or version of the process. -/
def performLease (context : ManualContext) (operation : LeaseOp) :
    Except Failure (ManualContext × Batch) := do
  let (process, batch) ← operation.perform context.process.toProcess
  return ({ context with process := process.withSteps context.process.steps }, batch)

def finish (context : ManualContext) : ManualContext × List (Uuid × StepUpdate) :=
  context.resolveType .done context.current

end ManualContext

/-- An operation of an operator on a manual context. -/
inductive ManualOp where
  | requestLease (expiry : Timestamp)
  | skip (types : List StepType)
  | skipExcept (types : List StepType)
  | schedule (types : List StepType)
  | finalize
deriving DecidableEq, Repr

/-- The context after an operation and what the operation stages.  Each row that is staged takes
the next reading of the clock, and new steps take the given identifiers in order. -/
def ManualContext.perform (context : ManualContext) (clock : Readings) (ids : List Uuid) :
    ManualOp → Except Failure (ManualContext × Batch)
  | .requestLease expiry => context.performLease (.request expiry (clock 0))
  | .skip types =>
    let skipped := context.skip types
    .ok (skipped.1, Change.ofUpdates clock skipped.2)
  | .skipExcept types =>
    let skipped := context.skipExcept types
    .ok (skipped.1, Change.ofUpdates clock skipped.2)
  | .schedule types =>
    let created := context.newSteps types ids clock
    .ok (context.addSteps created, created.map .insertStep)
  | .finalize => do
    let finished := context.finish
    let released ← finished.1.performLease .releaseOrRaise
    return (released.1, Change.ofUpdates clock finished.2 ++ released.2)

end Workflow
