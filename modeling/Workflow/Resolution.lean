import Workflow.Change

/-!
# Resolving a group of steps

A process can have several pending steps of one type.  Resolving such a group gives
the earliest step the intended status and marks all others as its duplicates.
-/

namespace Workflow

namespace Resolution

/-- The status of the step at a position of a group that is ordered by age. -/
def statusAt (status : StepStatus) (position : Nat) : StepStatus :=
  if position = 0 then status else .duplicate

/-- The updates that resolve a group of steps, oldest first. -/
def updates (steps : List Uuid) (status : StepStatus) (message : Option String) :
    List (Uuid × StepUpdate) :=
  steps.zipIdx.map fun (step, position) =>
    (step, .resolve (statusAt status position) message)

/-- The positions of the chosen steps in ascending order of age. -/
def positions (chosen : Step → Bool) (steps : List Step) : List (Step × Nat) :=
  (steps.zipIdx.filter fun entry => chosen entry.1).mergeSort
    fun left right => left.1.isNotAfter right.1

/-- Resolves the chosen steps among loaded steps: the loaded steps afterwards, and
the updates that bring the stored ones into the same state. -/
def resolve (chosen : Step → Bool) (status : StepStatus) (message : Option String)
    (steps : List Step) : List Step × List (Uuid × StepUpdate) :=
  let ordered := positions chosen steps
  let earliest := ordered.head?.map Prod.snd
  let resolved := steps.zipIdx.map fun (step, position) =>
    if chosen step then
      let status := if earliest = some position then status else .duplicate
      { step with
        status := some status
        message := if message.isSome then message else step.message }
    else step
  (resolved, updates (ordered.map fun entry => entry.1.id) status message)

end Resolution

end Workflow
