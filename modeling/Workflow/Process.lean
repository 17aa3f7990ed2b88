import Workflow.Catalogue.ProcessType
import Workflow.Catalogue.StepStatus
import Workflow.Catalogue.StepType
import Workflow.Time.Timestamp
import Workflow.Uuid

/-!
# Processes and steps

A process is one instance of a workflow.  It is guarded by a version, which every
write raises, and by a lease, which a worker holds while it runs the steps.  A
lease ends strictly after its expiry: at the instant of the expiry it still holds.
-/

namespace Workflow

/-- One unit of work within a process. -/
structure Step where
  id : Uuid
  type : StepType
  /-- The status; a stored status can have been cleared. -/
  status : Option StepStatus
  /-- The process that owns the step. -/
  process : Uuid
  created : Timestamp
  changed : Option Timestamp
  message : Option String
deriving DecidableEq, Repr

/-- A process without its steps. -/
structure Process where
  id : Uuid
  type : ProcessType
  version : Int
  /-- The expiry of the lease, if there is one. -/
  lease : Option Timestamp
deriving DecidableEq, Repr

/-- A process together with its steps, oldest first. -/
structure ProcessDetail extends Process where
  steps : List Step
deriving DecidableEq, Repr

namespace Step

def isPending (step : Step) : Bool :=
  step.status == some .todo

def fresh (id : Uuid) (type : StepType) (status : StepStatus) (process : Uuid)
    (now : Timestamp) : Step where
  id := id
  type := type
  status := some status
  process := process
  created := now
  changed := none
  message := none

/-- New pending steps of a process, one for each type and identifier, each created at a reading of
its own. -/
def freshEach (process : Uuid) (clock : Readings) (entries : List (StepType × Uuid)) :
    List Step :=
  (clock.stamp entries).map fun ((type, id), now) => fresh id type .todo process now

/-- The order of steps by age: by creation, then by identifier. -/
def isNotAfter (left right : Step) : Bool :=
  left.created.instant < right.created.instant ||
    (left.created.instant == right.created.instant && left.id.toNat ≤ right.id.toNat)

/-- The order in which pending steps are taken up: by type, then by age. -/
def isQueuedNotAfter (left right : Step) : Bool :=
  left.type.code < right.type.code ||
    (left.type.code == right.type.code && left.isNotAfter right)

section FreshEach

variable {process : Uuid} {clock : Readings} {entries : List (StepType × Uuid)} {step : Step}

theorem map_type_freshEach :
    (freshEach process clock entries).map Step.type = entries.map Prod.fst := by
  have stamped : ((clock.stamp entries).map Prod.fst).map Prod.fst = entries.map Prod.fst := by
    rw [Readings.map_fst_stamp]
  rw [← stamped, freshEach, List.map_map, List.map_map]
  rfl

theorem map_id_freshEach :
    (freshEach process clock entries).map Step.id = entries.map Prod.snd := by
  have stamped : ((clock.stamp entries).map Prod.fst).map Prod.snd = entries.map Prod.snd := by
    rw [Readings.map_fst_stamp]
  rw [← stamped, freshEach, List.map_map, List.map_map]
  rfl

theorem mem_freshEach (member : step ∈ freshEach process clock entries) :
    ∃ entry ∈ entries, ∃ now, step = fresh entry.2 entry.1 .todo process now := by
  obtain ⟨entry, inStamped, rfl⟩ := List.mem_map.mp member
  exact ⟨entry.1, Readings.mem_of_mem_stamp inStamped, entry.2, rfl⟩

end FreshEach

end Step

/-- Steps in ascending order of age. -/
def oldestFirst (steps : List Step) : List Step :=
  steps.mergeSort Step.isNotAfter

namespace Process

def fresh (id : Uuid) (type : ProcessType) : Process where
  id := id
  type := type
  version := 0
  lease := none

/-- Whether a lease holds at an instant. -/
def isLeased (process : Process) (now : Timestamp) : Bool :=
  match process.lease with
  | some expiry => now.instant ≤ expiry.instant
  | none => false

/-- The process under its next version. -/
def raiseVersion (process : Process) : Process :=
  { process with version := process.version + 1 }

/-- Leases the process until an expiry unless a lease holds. -/
def tryLease (process : Process) (expiry now : Timestamp) : Option Process :=
  if process.isLeased now then none
  else some { process.raiseVersion with lease := some expiry }

/-- Ends the lease, if there is one. -/
def endLease (process : Process) : Option Process :=
  if process.lease.isSome then some { process.raiseVersion with lease := none }
  else none

def withSteps (process : Process) (steps : List Step) : ProcessDetail :=
  { process with steps }

end Process

/-- What the statuses of its steps say about a process. -/
inductive Progress where
  | failed
  | inProgress
  | completed
deriving DecidableEq, Repr

namespace Progress

/-- A failed step outweighs pending steps, and these outweigh all others. -/
def ofStatuses (statuses : List (Option StepStatus)) : Progress :=
  if some .failed ∈ statuses then failed
  else if some .todo ∈ statuses then inProgress
  else completed

def text : Progress → String
  | failed => "failed"
  | inProgress => "in_progress"
  | completed => "completed"

end Progress

end Workflow
