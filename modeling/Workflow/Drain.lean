import Workflow.Program
import Workflow.Resolution

/-!
# Draining a process

A drain runs the pending steps of one process in ascending order of their types,
each type at most once.  It keeps its own picture of the process: which steps are
pending, which types the process has in any status, and which types are still to be
run.  Every result of an executor changes the picture and stages the same change.

After each unit of work the drain tells its consumer what to do with the staged
changes, and goes on if the consumer agrees.  A drain ends because every result
either takes a type off the queue or adds types the process did not have, and there
are only finitely many types.
-/

namespace Workflow

/-- The step types that the executor of a process type can run. -/
structure Registration where
  type : ProcessType
  executable : List StepType
deriving DecidableEq, Repr

/-- The executors of a worker, one for each process type, in order. -/
structure Registry where
  entries : List Registration
deriving DecidableEq, Repr

namespace Registry

def find? (registry : Registry) (type : ProcessType) : Option Registration :=
  registry.entries.find? fun entry => entry.type == type

/-- Collects registrations; two for one process type are refused. -/
def ofList (entries : List Registration) : Except Failure Registry :=
  entries.foldlM register ⟨[]⟩
where
  register (registry : Registry) (entry : Registration) : Except Failure Registry :=
    if (registry.find? entry.type).isSome then .error (.duplicateExecutor entry.type)
    else .ok ⟨registry.entries ++ [entry]⟩

def types (registry : Registry) : List ProcessType :=
  registry.entries.map Registration.type

/-- The step types that some executor can run, in ascending order. -/
def executable (registry : Registry) : List StepType :=
  typesOf (registry.entries.flatMap Registration.executable)

end Registry

/-- The picture that a drain has of its process. -/
structure Agenda where
  /-- The pending steps by type, each group oldest first. -/
  pending : List (StepType × List Uuid)
  /-- The types the process has in any status. -/
  known : List StepType
  /-- The types still to be run. -/
  queue : List StepType
  /-- The types the executor can run. -/
  executable : List StepType
deriving DecidableEq, Repr

namespace Agenda

/-- Adds a pending step behind those of its type, or as a new group at the end. -/
def addPending (step : PendingStep) :
    List (StepType × List Uuid) → List (StepType × List Uuid)
  | [] => [(step.type, [step.id])]
  | group :: groups =>
    if group.1 = step.type then (group.1, group.2 ++ [step.id]) :: groups
    else group :: addPending step groups

/-- The picture right after loading. -/
def load (executable : List StepType) (steps : List PendingStep) (types : List StepType) :
    Agenda :=
  let pending := steps.foldl (fun groups step => addPending step groups) []
  let pendingTypes := pending.map Prod.fst
  { pending
    known := types ++ pendingTypes.filter fun type => !types.contains type
    queue := pendingTypes.filter executable.contains
    executable }

def types (agenda : Agenda) : List StepType :=
  agenda.pending.map Prod.fst

def stepsOf (agenda : Agenda) (type : StepType) : List Uuid :=
  (agenda.pending.lookup type).getD []

def smallest : List StepType → Option StepType
  | [] => none
  | type :: types =>
    match smallest types with
    | none => some type
    | some other => if type.code ≤ other.code then some type else some other

/-- Takes the smallest type off the queue. -/
def next? (agenda : Agenda) : Option (StepType × Agenda) :=
  (smallest agenda.queue).map fun type =>
    (type, { agenda with queue := agenda.queue.filter (· != type) })

/-- Removes the group of a type. -/
def dropType (agenda : Agenda) (type : StepType) : Agenda :=
  { agenda with pending := agenda.pending.filter fun group => group.1 != type }

/-- Keeps only the oldest pending step of a type. -/
def keepOldest (agenda : Agenda) (type : StepType) : Agenda :=
  { agenda with
    pending := agenda.pending.map fun group =>
      if group.1 = type then (group.1, group.2.take 1) else group }

/-- Gives the pending steps of the type that ran its status.  A step that stays
pending without a message is left alone. -/
def settle (agenda : Agenda) (type : StepType) (status : StepStatus)
    (message : Option String) : Agenda × List (Uuid × StepUpdate) :=
  let steps := agenda.stepsOf type
  if (status = .todo ∧ message = none) ∨ steps = [] then (agenda, [])
  else
    (if status = .todo then agenda.keepOldest type else agenda.dropType type,
      Resolution.updates steps status message)

def skipType (agenda : Agenda) (type : StepType) : Agenda × List (Uuid × StepUpdate) :=
  let steps := agenda.stepsOf type
  if steps = [] then (agenda.dropType type, [])
  else
    ({ agenda.dropType type with queue := agenda.queue.filter (· != type) },
      Resolution.updates steps .skipped none)

/-- Skips the pending steps of several types. -/
def skip (agenda : Agenda) : List StepType → Agenda × List (Uuid × StepUpdate)
  | [] => (agenda, [])
  | type :: types =>
    let first := agenda.skipType type
    let others := first.1.skip types
    (others.1, first.2 ++ others.2)

/-- The types among the requested ones that the process does not have, each once. -/
def unknown (agenda : Agenda) (types : List StepType) : List StepType :=
  (types.filter fun type => !agenda.known.contains type).eraseDups

/-- Adds a new pending step unless its type is known. -/
def addStep (agenda : Agenda) (type : StepType) (step : Uuid) : Agenda :=
  if type ∈ agenda.known then agenda
  else
    { agenda with
      pending := agenda.pending ++ [(type, [step])]
      known := type :: agenda.known
      queue := if agenda.executable.contains type then type :: agenda.queue else agenda.queue }

def addSteps (agenda : Agenda) (steps : List (StepType × Uuid)) : Agenda :=
  steps.foldl (fun agenda step => agenda.addStep step.1 step.2) agenda

/-- What a result does to the steps that are pending. -/
def afterResult (agenda : Agenda) (type : StepType) (result : StepResult) :
    Agenda × List (Uuid × StepUpdate) :=
  let settled := agenda.settle type result.status result.message
  let skipped := settled.1.skip (result.skip.getD [])
  (skipped.1, settled.2 ++ skipped.2)

/-- How many types the process does not have. -/
def unknownCount (known : List StepType) : Nat :=
  (StepType.members.filter fun type => !known.contains type).length

/-- How much a drain can still do: each type it does not know counts twice, once
for becoming known and once for being run. -/
def measure (agenda : Agenda) : Nat :=
  2 * unknownCount agenda.known + agenda.queue.length

/-! ### Every round lowers the measure -/

theorem smallest_mem {types : List StepType} {type : StepType}
    (found : smallest types = some type) : type ∈ types := by
  induction types generalizing type with
  | nil => simp [smallest] at found
  | cons first rest induction =>
    unfold smallest at found
    split at found
    · simp_all
    · rename_i other otherFound
      split at found
      · simp_all
      · simp only [Option.some.injEq] at found
        subst found
        exact List.mem_cons_of_mem first (induction otherFound)

theorem length_filter_ne_lt {types : List StepType} {type : StepType}
    (present : type ∈ types) : (types.filter (· != type)).length < types.length := by
  rw [List.length_filter_lt_length_iff_exists]
  exact ⟨type, present, by simp⟩

theorem measure_of_next? {agenda rest : Agenda} {type : StepType}
    (found : agenda.next? = some (type, rest)) : rest.measure < agenda.measure := by
  simp only [next?, Option.map_eq_some_iff, Prod.mk.injEq] at found
  obtain ⟨smallestType, isSmallest, rfl, rfl⟩ := found
  have shorter := length_filter_ne_lt (smallest_mem isSmallest)
  simp only [measure]
  omega

theorem unknownCount_cons_lt {known : List StepType} {type : StepType}
    (isNew : type ∉ known) : unknownCount (type :: known) < unknownCount known := by
  have narrowed :
      (StepType.members.filter fun other => !(type :: known).contains other) =
        (StepType.members.filter fun other => !known.contains other).filter
          (· != type) := by
    rw [List.filter_filter]
    apply List.filter_congr
    intro other _
    by_cases same : other = type <;> simp [same]
  unfold unknownCount
  rw [narrowed]
  apply length_filter_ne_lt
  simp [List.mem_filter, StepType.mem_members, isNew]

theorem measure_addStep_le (agenda : Agenda) (type : StepType) (step : Uuid) :
    (agenda.addStep type step).measure ≤ agenda.measure := by
  unfold addStep
  split
  · exact Nat.le_refl _
  · rename_i isNew
    have fewer := unknownCount_cons_lt isNew
    simp only [measure]
    by_cases canRun : agenda.executable.contains type = true
    · rw [if_pos canRun, List.length_cons]
      omega
    · rw [if_neg canRun]
      omega

theorem measure_addSteps_le (agenda : Agenda) (steps : List (StepType × Uuid)) :
    (agenda.addSteps steps).measure ≤ agenda.measure := by
  induction steps generalizing agenda with
  | nil => exact Nat.le_refl _
  | cons step steps induction =>
    exact Nat.le_trans (induction (agenda.addStep step.1 step.2))
      (measure_addStep_le agenda step.1 step.2)

theorem measure_settle (agenda : Agenda) (type : StepType) (status : StepStatus)
    (message : Option String) :
    (agenda.settle type status message).1.measure = agenda.measure := by
  simp only [settle]
  split
  · rfl
  · split <;> rfl

theorem measure_skipType_le (agenda : Agenda) (type : StepType) :
    (agenda.skipType type).1.measure ≤ agenda.measure := by
  simp only [skipType]
  split
  · exact Nat.le_refl _
  · have shorter := List.length_filter_le (· != type) agenda.queue
    simp only [measure, dropType]
    omega

theorem measure_skip_le (agenda : Agenda) (types : List StepType) :
    (agenda.skip types).1.measure ≤ agenda.measure := by
  induction types generalizing agenda with
  | nil => exact Nat.le_refl _
  | cons type types induction =>
    exact Nat.le_trans (induction (agenda.skipType type).1)
      (measure_skipType_le agenda type)

theorem measure_afterResult_le (agenda : Agenda) (type : StepType) (result : StepResult) :
    (agenda.afterResult type result).1.measure ≤ agenda.measure := by
  have skipped := measure_skip_le
    (agenda.settle type result.status result.message).1 (result.skip.getD [])
  rw [measure_settle] at skipped
  exact skipped

end Agenda

namespace Drain

/-- Decides for a unit of work what happens to it, and whether to go on. -/
abbrev Consumer := DrainResult → Action Bool

/-- Leaves the decision to whoever started the drain. -/
def consult (result : DrainResult) : Action Bool := do
  Action.ofExcept (← Action.ask (.consult result))

/-- Stages a new pending step for each of some types. -/
def stageSteps (process : Uuid) : List StepType → Action (List (StepType × Uuid))
  | [] => return []
  | type :: types => do
    let step ← Action.ask (.stageStep type process)
    let others ← stageSteps process types
    return (type, step) :: others

def stageUpdates (updates : List (Uuid × StepUpdate)) : Action Unit :=
  if updates.isEmpty then return () else Action.ask (.stageUpdates updates)

/-- Asks for a renewed lease before a step that needs one; whether to go on. -/
def renewIfNeeded (executor : ProcessType) (type : StepType) (consume : Consumer) :
    Action Bool := do
  if ← Action.ofExcept (← Action.ask (.needsLease executor type)) then
    consume .leaseRequested
  else return true

/-- Runs the steps of the queue one after the other. -/
def runQueue (executor : ProcessType) (process : Uuid) (consume : Consumer)
    (agenda : Agenda) : Action Unit := do
  if ← Action.ask .isCancelled then
    Action.note (.drainCancelled process)
  else
    match _found : agenda.next? with
    | none => return ()
    | some (type, rest) =>
      if ← renewIfNeeded executor type consume then
        let result ← Action.ofExcept
          (← Action.ask (.execute executor process type rest.types))
        let settled := rest.afterResult type result
        stageUpdates settled.2
        let created ← stageSteps process (settled.1.unknown (result.schedule.getD []))
        Action.note (.stepFinished type process result.status)
        let modified := result.modified || !settled.2.isEmpty || !created.isEmpty
        if ← consume (.ofModified modified) then
          if result.status = .todo then
            Action.note (.stepStillPending type process)
          else runQueue executor process consume (settled.1.addSteps created)
termination_by agenda.measure
decreasing_by
  exact Nat.lt_of_le_of_lt (Agenda.measure_addSteps_le _ _)
    (Nat.lt_of_le_of_lt (Agenda.measure_afterResult_le _ _ _)
      (Agenda.measure_of_next? _found))

end Drain

def Registry.drain (registry : Registry) (process : Uuid) (type : ProcessType)
    (consume : Drain.Consumer) : Action Unit := do
  match registry.find? type with
  | none => throw (.unregisteredType type)
  | some registration =>
    let steps ← Action.ofExcept (← Action.ask (.pendingSteps process))
    let types ← Action.ofExcept (← Action.ask (.stepTypes process))
    let agenda := Agenda.load registration.executable steps types
    let preparation ← Action.ofExcept
      (← Action.ask (.prepare type process agenda.types))
    let created ← Drain.stageSteps process
      (agenda.unknown (preparation.schedule.getD []))
    let modified := preparation.modified || !created.isEmpty
    if ← consume (.ofModified modified) then
      Drain.runQueue type process consume (agenda.addSteps created)

end Workflow
