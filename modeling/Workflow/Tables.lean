import Workflow.Change
import Workflow.Query

/-!
# Two tables

The store in a relational database.  Time stamps are kept as fixed-width text in
universal time, so that comparing texts compares instants.  Identifiers are unique,
a step must name a stored process and must have a status, and integer columns hold
64 bits.  A message consists of Unicode characters, and a column holds any number of
them.  A batch runs in one transaction.  A question carries a value for everything
that it compares with, and how many values it can carry depends on the database.
-/

namespace Workflow

structure ProcessRecord where
  id : Uuid
  type : ProcessType
  version : Int
  lease : Option String
deriving DecidableEq, Repr

structure StepRecord where
  id : Uuid
  type : StepType
  status : StepStatus
  process : Uuid
  created : String
  changed : Option String
  message : Option String
deriving DecidableEq, Repr

structure Tables where
  /-- How many values a question can carry. -/
  capacity : Nat
  processes : List ProcessRecord
  steps : List StepRecord
deriving DecidableEq, Repr

namespace Tables

/-- Empty tables of a database that takes so many values with a question. -/
def ofCapacity (capacity : Nat) : Tables := ⟨capacity, [], []⟩

/-- How many values a question can carry unless the database was built otherwise. -/
def usualCapacity : Nat := 32766

def empty : Tables := ofCapacity usualCapacity

/-- A time stamp as column text. -/
def writeTime (stamp : Timestamp) : Except Failure String :=
  match stamp.fixedWidth? with
  | some text => .ok text
  | none => .error .dateOutOfRange

def writeTime? (stamp : Option Timestamp) : Except Failure (Option String) :=
  match stamp with
  | some stamp => some <$> writeTime stamp
  | none => .ok none

/-- A time stamp from column text. -/
def readTime (text : String) : Except Failure Timestamp :=
  match Timestamp.ofText? text with
  | some stamp => .ok stamp
  | none => .error (.malformedTime text)

def readTime? (text : Option String) : Except Failure (Option Timestamp) :=
  match text with
  | some text => some <$> readTime text
  | none => .ok none

/-- The first integer that an integer column cannot hold. -/
def columnBound : Int := 0x8000000000000000

/-- An integer that an integer column can hold. -/
def columnInteger (value : Int) : Except Failure Int :=
  if -columnBound ≤ value ∧ value < columnBound then .ok value else .error .integerBeyondColumn

def readProcess (record : ProcessRecord) : Except Failure Process := do
  let lease ← readTime? record.lease
  return { id := record.id, type := record.type, version := record.version, lease }

def readStep (record : StepRecord) : Except Failure Step := do
  let created ← readTime record.created
  let changed ← readTime? record.changed
  return {
    id := record.id
    type := record.type
    status := some record.status
    process := record.process
    created
    changed
    message := record.message }

def writeProcess (process : Process) : Except Failure ProcessRecord := do
  let lease ← writeTime? process.lease
  let version ← columnInteger process.version
  return { id := process.id, type := process.type, version, lease }

def writeStep (step : Step) : Except Failure StepRecord := do
  let created ← writeTime step.created
  let changed ← writeTime? step.changed
  match step.status with
  | none => .error (.missingColumnValue "process_step.process_step_status_id")
  | some status =>
    return {
      id := step.id
      type := step.type
      status
      process := step.process
      created
      changed
      message := step.message }

def writeLease (lease : Field (Option Timestamp)) : Except Failure (Field (Option String)) :=
  match lease with
  | .write value => .write <$> writeTime? value
  | .keep => .ok .keep

/-- The row of a process after an update. -/
def updateProcessRecord (version : Int) (lease : Field (Option String))
    (record : ProcessRecord) : ProcessRecord :=
  { record with version, lease := lease.apply record.lease }

/-- The row of a step after an update; the status must not be cleared. -/
def updateStepRecord (update : StepUpdate) (changed : String) (record : StepRecord) :
    Except Failure StepRecord :=
  match update.status.apply (some record.status) with
  | none => .error (.missingColumnValue "process_step.process_step_status_id")
  | some status =>
    .ok { record with
      status
      message := update.message.apply record.message
      changed := some changed }

def apply (tables : Tables) : Change → Except Failure Tables
  | .insertProcess process => do
    let record ← writeProcess process
    if tables.processes.any fun row => row.id == record.id then
      .error (.duplicateKey "process.id")
    else .ok { tables with processes := tables.processes ++ [record] }
  | .insertStep step => do
    let record ← writeStep step
    if tables.steps.any fun row => row.id == record.id then
      .error (.duplicateKey "process_step.id")
    else if tables.processes.any fun row => row.id == record.process then
      .ok { tables with steps := tables.steps ++ [record] }
    else .error .missingReference
  | .updateProcess id expected update => do
    let lease ← writeLease update.lease
    let version ← columnInteger update.version
    let expected ← columnInteger expected
    let isTarget (row : ProcessRecord) : Bool := row.id == id && row.version == expected
    if tables.processes.any isTarget then
      .ok { tables with
        processes := tables.processes.map fun row =>
          if isTarget row then updateProcessRecord version lease row else row }
    else .error (.staleProcess id expected)
  | .updateStep id update changed => do
    let changed ← writeTime changed
    if tables.steps.any fun row => row.id == id then
      let steps ← tables.steps.mapM fun row =>
        if row.id = id then updateStepRecord update changed row else .ok row
      .ok { tables with steps }
    else .error (.missingStep id)
  | .deleteStep id =>
    if tables.steps.any fun row => row.id == id then
      .ok { tables with steps := tables.steps.filter fun row => row.id != id }
    else .error (.missingStep id)

/-- Runs a batch in one transaction. -/
def commit (tables : Tables) (batch : Batch) : Except Failure Tables :=
  batch.foldlM apply tables

/-- The order of step rows by creation text, then identifier. -/
def isNotAfter (left right : StepRecord) : Bool :=
  left.created < right.created ||
    (left.created == right.created && left.id.toNat ≤ right.id.toNat)

/-- The order of step rows by type, creation text and identifier. -/
def isQueuedNotAfter (left right : StepRecord) : Bool :=
  left.type.code < right.type.code ||
    (left.type.code == right.type.code && isNotAfter left right)

/-- The processes in ascending order of identifiers. -/
def sortedProcesses (tables : Tables) : List ProcessRecord :=
  tables.processes.mergeSort fun left right => left.id.toNat ≤ right.id.toNat

def record? (tables : Tables) (id : Uuid) : Option ProcessRecord :=
  tables.processes.find? fun row => row.id == id

def stepsOf (tables : Tables) (process : Uuid) : Except Failure (List Step) :=
  ((tables.steps.filter fun row => row.process == process).mergeSort isNotAfter).mapM readStep

def detailOf (tables : Tables) (record : ProcessRecord) : Except Failure ProcessDetail := do
  let steps ← tables.stepsOf record.id
  let process ← readProcess record
  return process.withSteps steps

def detail? (tables : Tables) (id : Uuid) : Except Failure (Option ProcessDetail) :=
  match tables.record? id with
  | some record => some <$> tables.detailOf record
  | none => .ok none

/-- All processes with their steps, in ascending order of identifiers. -/
def details (tables : Tables) : Except Failure (List ProcessDetail) :=
  tables.sortedProcesses.mapM tables.detailOf

/-- The pending steps of a process, by type and then oldest first. -/
def pendingSteps (tables : Tables) (process : Uuid) : List PendingStep :=
  let pending := tables.steps.filter fun row => row.process == process && row.status == .todo
  (pending.mergeSort isQueuedNotAfter).map fun row => ⟨row.id, row.type⟩

/-- The types of all steps of a process in any status, in ascending order. -/
def stepTypes (tables : Tables) (process : Uuid) : List StepType :=
  typesOf ((tables.steps.filter fun row => row.process == process).map StepRecord.type)

/-- A process and its pending steps that a filter allows. -/
def load? (tables : Tables) (id : Uuid) (filter : Option (List StepType)) :
    Except Failure (Option Loaded) := do
  match ← tables.detail? id with
  | some process => return some (.ofDetail process filter)
  | none => return none

/-- Whether a row meets the conditions of a query whose date is given as text. -/
def isEligible (tables : Tables) (query : Eligible) (date : String)
    (record : ProcessRecord) : Bool :=
  query.types.contains record.type
    && (match record.lease with
      | none => true
      | some expiry => decide (expiry < date))
    && tables.steps.any fun row =>
      row.process == record.id && row.status == .todo && query.steps.contains row.type

/-- How many values the question for a page carries: all types of processes and of steps, repeated
or not, the date, the status of a pending step, twice the key, and the size of the page. -/
def valueCount (query : Eligible) : Nat :=
  query.types.length + query.steps.length + 5

def carry (tables : Tables) (count : Nat) : Except Failure Unit :=
  if count ≤ tables.capacity then .ok () else .error .tooManyValues

/-- The first eligible processes after a key, in ascending order of identifiers. -/
def eligiblePage (tables : Tables) (query : Eligible) (after : Option Uuid) (limit : Nat) :
    Except Failure (List Process) := do
  if query.types.isEmpty || query.steps.isEmpty then return []
  let date ← writeTime query.date
  tables.carry (valueCount query)
  let limit := (← columnInteger limit).toNat
  let chosen := tables.sortedProcesses.filter fun record =>
    tables.isEligible query date record &&
      match after with
      | none => true
      | some key => key.isBefore record.id
  (chosen.take limit).mapM readProcess

end Tables

end Workflow
