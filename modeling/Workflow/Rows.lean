import Workflow.Change
import Workflow.Query

/-!
# Rows in memory

The store without a database: rows of processes and of steps in the order of their
first insertion.  Inserting a row whose identifier exists replaces that row in its
place.  A batch is applied change by change; if one change fails, none takes effect.
-/

namespace Workflow

/-- Puts a row where a row with its key stands, or at the end. -/
def putRow {α : Type} (key : α → Uuid) (row : α) : List α → List α
  | [] => [row]
  | first :: rest =>
    if key first = key row then row :: rest else first :: putRow key row rest

def findRow? {α : Type} (key : α → Uuid) (id : Uuid) (rows : List α) : Option α :=
  rows.find? fun row => key row == id

/-- All rows except those with a key. -/
def dropRow {α : Type} (key : α → Uuid) (id : Uuid) (rows : List α) : List α :=
  rows.filter fun row => key row != id

/-- The rows of a store. -/
structure Rows where
  processes : List Process
  steps : List Step
deriving DecidableEq, Repr

namespace Rows

def empty : Rows := ⟨[], []⟩

def process? (rows : Rows) (id : Uuid) : Option Process :=
  findRow? Process.id id rows.processes

def step? (rows : Rows) (id : Uuid) : Option Step :=
  findRow? Step.id id rows.steps

def apply (rows : Rows) : Change → Except Failure Rows
  | .insertProcess process =>
    .ok { rows with processes := putRow Process.id process rows.processes }
  | .insertStep step =>
    .ok { rows with steps := putRow Step.id step rows.steps }
  | .updateProcess id expected update =>
    match rows.process? id with
    | none => .error (.staleProcess id expected)
    | some process =>
      if process.version = expected then
        .ok { rows with
          processes := putRow Process.id (update.apply process) rows.processes }
      else .error (.staleProcess id expected)
  | .updateStep id update changed =>
    match rows.step? id with
    | none => .error (.missingStep id)
    | some step =>
      .ok { rows with steps := putRow Step.id (update.apply changed step) rows.steps }
  | .deleteStep id =>
    match rows.step? id with
    | none => .error (.missingStep id)
    | some _ => .ok { rows with steps := dropRow Step.id id rows.steps }

/-- Applies a batch in order, all of it or nothing. -/
def commit (rows : Rows) (batch : Batch) : Except Failure Rows :=
  batch.foldlM apply rows

def stepsOf (rows : Rows) (process : Uuid) : List Step :=
  oldestFirst (rows.steps.filter fun step => step.process == process)

def detail? (rows : Rows) (id : Uuid) : Option ProcessDetail :=
  (rows.process? id).map fun process => process.withSteps (rows.stepsOf id)

/-- All processes with their steps, in the order of their insertion. -/
def details (rows : Rows) : List ProcessDetail :=
  rows.processes.map fun process => process.withSteps (rows.stepsOf process.id)

/-- The pending steps of a process, by type and then oldest first. -/
def pendingSteps (rows : Rows) (process : Uuid) : List PendingStep :=
  let pending := rows.steps.filter fun step => step.process == process && step.isPending
  (pending.mergeSort Step.isQueuedNotAfter).map fun step => ⟨step.id, step.type⟩

/-- The types of all steps of a process in any status, in ascending order. -/
def stepTypes (rows : Rows) (process : Uuid) : List StepType :=
  typesOf ((rows.steps.filter fun step => step.process == process).map Step.type)

def load? (rows : Rows) (id : Uuid) (filter : Option (List StepType)) : Option Loaded :=
  (rows.detail? id).map fun process => .ofDetail process filter

/-- Whether a stored process is eligible for a drain. -/
def isEligible (rows : Rows) (query : Eligible) (process : Process) : Bool :=
  query.types.contains process.type
    && !process.isLeased query.date
    && rows.steps.any fun step =>
      step.process == process.id && step.isPending && query.steps.contains step.type

/-- The first eligible processes after a key, in ascending order of identifiers. -/
def eligiblePage (rows : Rows) (query : Eligible) (after : Option Uuid) (limit : Nat) :
    List Process :=
  let candidates := (rows.processes.filter (rows.isEligible query)).mergeSort
    fun left right => left.id.toNat ≤ right.id.toNat
  let remaining :=
    match after with
    | some key => candidates.filter fun (process : Process) => key.isBefore process.id
    | none => candidates
  remaining.take limit

end Rows

end Workflow
