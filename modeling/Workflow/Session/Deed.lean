import Workflow.CommandLine
import Workflow.Connection
import Workflow.Handlers
import Workflow.Manual
import Workflow.Settings.Basic

/-!
# What happens in a session

In a session several participants share one store.  Each of them stages changes of its
own.  A session is a list of deeds; executors are scripted and can do deeds themselves
while they run a step.

Members of catalogues are given by their numbers, so a deed can name one that does not
exist.  The number is looked up where it is used.
-/

namespace Workflow.Session

/-- A method of a participant that can be made to fail. -/
inductive Method where
  | save
  | discover
  | pendingSteps
deriving DecidableEq, Repr

structure StepRow where
  id : Uuid
  type : Int
  status : Int
  process : Uuid
  created : Timestamp
  changed : Option Timestamp
  message : Option String
deriving DecidableEq, Repr

structure ProcessRow where
  id : Uuid
  type : Int
  version : Int
  lease : Option Timestamp
  steps : List StepRow
deriving DecidableEq, Repr

structure StepPatch where
  status : Field (Option Int)
  message : Field (Option String)
deriving DecidableEq, Repr

/-- Where the data for a manual context comes from. -/
inductive ManualSource where
  | stored (process : Uuid) (types : Option (List Int))
  | missing
  | given (process : Option ProcessRow) (steps : Option (List StepRow))
deriving DecidableEq, Repr

/-- The settings of a worker as entries of a document. -/
abbrev SettingsEntries := List (Document × Document)

structure Signal where
  /-- Whether the run listens to the cancellation of the deed at all. -/
  isHeard : Bool
  /-- Whether the deed is cancelled from the start. -/
  isSet : Bool
  /-- After how many seconds the deed is cancelled. -/
  after : Option Float

inductive Deed where
  | seed (processes : List ProcessRow) (steps : List StepRow)
  | advance (seconds : Float)
  | setClock (now : Timestamp)
  | fail (method : Method) (failure : Failure) (times skipped : Nat)
  | createProcess (type : Int)
  | createStep (type status : Int) (process : Uuid)
  | createSteps (items : List (Int × Int × Uuid))
  | modifyStep (step : Uuid) (patch : StepPatch)
  | modifySteps (patches : List (Uuid × StepPatch))
  | modifyProcess (process : Uuid) (expected : Int) (update : ProcessUpdate)
  | removeStep (step : Uuid)
  | save
  | clear
  | active (types steps : List Int) (date : Timestamp) (handle : Option String)
  /-- Iterates a kept cursor again, with deeds after some of the items. -/
  | iterate (cursor : String) (during : List (Nat × List (String × Deed)))
  | pendingSteps (process : Uuid)
  | stepTypes (process : Uuid)
  | get (process : Uuid) (handle : Option String)
  | list
  | verify (process : Uuid) (types : Option (List Int))
  | requestLease (handle : String) (expiry : Timestamp) (now : Option Timestamp)
  | renewLease (handle : String) (expiry : Timestamp)
  | releaseLease (handle : String)
  | raiseVersion (handle : String)
  | releaseOrRaise (handle : String)
  | show (handle : String)
  | manual (handle : String) (step : Int) (owner : String) (now : Option Timestamp)
      (source : ManualSource)
  | manualLease (handle : String) (expiry : Timestamp)
  | manualSkip (handle : String) (types : List Int)
  | manualSkipExcept (handle : String) (types : List Int)
  | manualSchedule (handle : String) (types : List Int)
  | manualFinalize (handle : String)
  | dispatch (type : Int) (steps : List Int)
  | stage (type : Int) (steps : List Int)
  | registry (executors : List String)
  | drain (process : Uuid) (type : Int) (executors : List String) (commits : Bool)
      (limit : Option Nat)
  | cycle (executors : List String) (settings : SettingsEntries) (signal : Signal)
  | attempt (handle : String) (executors : List String) (settings : SettingsEntries)
  | run (executors : List String) (settings : SettingsEntries) (lifespan : Option Float)
      (signal : Signal)
  | commandLine (arguments : List String) (fresh : Bool) (document : Option String)

/-- A deed and the participant who does it. -/
abbrev Order := String × Deed

/-- What a script does before it gives a result: deeds of participants, a cancellation
of the deed that is going on, a pause, a failure. -/
structure Interlude where
  orders : List Order
  cancels : Bool
  delay : Option Float
  failure : Option Failure

structure StepScript where
  interlude : Interlude
  modified : Bool
  status : Int
  schedule : Option (List Int)
  skip : Option (List Int)
  message : Option String

structure PreparationScript where
  interlude : Interlude
  modified : Bool
  schedule : Option (List Int)

inductive ExecutorKind where
  | direct
  | handlers
deriving DecidableEq, Repr

/-- A scripted executor.  Each run of a step type takes the next outcome of its list;
the last one repeats. -/
structure Script where
  name : String
  kind : ExecutorKind
  type : ProcessType
  outcomes : List (StepType × List StepScript)
  leased : List StepType
  preparation : PreparationScript

/-- The step types that a scripted executor can run. -/
def Script.registration (script : Script) : Registration where
  type := script.type
  executable := script.outcomes.map Prod.fst

/-- What a deed replies. -/
inductive Reply where
  | nothing
  | process (process : ProcessDetail)
  | process? (process : Option ProcessDetail)
  | processes (processes : List ProcessDetail)
  | step (step : Step)
  | steps (steps : List Step)
  | ids (ids : List Uuid)
  | pendingSteps (steps : List PendingStep)
  | types (types : List StepType)
  | loaded (loaded : Option Loaded)
  | released (changed : Bool) (process : ProcessDetail)
  | context (context : ManualContext)
  | scheduled (context : ManualContext) (created : List Uuid)
  | registry (types : List ProcessType) (steps : List StepType)
  | drained (results : List DrainResult)
  | count (count : Nat)
  /-- When cycles began and how long the run took. -/
  | ran (cycles : List Float) (elapsed : Float)
  | ending (ending : CommandLine.Ending)

structure Answer where
  outcome : Except Failure Reply
  /-- Whether the participant has staged changes afterwards. -/
  pending : Bool
  log : List Notice
  calls : List Call

/-- Something observed while a deed is going on. -/
inductive Event where
  | prepared (process : Uuid) (types : List StepType) (clock : Timestamp)
  | loaded (process : Uuid) (clock : Timestamp)
  | ran (type : StepType) (process : Uuid) (types : List StepType) (clock : Timestamp)
  | yielded (result : DrainResult) (pending : Bool)
deriving DecidableEq, Repr

/-- An event and the answers to the deeds that were done in its course. -/
structure Trace where
  event : Event
  answers : List Answer

/-- The answer to a deed of the session itself. -/
structure FullAnswer where
  answer : Answer
  traces : List Trace

/-! ### Looking up numbers -/

def members {α : Type} [Catalogue α] (numbers : List Int) : Except Failure (List α) :=
  numbers.mapM Catalogue.member

/-- The members with given numbers, if any numbers are given. -/
def members? {α : Type} [Catalogue α] (numbers : Option (List Int)) :
    Except Failure (Option (List α)) :=
  match numbers with
  | some numbers => some <$> members numbers
  | none => .ok none

def StepRow.toStep (row : StepRow) : Except Failure Step := do
  let type ← Catalogue.member row.type
  let status ← Catalogue.member row.status
  return {
    id := row.id
    type
    status := some status
    process := row.process
    created := row.created
    changed := row.changed
    message := row.message }

def ProcessRow.toDetail (row : ProcessRow) : Except Failure ProcessDetail := do
  let type ← Catalogue.member row.type
  let steps ← row.steps.mapM StepRow.toStep
  return { id := row.id, type, version := row.version, lease := row.lease, steps }

def StepPatch.toUpdate (patch : StepPatch) : Except Failure StepUpdate :=
  match patch.status with
  | .keep => .ok ⟨.keep, patch.message⟩
  | .write none => .ok ⟨.write none, patch.message⟩
  | .write (some number) => do
    return ⟨.write (some (← Catalogue.member number)), patch.message⟩

def StepScript.toResult (script : StepScript) : Except Failure StepResult := do
  let status ← Catalogue.member script.status
  let schedule ← members? script.schedule
  let skip ← members? script.skip
  return { modified := script.modified, status, schedule, skip, message := script.message }

def PreparationScript.toPreparation (script : PreparationScript) :
    Except Failure Preparation := do
  let schedule ← members? script.schedule
  return { modified := script.modified, schedule }

end Workflow.Session
