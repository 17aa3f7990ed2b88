import Workflow.Dispatch
import Workflow.Paging.Changing
import Workflow.Session.Crew
import Workflow.Worker

/-!
# Working in a session

Cycles, runs and single attempts of a participant with scripted executors.
-/

namespace Workflow.Session

/-- An act that can fail. -/
abbrev Attempted := ExceptT Failure Act

namespace Attempted

/-- An act whose outcome is a value. -/
def ofOutcome {α : Type} (act : Act (Except Failure α)) : Attempted α :=
  ExceptT.mk act

end Attempted

/-- More rounds than any session goes through. -/
def roundLimit : Nat := Paging.pageBound

/-- A worker ready to run. -/
structure Staffing where
  scripts : List Script
  registry : Registry
  settings : WorkerSettings

namespace Staffing

/-- Makes a worker ready. -/
def ofScripts (scripts : List Script) (settings : WorkerSettings) :
    Except Failure Staffing := do
  let registry ← Registry.ofList (scripts.map Script.registration)
  return { scripts, registry, settings }

def scripts? (names : List String) : Act (List Script) := do
  let world ← get
  return names.filterMap fun name =>
    world.scripts.find? fun script => script.name == name

/-- Makes a worker ready by the names of its executors. -/
def ofNames (names : List String) (entries : SettingsEntries) : Attempted Staffing := do
  let scripts ← scripts? names
  let registry ← ofExcept (Registry.ofList (scripts.map Script.registration))
  let settings ← ofExcept (WorkerSettings.ofEntries entries)
  return { scripts, registry, settings }

def term (staffing : Staffing) : LeaseTerm :=
  Span.ofSeconds staffing.settings.leaseSeconds

/-- The post of a participant who runs this worker. -/
def post (staffing : Staffing) (participant : String) (isHeard : Bool) : Post where
  participant := participant
  scripts := staffing.scripts
  isHeard := isHeard
  consult := fun _ _ => return .ok true

def cycle (staffing : Staffing) (doer : Doer) (participant : String) (isHeard : Bool) :
    Act (Except Failure Nat) :=
  (staffing.post participant isHeard).run doer
    (staffing.registry.cycle staffing.term roundLimit)

def attempt (staffing : Staffing) (doer : Doer) (participant : String) (place : Nat) :
    Act (Except Failure Unit) := do
  let post := staffing.post participant true
  return (← post.runFrom doer place (staffing.registry.attempt staffing.term)).1

def pace (staffing : Staffing) : Pace Float :=
  .usual staffing.settings.pollSeconds staffing.settings.maxAttempts.toNat

/-- What the loop of the worker needs. -/
def surroundings (staffing : Staffing) (doer : Doer) (participant : String)
    (isHeard : Bool) : Worker.Surroundings Act Float where
  isCancelled := return isHeard && (← get).cancelled
  cycle := return (← staffing.cycle doer participant isHeard).map fun _ => ()
  clock := return (← get).seconds
  share := return (← get).share
  report := fun delay failure => Act.note (.cycleFailed delay failure)
  pause := Act.pause isHeard

def work (staffing : Staffing) (doer : Doer) (participant : String) (isHeard : Bool)
    (lifespan : Option Float) : Act (Except Failure Unit) := do
  Act.note (.workerStarted staffing.registry.types)
  let ended ← Worker.runFor staffing.pace (staffing.surroundings doer participant isHeard)
    lifespan roundLimit
  match ended with
  | .error failure => return .error failure
  | .ok _ =>
    Act.note .workerStopped
    return .ok ()

end Staffing

/-! ### Creating processes -/

/-- Stages a new process with its first steps. -/
def stageProcess (participant : String) (type : ProcessType) (steps : List StepType) :
    Attempted ProcessDetail := do
  let steps ← ofExcept (Dispatch.initialTypes steps)
  let id ← Act.nextId
  let stepIds ← Act.nextIds steps.length
  let clock ← Act.readings steps.length
  let process := Dispatch.newProcess type steps id stepIds clock
  Act.stage participant (Dispatch.changes process)
  return process

/-- Creates a process and commits it; what is staged afterwards is dropped. -/
def dispatch (participant : String) (type : ProcessType) (steps : List StepType) :
    Act (Except Failure ProcessDetail) := do
  let created ← ExceptT.run do
    let process ← stageProcess participant type steps
    Attempted.ofOutcome (Act.save participant)
    return process
  Act.clear participant
  match created with
  | .error failure => return .error failure
  | .ok process =>
    Act.note (.dispatched process.id type (process.steps.map Step.type))
    return .ok process

end Workflow.Session
