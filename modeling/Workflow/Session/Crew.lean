import Workflow.Attempt
import Workflow.Session.World

/-!
# Scripted executors

A participant runs programs whose requests are answered here: the clock, the store and
the staged changes come from the world, and the executors follow their scripts.
-/

namespace Workflow.Session

/-- How a deed within a script is done. -/
abbrev Doer := Order → Act Answer

namespace Script

/-- Plays what a script does before it gives a result. -/
def playInterlude (doer : Doer) (event : Event) (interlude : Interlude) :
    Act (Except Failure Unit) := do
  let place ← Act.record event
  if !interlude.orders.isEmpty then
    let answers ← interlude.orders.mapM doer
    Act.attach place answers
  if interlude.cancels then Act.cancel
  Act.sleep (interlude.delay.getD 0)
  match interlude.failure with
  | some failure => return .error failure
  | none => return .ok ()

/-- Takes the next outcome of a step type. -/
def take (script : Script) (type : StepType) : Act (Option StepScript) := do
  let world ← get
  let key := (script.name, type)
  let count := (world.taken.lookup key).getD 0
  set { world with
    taken := (key, count + 1) :: world.taken.filter fun entry => entry.1 != key }
  match script.outcomes.lookup type with
  | none => return none
  | some outcomes => return outcomes[min count (outcomes.length - 1)]?

def runStep (script : Script) (doer : Doer) (process : Uuid) (type : StepType)
    (types : List StepType) : Act (Except Failure StepResult) := do
  match ← script.take type with
  | none => return .error (.unhandledStep type)
  | some outcome =>
    let played ← playInterlude doer (.ran type process types (← Act.now)) outcome.interlude
    return played.bind fun _ => outcome.toResult

def handlers (script : Script) : Handlers Unit where
  type := script.type
  entries := script.outcomes.map fun outcome => (outcome.1, ())
  leased := script.leased

def execute (script : Script) (doer : Doer) (process : Uuid) (type : StepType)
    (types : List StepType) : Act (Except Failure StepResult) :=
  match script.kind with
  | .direct => script.runStep doer process type types
  | .handlers =>
    script.handlers.execute (fun _ => script.runStep doer process type types) Act.note
      process type

def prepare (script : Script) (doer : Doer) (process : Uuid) (types : List StepType) :
    Act (Except Failure Preparation) := do
  let interlude := script.preparation.interlude
  match script.kind with
  | .direct =>
    let played ← playInterlude doer (.prepared process types (← Act.now)) interlude
    return played.bind fun _ => script.preparation.toPreparation
  | .handlers =>
    let played ← playInterlude doer (.loaded process (← Act.now)) interlude
    return played.map fun _ => ⟨false, none⟩

end Script

/-- Who runs a program, and with what. -/
structure Post where
  participant : String
  scripts : List Script
  /-- Whether the program listens to cancellation. -/
  isHeard : Bool
  /-- What happens after each unit of work of a drain: whether to go on. -/
  consult : DrainResult → Nat → Act (Except Failure Bool)

/-- The place of the process that a running program holds, and the units of work that
it has reported, latest first. -/
structure Running where
  place : Nat
  results : List DrainResult

namespace Post

def script? (post : Post) (type : ProcessType) : Option Script :=
  post.scripts.find? fun script => script.type == type

/-- Looks for eligible processes: the page size. -/
def discover (participant : String) : Act (Except Failure Nat) := do
  modify fun world =>
    { world with discoveries := (participant, world.seconds) :: world.discoveries }
  Act.call participant .discover do
    return Paging.limitOf (← get).pageSize

def stageStep (participant : String) (type : StepType) (status : StepStatus)
    (process : Uuid) : Act Step := do
  let step := Step.fresh (← Act.nextId) type status process (← Act.now)
  Act.stage participant [.insertStep step]
  return step

def serve (doer : Doer) (post : Post) :
    (request : Request) → StateT Running Act request.Reply
  | .note notice => do Act.note notice
  | .now => do return ← Act.now
  | .isCancelled => do return post.isHeard && (← getThe World).cancelled
  | .held => do return (← Act.object (← get).place).toProcess
  | .hold process => do
    let place ← Act.place (process.withSteps [])
    modify fun running => { running with place }
  | .lease operation => do
    return ← Act.performLease post.participant (← get).place operation
  | .pendingSteps process => do
    return ← Act.call post.participant .pendingSteps
      (Act.access (Store.pendingSteps process))
  | .stepTypes process => do return ← Act.access (Store.stepTypes process)
  | .stageUpdates updates => do
    Act.stage post.participant (Change.ofUpdates (← Act.readings updates.length) updates)
  | .stageStep type process => do
    return (← stageStep post.participant type .todo process).id
  | .save => do return ← Act.save post.participant
  | .discard => do Act.clear post.participant
  | .prepare executor process types => do
    match post.script? executor with
    | none => return .error (.unregisteredType executor)
    | some script => return ← script.prepare doer process types
  | .needsLease executor type => do
    return .ok (((post.script? executor).map fun script =>
      script.handlers.needsLease type).getD false)
  | .execute executor process type types => do
    match post.script? executor with
    | none => return .error (.unregisteredType executor)
    | some script => return ← script.execute doer process type types
  | .discover _ => do return ← discover post.participant
  | .eligiblePage query after limit => do
    return ← Act.access (Store.eligiblePage query after limit)
  | .consult result => do
    modify fun running => { running with results := result :: running.results }
    return ← post.consult result (← get).results.length

/-- Runs an action, holding the process at a place; also the units of work reported. -/
def runFrom {α : Type} (doer : Doer) (post : Post) (place : Nat) (action : Action α) :
    Act (Except Failure α × List DrainResult) := do
  let (outcome, running) ← (Program.run (serve doer post) action.run).run ⟨place, []⟩
  return (outcome, running.results.reverse)

/-- Runs an action that holds no process at first. -/
def run {α : Type} (doer : Doer) (post : Post) (action : Action α) :
    Act (Except Failure α) := do
  return (← runFrom doer post (← get).objects.size action).1

end Post

end Workflow.Session
