import Workflow.Lease
import Workflow.Notice
import Workflow.Query

/-!
# Programs of requests

The work of a worker is a program that asks its surroundings for one thing at a
time and goes on with the reply.  The surroundings own the shared store, the clock,
the executors, the copy of the process that the worker holds and the changes it has
staged.  A program knows nothing of them but their replies, so its steps can be
interleaved with those of other workers in every possible order.
-/

namespace Workflow

/-- What has to be done with the staged changes after a unit of work. -/
inductive DrainResult where
  | saveRequested
  | leaseRequested
  | unmodified
deriving DecidableEq, Repr

/-- A modified process has to be saved. -/
def DrainResult.ofModified (modified : Bool) : DrainResult :=
  if modified then saveRequested else unmodified

/-- What an executor wants after a process was prepared. -/
structure Preparation where
  modified : Bool
  schedule : Option (List StepType)
deriving DecidableEq, Repr

/-- The outcome of one step, applied as one unit. -/
structure StepResult where
  modified : Bool
  status : StepStatus
  schedule : Option (List StepType)
  skip : Option (List StepType)
  message : Option String
deriving DecidableEq, Repr

/-- The result of a step that is done and schedules further steps. -/
def StepResult.finished (next : List StepType) (modified : Bool) : StepResult where
  modified := modified
  status := .done
  schedule := if next.isEmpty then none else some next
  skip := none
  message := none

/-- A request of a program to its surroundings. -/
inductive Request where
  | note (notice : Notice)
  | now
  /-- Whether the work has been cancelled. -/
  | isCancelled
  /-- The copy of the process that the worker holds. -/
  | held
  /-- Hold a copy of another process. -/
  | hold (process : Process)
  /-- Change the lease of the held copy and stage the update; whether any was staged. -/
  | lease (operation : LeaseOp)
  | pendingSteps (process : Uuid)
  /-- The types of all steps of a process. -/
  | stepTypes (process : Uuid)
  | stageUpdates (updates : List (Uuid × StepUpdate))
  /-- Stage a new pending step and learn its identifier. -/
  | stageStep (type : StepType) (process : Uuid)
  /-- Commit what is staged. -/
  | save
  /-- Drop what is staged. -/
  | discard
  /-- Let the executor of a process type prepare a process. -/
  | prepare (executor : ProcessType) (process : Uuid) (types : List StepType)
  /-- Whether the lease must be renewed before a step. -/
  | needsLease (executor : ProcessType) (type : StepType)
  /-- Let the executor run a step, telling it the types still pending. -/
  | execute (executor : ProcessType) (process : Uuid) (type : StepType)
      (types : List StepType)
  /-- Start looking for eligible processes; the page size. -/
  | discover (query : Eligible)
  | eligiblePage (query : Eligible) (after : Option Uuid) (limit : Nat)
  /-- Leave it to whoever started the drain what to do with the staged changes;
  whether to go on. -/
  | consult (result : DrainResult)

/-- What the surroundings reply to a request. -/
abbrev Request.Reply : Request → Type
  | note _ => Unit
  | now => Timestamp
  | isCancelled => Bool
  | held => Process
  | hold _ => Unit
  | lease _ => Except Failure Bool
  | pendingSteps _ => Except Failure (List PendingStep)
  | stepTypes _ => Except Failure (List StepType)
  | stageUpdates _ => Unit
  | stageStep _ _ => Uuid
  | save => Except Failure Unit
  | discard => Unit
  | prepare _ _ _ => Except Failure Preparation
  | needsLease _ _ => Except Failure Bool
  | execute _ _ _ _ => Except Failure StepResult
  | discover _ => Except Failure Nat
  | eligiblePage _ _ _ => Except Failure (List Process)
  | consult _ => Except Failure Bool

/-- A program that ends with a value or asks and goes on with the reply. -/
inductive Program (α : Type) where
  | done (value : α)
  | ask (request : Request) (rest : request.Reply → Program α)

namespace Program

variable {α β : Type}

def bind (program : Program α) (next : α → Program β) : Program β :=
  match program with
  | done value => next value
  | ask request rest => ask request fun reply => (rest reply).bind next

instance : Monad Program where
  pure := done
  bind := bind

theorem bind_done (program : Program α) : program.bind done = program := by
  induction program with
  | done value => rfl
  | ask request rest induction => simp [bind, induction]

theorem bind_assoc {γ : Type} (program : Program α) (first : α → Program β)
    (second : β → Program γ) :
    (program.bind first).bind second = program.bind fun value => (first value).bind second := by
  induction program with
  | done value => rfl
  | ask request rest induction => simp [bind, induction]

instance : LawfulMonad Program :=
  LawfulMonad.mk' Program bind_done (fun _ _ => rfl) bind_assoc

/-- Runs a program, answering its requests by a handler. -/
def run {m : Type → Type} [Monad m] (handler : (request : Request) → m request.Reply) :
    Program α → m α
  | done value => pure value
  | ask request rest => do
    let reply ← handler request
    (rest reply).run handler

end Program

/-- A program that may fail. -/
abbrev Action (α : Type) := ExceptT Failure Program α

namespace Action

variable {α : Type}

/-- Asks a request that cannot fail. -/
def ask (request : Request) : Action request.Reply :=
  ExceptT.lift (Program.ask request Program.done)

def ofExcept (outcome : Except Failure α) : Action α :=
  ExceptT.mk (pure outcome)

def outcome (action : Action α) : Action (Except Failure α) :=
  ExceptT.lift action.run

def note (notice : Notice) : Action Unit :=
  ask (.note notice)

def save : Action Unit := do
  ofExcept (← ask .save)

def discard : Action Unit :=
  ask .discard

/-- Changes the lease of the held copy; whether an update was staged. -/
def lease (operation : LeaseOp) : Action Bool := do
  ofExcept (← ask (.lease operation))

end Action

end Workflow
