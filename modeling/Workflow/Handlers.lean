import Workflow.Catalogue.Reading
import Workflow.Program

/-!
# Handlers for step types

An executor can be put together from one handler for each step type.  A failure of
a remote service becomes the outcome of the step: a recoverable one leaves the step
pending for a later cycle, any other one marks it as failed.  All other failures
pass through.
-/

namespace Workflow

/-- Handlers of some kind for the step types of one process type. -/
structure Handlers (η : Type) where
  type : ProcessType
  entries : List (StepType × η)
  /-- The types before which the lease is renewed. -/
  leased : List StepType

namespace Handlers

variable {η : Type}

/-- Puts together handlers; without a process type there is no executor. -/
def build (entries : List (StepType × η)) (leased : List StepType)
    (type : Option ProcessType) : Except Failure (Handlers η) :=
  match type with
  | none => .error .untypedHandlers
  | some type => .ok { type, entries, leased }

def find? (handlers : Handlers η) (type : StepType) : Option η :=
  handlers.entries.lookup type

def register (handlers : Handlers η) (type : StepType) (handler : η) (leased : Bool) :
    Handlers η :=
  { handlers with
    entries := (type, handler) :: handlers.entries.filter fun entry => entry.1 != type
    leased := if leased then type :: handlers.leased else handlers.leased }

/-- The types with a handler, in ascending order. -/
def executable (handlers : Handlers η) : List StepType :=
  typesOf (handlers.entries.map Prod.fst)

/-- Whether the lease is renewed before a step. -/
def needsLease (handlers : Handlers η) (type : StepType) : Bool :=
  handlers.leased.contains type

/-- The outcome of a step for which a handler failed. -/
def afterFailure (process : Uuid) (type : StepType) (failure : Failure) :
    Except Failure (StepResult × Notice) :=
  match failure.kind with
  | .service recoverable =>
    let result : StepResult :=
      { modified := true
        status := if recoverable then .todo else .failed
        schedule := none
        skip := none
        message := some failure.message }
    let notice :=
      if recoverable then Notice.stepToRetry type process failure
      else Notice.stepFailed type process failure
    .ok (result, notice)
  | _ => .error failure

def execute {m : Type → Type} [Monad m] (handlers : Handlers η)
    (call : η → m (Except Failure StepResult)) (report : Notice → m Unit)
    (process : Uuid) (type : StepType) : m (Except Failure StepResult) := do
  match handlers.find? type with
  | none => return .error (.unhandledStep type)
  | some handler =>
    match ← call handler with
    | .ok result => return .ok result
    | .error failure =>
      match afterFailure process type failure with
      | .error failure => return .error failure
      | .ok (result, notice) =>
        report notice
        return .ok result

end Handlers

end Workflow
