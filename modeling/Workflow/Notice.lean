import Workflow.Catalogue.StepStatus
import Workflow.Decimal.Layout
import Workflow.Failure

/-!
# Notices

What the engine reports while it works, each with a level and a text.
-/

namespace Workflow

/-- How urgent a notice is. -/
inductive Level where
  | debug
  | info
  | warning
  | error
deriving DecidableEq, Repr

def Level.text : Level → String
  | debug => "DEBUG"
  | info => "INFO"
  | warning => "WARNING"
  | error => "ERROR"

/-- Something the engine reports. -/
inductive Notice where
  | saving (count : Nat)
  | discarding (count : Nat)
  | leased (process : Uuid) (expiry : Timestamp)
  | renewed (process : Uuid) (expiry : Timestamp)
  | finalized (step : StepType) (process : Uuid)
  | dispatched (process : Uuid) (type : ProcessType) (steps : List StepType)
  | drainCancelled (process : Uuid)
  | stepFinished (step : StepType) (process : Uuid) (status : StepStatus)
  | stepStillPending (step : StepType) (process : Uuid)
  | stepToRetry (step : StepType) (process : Uuid) (failure : Failure)
  | stepFailed (step : StepType) (process : Uuid) (failure : Failure)
  | alreadyLeased (process : Uuid)
  | lostLease (process : Uuid)
  | overtaken (process : Uuid) (failure : Failure)
  | processFailed (process : Uuid) (type : ProcessType) (failure : Failure)
  | leaseNotReleased (process : Uuid) (lease : Option Timestamp) (failure : Failure)
  | drained (process : Uuid) (version : Int)
  | cycleFinished (count : Nat)
  | cycleFailed (delay : Float) (failure : Failure)
  | workerStarted (types : List ProcessType)
  | workerStopped

namespace Notice

def level : Notice → Level
  | saving _ => .debug
  | discarding _ => .debug
  | leased _ _ => .debug
  | renewed _ _ => .debug
  | finalized _ _ => .info
  | dispatched _ _ _ => .info
  | drainCancelled _ => .info
  | stepFinished _ _ _ => .info
  | stepStillPending _ _ => .info
  | stepToRetry _ _ _ => .warning
  | stepFailed _ _ _ => .warning
  | alreadyLeased _ => .info
  | lostLease _ => .info
  | overtaken _ _ => .warning
  | processFailed _ _ _ => .error
  | leaseNotReleased _ _ _ => .error
  | drained _ _ => .debug
  | cycleFinished _ => .debug
  | cycleFailed _ _ => .error
  | workerStarted _ => .info
  | workerStopped => .info

/-- Names in brackets, each between quotes. -/
def bracketed (names : List String) : String :=
  "[" ++ ", ".intercalate (names.map fun name => "'" ++ name ++ "'") ++ "]"

def text : Notice → String
  | saving count => s!"Saving {count} staged operation(s)"
  | discarding count => s!"Discarding {count} staged operation(s)"
  | leased process expiry => s!"Locked process {process} until " ++ expiry.messageText
  | renewed process expiry =>
    s!"Renewed lock of process {process} until " ++ expiry.messageText
  | finalized step process => s!"Finalized step {step.label} of process {process}"
  | dispatched process type steps =>
    s!"Dispatched process {process} of type {type.label} with steps "
      ++ bracketed (steps.map StepType.label)
  | drainCancelled process => s!"Stopping drain of process {process}: cancelled"
  | stepFinished step process status =>
    s!"Step {step.label} of process {process} finished with {status.label}"
  | stepStillPending step process =>
    s!"Step {step.label} of process {process} is still pending, "
      ++ "leaving the process for a later cycle"
  | stepToRetry step process failure =>
    s!"Step {step.label} of process {process} will be retried: {failure.message}"
  | stepFailed step process failure =>
    s!"Step {step.label} of process {process} failed: {failure.message}"
  | alreadyLeased process => s!"Process {process} is leased by another worker, skipping"
  | lostLease process => s!"Process {process} was leased by another worker, skipping"
  | overtaken process failure =>
    s!"Process {process} was changed by another worker, skipping: {failure.message}"
  | processFailed process type failure =>
    s!"Error processing process {process} type {type.label}: {failure.message}"
  | leaseNotReleased process lease failure =>
    s!"Failed to release lock of process {process}, it expires at "
      ++ Timestamp.messageTextOf lease ++ ": " ++ failure.message
  | drained process version => s!"Process {process} drained, version {version}"
  | cycleFinished count => s!"Cycle finished, {count} process(es) attempted"
  | cycleFailed delay failure =>
    "Process cycle failed, retrying in " ++ Decimal.onePlaceText delay
      ++ s!"s: {failure.message}"
  | workerStarted types =>
    "Worker started for process types " ++ bracketed (types.map ProcessType.label)
  | workerStopped => "Worker stopped"

/-- A notice as a line: its level and its text. -/
def line (notice : Notice) : String :=
  notice.level.text ++ " " ++ notice.text

end Notice

end Workflow
