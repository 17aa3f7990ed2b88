import Workflow.Drain
import Workflow.Paging

/-!
# Attempts and cycles

An attempt leases one process, drains it and releases the lease.  A lost race ends
the attempt quietly.  Any other failure ends the attempt too, but gives the lease
back.  A cancellation passes through after what was staged has been dropped.

A cycle attempts every eligible process once.
-/

namespace Workflow

/-- How long a lease lasts, in microseconds, if that is a span at all. -/
abbrev LeaseTerm := Except Failure Int

namespace Attempt

def expiryAfter (term : LeaseTerm) (now : Timestamp) : Except Failure Timestamp := do
  match now.shift? (← term) with
  | some expiry => return expiry
  | none => throw .dateOutOfRange

/-- Leases the held process; whether it is leased now. -/
def acquire (term : LeaseTerm) : Action Bool := do
  let now ← Action.ask .now
  let process ← Action.ask .held
  if process.isLeased now then
    Action.note (.alreadyLeased process.id)
    return false
  else
    let expiry ← Action.ofExcept (expiryAfter term now)
    let _ ← Action.lease (.request expiry now)
    Action.note (.leased process.id expiry)
    match ← Action.outcome Action.save with
    | .ok _ =>
      Action.discard
      return true
    | .error failure =>
      if failure.isStale then
        Action.note (.lostLease process.id)
        Action.discard
        return false
      else
        Action.discard
        throw failure

/-- Moves the lease of the held process before a long step. -/
def renew (term : LeaseTerm) : Action Unit := do
  let now ← Action.ask .now
  let expiry ← Action.ofExcept (expiryAfter term now)
  let _ ← Action.lease (.renew expiry)
  let process ← Action.ask .held
  Action.note (.renewed process.id expiry)

/-- Commits a unit of work under a renewed lease or a raised version, or drops it. -/
def settle (term : LeaseTerm) (result : DrainResult) : Action Bool := do
  commit
  Action.discard
  return true
where
  /-- Saves if there is anything to save. -/
  commit : Action Unit :=
    match result with
    | .leaseRequested => do
      renew term
      Action.save
    | .saveRequested => do
      let _ ← Action.lease .raise
      Action.save
    | .unmodified => return ()

/-- Gives the lease back after a failure. -/
def releaseAfterFailure : Action Unit := do
  if ← Action.lease .release then
    match ← Action.outcome Action.save with
    | .ok _ => Action.discard
    | .error failure =>
      if failure.isCancellation then
        Action.discard
        throw failure
      else
        let process ← Action.ask .held
        Action.note (.leaseNotReleased process.id process.lease failure)
        Action.discard

/-- Leases, drains and releases the held process. -/
def work (registry : Registry) (term : LeaseTerm) (process : Process) : Action Unit := do
  if ← acquire term then
    registry.drain process.id process.type (settle term)
    if ← Action.lease .release then
      Action.save
    let drained ← Action.ask .held
    Action.note (.drained drained.id drained.version)

/-- What follows a failure of the work. -/
def recover (process : Process) (failure : Failure) : Action Unit := do
  Action.discard
  if failure.isStale then
    Action.note (.overtaken process.id failure)
  else if failure.isCancellation then
    throw failure
  else
    Action.note (.processFailed process.id process.type failure)
    releaseAfterFailure

end Attempt

def Registry.attempt (registry : Registry) (term : LeaseTerm) : Action Unit := do
  let process ← Action.ask .held
  match ← Action.outcome (Attempt.work registry term process) with
  | .ok _ => return ()
  | .error failure => Attempt.recover process failure

/-- Attempts one discovered process unless the work has been cancelled. -/
def Registry.visit (registry : Registry) (term : LeaseTerm) (count : Nat)
    (process : Process) : Action (ForInStep Nat) := do
  if ← Action.ask .isCancelled then return .done count
  else
    let _ ← Action.ask (.hold process)
    registry.attempt term
    return .yield (count + 1)

/-- Attempts all eligible processes; how many were attempted. -/
def Registry.cycle (registry : Registry) (term : LeaseTerm) (fuel : Nat) : Action Nat := do
  let date ← Action.ask .now
  let query : Eligible := ⟨registry.types, registry.executable, date⟩
  let limit ← Action.ofExcept (← Action.ask (.discover query))
  let ended ← Paging.visitAll limit Process.id
    (fun after => do Action.ofExcept (← Action.ask (.eligiblePage query after limit)))
    (registry.visit term) fuel 0
  Action.note (.cycleFinished ended.state)
  return ended.state

end Workflow
