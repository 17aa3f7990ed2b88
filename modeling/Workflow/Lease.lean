import Workflow.Change

/-!
# Leases

Operations on a copy of a process that somebody has loaded.  Each of them changes
the copy and stages the update that brings the stored process into the same state,
expecting the version that the copy had before.
-/

namespace Workflow

/-- An operation on the lease or version of a loaded process. -/
inductive LeaseOp where
  /-- Lease the process, which must not be leased at the given instant. -/
  | request (expiry now : Timestamp)
  /-- Move the expiry of a lease that the caller holds. -/
  | renew (expiry : Timestamp)
  | release
  /-- Raise the version, so that concurrent writers conflict. -/
  | raise
  /-- End the lease or, if there is none, raise the version. -/
  | releaseOrRaise
deriving DecidableEq, Repr

namespace Process

/-- The staged update from a copy to its successor that leaves the lease alone. -/
def versionChange (before after : Process) : Change :=
  .updateProcess before.id before.version ⟨after.version, .keep⟩

/-- The staged update from a copy to its successor that writes the lease. -/
def leaseChange (before after : Process) : Change :=
  .updateProcess before.id before.version ⟨after.version, .write after.lease⟩

def requestLease (process : Process) (expiry now : Timestamp) :
    Except Failure (Process × Batch) :=
  match process.tryLease expiry now with
  | some leased => .ok (leased, [process.leaseChange leased])
  | none => .error .stillLeased

def renewLease (process : Process) (expiry : Timestamp) : Process × Batch :=
  let renewed := { process.raiseVersion with lease := some expiry }
  (renewed, [process.leaseChange renewed])

/-- Ends the lease; stages nothing if there is none. -/
def releaseLease (process : Process) : Process × Batch :=
  match process.endLease with
  | some released => (released, [process.leaseChange released])
  | none => (process, [])

def stageRaise (process : Process) : Process × Batch :=
  (process.raiseVersion, [process.versionChange process.raiseVersion])

/-- Ends the lease or raises the version. -/
def releaseOrRaise (process : Process) : Process × Batch :=
  match process.releaseLease with
  | (_, []) => process.stageRaise
  | released => released

end Process

/-- The copy after an operation and what the operation stages. -/
def LeaseOp.perform (operation : LeaseOp) (process : Process) :
    Except Failure (Process × Batch) :=
  match operation with
  | request expiry now => process.requestLease expiry now
  | renew expiry => .ok (process.renewLease expiry)
  | release => .ok process.releaseLease
  | raise => .ok process.stageRaise
  | releaseOrRaise => .ok process.releaseOrRaise

end Workflow
