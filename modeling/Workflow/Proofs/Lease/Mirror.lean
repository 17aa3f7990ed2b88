import Workflow.Lease
import Workflow.Proofs.Rows.Advance

/-!
# A copy and what it stages

Every operation on a held copy of a process stages at most one update, and this
update leads from the copy before the operation to the copy after it.  A row of
operations therefore stages an unbroken chain of versions.
-/

namespace Workflow

namespace Process

variable {process after : Process} {batch : Batch} {expiry now : Timestamp}

/-- What an operation stages for a copy: nothing and no change, or a single update
that makes the stored copy the new one under the next version. -/
inductive Follows (process : Process) : Process → Batch → Prop where
  | unchanged : Follows process process []
  | updated (lease : Field (Option Timestamp)) :
      Follows process
        { process with version := process.version + 1, lease := lease.apply process.lease }
        [.updateProcess process.id process.version ⟨process.version + 1, lease⟩]

theorem Follows.processAfter? (follows : process.Follows after batch) :
    Batch.processAfter? batch process = some after := by
  cases follows with
  | unchanged => rfl
  | updated lease =>
      simp [Batch.processAfter?_cons, Change.processAfter?, ProcessUpdate.apply]

theorem Follows.raises (follows : process.Follows after batch) : Batch.Raises batch := by
  cases follows with
  | unchanged => simp [Batch.Raises]
  | updated lease =>
      intro id expected update member
      simp only [List.mem_singleton, Change.updateProcess.injEq] at member
      obtain ⟨_, rfl, rfl⟩ := member
      exact Int.lt_succ process.version

theorem Follows.member (follows : process.Follows after batch) {change : Change}
    (member : change ∈ batch) :
    ∃ update, change = .updateProcess process.id process.version update := by
  cases follows with
  | unchanged => cases member
  | updated lease => exact ⟨_, List.mem_singleton.mp member⟩

theorem Follows.id_eq (follows : process.Follows after batch) : after.id = process.id := by
  cases follows <;> rfl

theorem isLeased_iff : process.isLeased now ↔
    ∃ expiry, process.lease = some expiry ∧ now.instant ≤ expiry.instant := by
  cases found : process.lease <;> simp [isLeased, found]

theorem requestLease_eq_ok_iff :
    process.requestLease expiry now = .ok (after, batch) ↔
      process.isLeased now = false ∧
        after = { process with version := process.version + 1, lease := some expiry } ∧
        batch = [process.leaseChange after] := by
  cases leased : process.isLeased now
  · simp only [requestLease, tryLease, leased, raiseVersion, Bool.false_eq_true, if_false,
      Except.ok.injEq, Prod.mk.injEq, true_and]
    constructor
    · intro same
      obtain ⟨rfl, rfl⟩ := same
      exact ⟨rfl, rfl⟩
    · intro same
      obtain ⟨rfl, rfl⟩ := same
      exact ⟨rfl, rfl⟩
  · simp [requestLease, tryLease, leased]

theorem releaseLease_eq :
    process.releaseLease =
      if process.lease.isSome then
        ({ process with version := process.version + 1, lease := none },
          [.updateProcess process.id process.version ⟨process.version + 1, .write none⟩])
      else (process, []) := by
  by_cases leased : process.lease.isSome <;>
    simp [releaseLease, endLease, raiseVersion, leaseChange, leased]

end Process

namespace LeaseOp

variable {operation : LeaseOp} {process after : Process} {batch : Batch} {failure : Failure}

/-- An operation changes a copy exactly as what it stages changes the stored row. -/
theorem follows_of_perform (performed : operation.perform process = .ok (after, batch)) :
    process.Follows after batch := by
  cases operation with
  | request expiry now =>
      obtain ⟨_, rfl, rfl⟩ := Process.requestLease_eq_ok_iff.mp performed
      exact .updated (.write (some expiry))
  | renew expiry =>
      cases performed
      exact .updated (.write (some expiry))
  | release =>
      simp only [perform, Process.releaseLease_eq, Except.ok.injEq] at performed
      split at performed <;> cases performed
      · exact .updated (.write none)
      · exact .unchanged
  | raise =>
      cases performed
      exact .updated .keep
  | releaseOrRaise =>
      by_cases leased : process.lease.isSome
      · simp only [perform, Process.releaseOrRaise, Process.releaseLease_eq, leased, if_true,
          Except.ok.injEq] at performed
        cases performed
        exact .updated (.write none)
      · simp only [perform, Process.releaseOrRaise, Process.releaseLease_eq, leased,
          Bool.false_eq_true, if_false, Except.ok.injEq] at performed
        cases performed
        exact .updated .keep

/-- Only a request can be refused, and only while a lease holds. -/
theorem perform_eq_error_iff :
    operation.perform process = .error failure ↔
      failure = .stillLeased ∧
        ∃ expiry now, operation = .request expiry now ∧ process.isLeased now := by
  cases operation with
  | request expiry now =>
      cases leased : process.isLeased now
      · simp [perform, Process.requestLease, Process.tryLease, leased]
      · have refused : (request expiry now).perform process = .error .stillLeased := by
          simp [perform, Process.requestLease, Process.tryLease, leased]
        rw [refused]
        constructor
        · intro same
          cases same
          exact ⟨rfl, expiry, now, rfl, leased⟩
        · intro same
          obtain ⟨rfl, _⟩ := same
          rfl
  | renew _ | release | raise | releaseOrRaise => simp [perform]

end LeaseOp

end Workflow
