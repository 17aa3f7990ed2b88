import Workflow.Proofs.Time.Column
import Workflow.Tables

/-!
# Rows as records

A row can be stored in a table if its time stamps can be shown on the clock of universal time,
its version fits an integer column and its status is not cleared.  Such a row is written as one
record, and the record is read back as the same row on the clock of universal time.
-/

namespace Workflow

/-- The column text of the instant of a time stamp. -/
def Timestamp.column (stamp : Timestamp) : String :=
  columnText stamp.instant.toNat

def Tables.FitsColumn (value : Int) : Prop :=
  -columnBound ≤ value ∧ value < columnBound

namespace Process

structure IsStorable (process : Process) : Prop where
  version : Tables.FitsColumn process.version
  lease : ∀ expiry, process.lease = some expiry → expiry.IsWritable

def record (process : Process) : ProcessRecord where
  id := process.id
  type := process.type
  version := process.version
  lease := process.lease.map Timestamp.column

/-- The process with its lease on the clock of universal time. -/
def atUtc (process : Process) : Process :=
  { process with lease := process.lease.map Timestamp.atUtc }

end Process

namespace Step

structure IsStorable (step : Step) : Prop where
  status : step.status ≠ none
  created : step.created.IsWritable
  changed : ∀ changed, step.changed = some changed → changed.IsWritable

/-- The record of a step whose status is not cleared. -/
def record (step : Step) : StepRecord where
  id := step.id
  type := step.type
  status := step.status.getD .todo
  process := step.process
  created := step.created.column
  changed := step.changed.map Timestamp.column
  message := step.message

/-- The step with its time stamps on the clock of universal time. -/
def atUtc (step : Step) : Step :=
  { step with
    created := step.created.atUtc
    changed := step.changed.map Timestamp.atUtc }

end Step

def ProcessDetail.atUtc (detail : ProcessDetail) : ProcessDetail :=
  detail.toProcess.atUtc.withSteps (detail.steps.map Step.atUtc)

def Loaded.atUtc (loaded : Loaded) : Loaded where
  process := loaded.process.map ProcessDetail.atUtc
  steps := loaded.steps.map (List.map Step.atUtc)

namespace Tables

variable {stamp : Timestamp} {optional : Option Timestamp} {process : Process}
  {step left right : Step}

/-! ### Columns -/

theorem writeTime_eq (writable : stamp.IsWritable) : writeTime stamp = .ok stamp.column := by
  rw [writeTime, Timestamp.fixedWidth?_eq writable]
  rfl

theorem writeTime?_eq (writable : ∀ stamp, optional = some stamp → stamp.IsWritable) :
    writeTime? optional = .ok (optional.map Timestamp.column) := by
  cases optional with
  | none => rfl
  | some stamp =>
      rw [writeTime?, writeTime_eq (writable stamp rfl)]
      rfl

theorem readTime_column (writable : stamp.IsWritable) :
    readTime stamp.column = .ok stamp.atUtc := by
  have same : ((stamp.instant.toNat : Nat) : Int) = stamp.instant :=
    Int.toNat_of_nonneg writable.1
  rw [readTime, Timestamp.column, Timestamp.ofText?_columnText writable.toNat_lt]
  simp only [same, Timestamp.atUtc]

theorem readTime?_column (writable : ∀ stamp, optional = some stamp → stamp.IsWritable) :
    readTime? (optional.map Timestamp.column) = .ok (optional.map Timestamp.atUtc) := by
  cases optional with
  | none => rfl
  | some stamp =>
      rw [Option.map_some, readTime?, readTime_column (writable stamp rfl)]
      rfl

theorem columnInteger_eq {value : Int} (fits : FitsColumn value) :
    columnInteger value = .ok value :=
  if_pos fits

theorem columnInteger_eq_error {value : Int} (beyond : ¬FitsColumn value) :
    columnInteger value = .error .integerBeyondColumn :=
  if_neg beyond

/-! ### Records -/

theorem writeProcess_eq (storable : process.IsStorable) :
    writeProcess process = .ok process.record := by
  rw [writeProcess, writeTime?_eq storable.lease, columnInteger_eq storable.version]
  rfl

theorem readProcess_record (storable : process.IsStorable) :
    readProcess process.record = .ok process.atUtc := by
  rw [readProcess, Process.record, readTime?_column storable.lease]
  rfl

theorem writeStep_eq (storable : step.IsStorable) : writeStep step = .ok step.record := by
  obtain ⟨status, hasStatus⟩ := Option.ne_none_iff_exists'.mp storable.status
  rw [writeStep, writeTime_eq storable.created, writeTime?_eq storable.changed]
  simp only [Step.record, hasStatus, Option.getD_some]
  rfl

theorem readStep_record (storable : step.IsStorable) :
    readStep step.record = .ok step.atUtc := by
  obtain ⟨status, hasStatus⟩ := Option.ne_none_iff_exists'.mp storable.status
  rw [readStep, Step.record, readTime_column storable.created, readTime?_column storable.changed]
  simp only [Step.atUtc, hasStatus, Option.getD_some]
  rfl

theorem isPending_record (storable : step.IsStorable) :
    (step.record.status == .todo) = step.isPending := by
  obtain ⟨status, hasStatus⟩ := Option.ne_none_iff_exists'.mp storable.status
  simp only [Step.record, Step.isPending, hasStatus, Option.getD_some]
  rfl

/-! ### Orders -/

theorem isNotAfter_record (leftStorable : left.IsStorable) (rightStorable : right.IsStorable) :
    isNotAfter left.record right.record = left.isNotAfter right := by
  have before := Timestamp.columnText_lt_iff leftStorable.created rightStorable.created
  have same := Timestamp.columnText_eq_iff leftStorable.created rightStorable.created
  rw [Bool.eq_iff_iff]
  simp only [isNotAfter, Step.isNotAfter, Bool.or_eq_true, Bool.and_eq_true, decide_eq_true_eq,
    beq_iff_eq]
  exact or_congr before (and_congr same Iff.rfl)

theorem isQueuedNotAfter_record (leftStorable : left.IsStorable)
    (rightStorable : right.IsStorable) :
    isQueuedNotAfter left.record right.record = left.isQueuedNotAfter right := by
  rw [isQueuedNotAfter, Step.isQueuedNotAfter, isNotAfter_record leftStorable rightStorable]
  rfl

theorem lease_record {date : Timestamp} (storable : process.IsStorable)
    (writable : date.IsWritable) :
    (match process.record.lease with
      | none => true
      | some expiry => decide (expiry < date.column)) = !process.isLeased date := by
  cases leased : process.lease with
  | none => simp [Process.record, Process.isLeased, leased]
  | some expiry =>
      have before := Timestamp.columnText_lt_iff (storable.lease expiry leased) writable
      rw [Bool.eq_iff_iff]
      simp [Process.record, Process.isLeased, leased, Timestamp.column, before]

end Tables

/-! ### Updates -/

def Field.map {α β : Type} (convert : α → β) : Field α → Field β
  | keep => keep
  | write value => write (convert value)

/-- The record of a process after an update. -/
def ProcessUpdate.record (update : ProcessUpdate) (row : ProcessRecord) : ProcessRecord :=
  Tables.updateProcessRecord update.version (update.lease.map (Option.map Timestamp.column)) row

/-- The record of a step after an update at an instant that does not clear the status. -/
def StepUpdate.record (update : StepUpdate) (changed : Timestamp) (row : StepRecord) :
    StepRecord :=
  { row with
    status := (update.status.apply (some row.status)).getD row.status
    message := update.message.apply row.message
    changed := some changed.column }

/-- Records are updated like the rows that they are written for. -/
theorem ProcessUpdate.record_record (update : ProcessUpdate) (process : Process) :
    update.record process.record = (update.apply process).record := by
  obtain ⟨version, field⟩ := update
  cases field <;> rfl

theorem StepUpdate.record_record {update : StepUpdate} {changed : Timestamp} {step : Step}
    (storable : step.IsStorable) (kept : update.status ≠ .write none) :
    update.record changed step.record = (update.apply changed step).record := by
  obtain ⟨status, hasStatus⟩ := Option.ne_none_iff_exists'.mp storable.status
  obtain ⟨field, message⟩ := update
  cases field with
  | keep => simp [StepUpdate.record, StepUpdate.apply, Step.record, hasStatus]
  | write value =>
      cases value with
      | none => exact absurd rfl kept
      | some written => simp [StepUpdate.record, StepUpdate.apply, Step.record]

theorem Process.IsStorable.update {process : Process} {update : ProcessUpdate}
    (storable : process.IsStorable) (version : Tables.FitsColumn update.version)
    (lease : ∀ expiry, update.lease = .write (some expiry) → expiry.IsWritable) :
    (update.apply process).IsStorable where
  version := version
  lease expiry leased := by
    obtain ⟨version, field⟩ := update
    cases field with
    | keep => exact storable.lease expiry leased
    | write value => exact lease expiry (congrArg Field.write leased)

theorem Step.IsStorable.update {step : Step} {update : StepUpdate} {changed : Timestamp}
    (storable : step.IsStorable) (kept : update.status ≠ .write none)
    (writable : changed.IsWritable) : (update.apply changed step).IsStorable where
  status := by
    obtain ⟨field, message⟩ := update
    cases field with
    | keep => exact storable.status
    | write value => exact fun cleared => kept (congrArg Field.write cleared)
  created := storable.created
  changed _ same := Option.some.inj same ▸ writable

end Workflow
