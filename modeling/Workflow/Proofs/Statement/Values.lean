import Workflow.Connection
import Workflow.Proofs.Statement.Database

/-!
# What values stand for

A status is sent as its number, texts and times are sent as they are, and null stands for what
has been cleared.  `StepUpdate.Sets` and `ProcessUpdate.Sets` say for each column what an update
assigns to it.  A client that receives a row of the server finds the row of the store in it.
-/

namespace Workflow

/-- What an update of a step assigns to a column. -/
inductive StepUpdate.Sets (update : StepUpdate) (changed : Timestamp) : Column → Datum → Prop where
  | status {status : StepStatus} :
      update.status = .write (some status) →
      Sets update changed .processStepStatusId (.integer status.code)
  | noStatus : update.status = .write none → Sets update changed .processStepStatusId .null
  | message {text : String} :
      update.message = .write (some text) → Sets update changed .message (.text text)
  | noMessage : update.message = .write none → Sets update changed .message .null
  | changed : Sets update changed .dateLastChanged (.time changed)

/-- What an update of a process assigns to a column. -/
inductive ProcessUpdate.Sets (update : ProcessUpdate) : Column → Datum → Prop where
  | version : Sets update .version (.integer update.version)
  | lease {expiry : Timestamp} :
      update.lease = .write (some expiry) → Sets update .lockExpiry (.time expiry)
  | noLease : update.lease = .write none → Sets update .lockExpiry .null

section Updates

variable {column other : Column} {datum : Datum}

theorem mem_writtenColumn_iff {α : Type} {value : α → Datum} {field : Field α} :
    (column, datum) ∈ writtenColumn other value field ↔
      column = other ∧ ∃ written, field = .write written ∧ datum = value written := by
  cases field <;> simp [writtenColumn]

theorem StepUpdate.mem_columns_iff {update : StepUpdate} {changed : Timestamp} :
    (column, datum) ∈ update.columns changed ↔ update.Sets changed column datum := by
  simp only [columns, List.mem_append, mem_writtenColumn_iff, List.mem_singleton, Prod.mk.injEq]
  constructor
  · rintro ((⟨rfl, _ | status, isStatus, rfl⟩ | ⟨rfl, _ | text, isMessage, rfl⟩) | ⟨rfl, rfl⟩)
    · exact .noStatus isStatus
    · exact .status isStatus
    · exact .noMessage isMessage
    · exact .message isMessage
    · exact .changed
  · intro sets
    cases sets with
    | status isStatus => exact .inl (.inl ⟨rfl, _, isStatus, rfl⟩)
    | noStatus isStatus => exact .inl (.inl ⟨rfl, _, isStatus, rfl⟩)
    | message isMessage => exact .inl (.inr ⟨rfl, _, isMessage, rfl⟩)
    | noMessage isMessage => exact .inl (.inr ⟨rfl, _, isMessage, rfl⟩)
    | changed => exact .inr ⟨rfl, rfl⟩

theorem ProcessUpdate.mem_columns_iff {update : ProcessUpdate} :
    (column, datum) ∈ update.columns ↔ update.Sets column datum := by
  simp only [columns, List.mem_cons, mem_writtenColumn_iff, Prod.mk.injEq]
  constructor
  · rintro (⟨rfl, rfl⟩ | ⟨rfl, _ | expiry, isLease, rfl⟩)
    · exact .version
    · exact .noLease isLease
    · exact .lease isLease
  · intro sets
    cases sets with
    | version => exact .inl ⟨rfl, rfl⟩
    | lease isLease => exact .inr ⟨rfl, _, isLease, rfl⟩
    | noLease isLease => exact .inr ⟨rfl, _, isLease, rfl⟩

end Updates

/-! ### Rows that are read back -/

/-- A row of a table as a client receives it. -/
def Table.received (table : Table) (row : Row) : Record :=
  table.columns.map fun column => (column, row column)

namespace Record

variable {record : Record} {column : Column}

theorem member_of_get {α : Type} [Catalogue α] {number : Int} {value : α}
    (same : record.get column = .integer number) (found : Catalogue.ofCode? number = some value) :
    record.member column = .ok value := by
  rw [member, integer, same]
  exact Catalogue.member_of_ofCode? found

theorem time?_of_get {stamp : Option Timestamp} (same : record.get column = .ofTime? stamp) :
    record.time? column = .ok stamp := by
  rw [time?, same]
  cases stamp <;> rfl

theorem text?_of_get {text : Option String} (same : record.get column = .ofText? text) :
    record.text? column = .ok text := by
  rw [text?, same]
  cases text <;> rfl

end Record

theorem Process.read_row (process : Process) :
    (Table.process.received process.row).process = .ok process := by
  have type : (Table.process.received process.row).member .processTypeId = .ok process.type :=
    Record.member_of_get rfl process.type.ofCode?_code
  have lease : (Table.process.received process.row).time? .lockExpiry = .ok process.lease :=
    Record.time?_of_get rfl
  rw [Record.process, type, lease]
  rfl

/-- A step with a status is read back; a client takes no step without one. -/
theorem Step.read_row {step : Step} {status : StepStatus} (isStatus : step.status = some status) :
    (Table.processStep.received step.row).step = .ok step := by
  have type : (Table.processStep.received step.row).member .processStepTypeId = .ok step.type :=
    Record.member_of_get rfl step.type.ofCode?_code
  have stored : (Table.processStep.received step.row).get .processStepStatusId =
      .ofStatus? step.status := rfl
  rw [isStatus] at stored
  have read : (Table.processStep.received step.row).member .processStepStatusId = .ok status :=
    Record.member_of_get stored status.ofCode?_code
  have changed : (Table.processStep.received step.row).time? .dateLastChanged = .ok step.changed :=
    Record.time?_of_get rfl
  have message : (Table.processStep.received step.row).text? .message = .ok step.message :=
    Record.text?_of_get rfl
  rw [Record.step, type, read, changed, message]
  exact congrArg (fun status => Except.ok { step with status }) isStatus.symm

theorem Step.row_injective : Function.Injective Step.row := by
  intro left right same
  have agree (column : Column) : left.row column = right.row column := congrFun same column
  have id := Datum.id.inj (agree .id)
  have code := Int.ofNat.inj (Datum.integer.inj (agree .processStepTypeId))
  have type := StepType.code_injective code
  have status := Datum.ofStatus?_injective (agree .processStepStatusId)
  have process := Datum.id.inj (agree .processId)
  have created := Datum.time.inj (agree .dateCreated)
  have changed := Datum.ofTime?_injective (agree .dateLastChanged)
  have message := Datum.ofText?_injective (agree .message)
  cases left
  cases right
  rw [Step.mk.injEq]
  exact ⟨id, type, status, process, created, changed, message⟩

end Workflow
