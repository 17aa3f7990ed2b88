import Workflow.Proofs.Rows.Commit
import Workflow.Proofs.Tables.Record

/-!
# Changes that tables take

Tables take a change exactly if its values fit the columns and it finds the rows that it names or,
if it inserts a row, no row with this identifier.  For every kind of change this is said once, with
all that the tables hold afterwards.
-/

namespace Workflow

theorem mapM_eq_ok_iff {α β : Type} {action : α → Except Failure β} {items : List α}
    {results : List β} :
    items.mapM action = .ok results ↔
      List.Forall₂ (fun item result => action item = .ok result) items results := by
  constructor
  · intro succeeded
    induction items generalizing results with
    | nil =>
        cases succeeded
        exact .nil
    | cons item items induction =>
        rw [List.mapM_cons] at succeeded
        obtain ⟨result, first, others⟩ := exists_of_bind_eq_ok succeeded
        obtain ⟨rest, succeeds, both⟩ := exists_of_bind_eq_ok others
        cases both
        exact .cons first (induction succeeds)
  · intro related
    induction related with
    | nil => rfl
    | cons first _ induction =>
        rw [List.mapM_cons, first, induction]
        rfl

theorem mapM_eq_ok {α β : Type} {action : α → Except Failure β} {result : α → β}
    {items : List α} (succeeds : ∀ item ∈ items, action item = .ok (result item)) :
    items.mapM action = .ok (items.map result) :=
  mapM_eq_ok_iff.mpr (List.forall₂_map_right_iff.mpr (List.forall₂_same.mpr succeeds))

theorem any_key_iff {α : Type} {key : α → Uuid} {id : Uuid} {rows : List α} :
    (rows.any fun row => key row == id) = true ↔ id ∈ rows.map key := by
  simp [List.any_eq_true]

theorem any_target_iff {id : Uuid} {expected : Int} {rows : List ProcessRecord} :
    (rows.any fun row => row.id == id && row.version == expected) = true ↔
      ∃ row ∈ rows, row.id = id ∧ row.version = expected := by
  simp [List.any_eq_true]

namespace Tables

variable {tables after : Tables} {process : Process} {step : Step} {id : Uuid} {expected : Int}
  {changed : Timestamp}

/-! ### Columns -/

section Columns

variable {stamp : Timestamp} {optional : Option Timestamp} {text : String} {shown : Option String}

theorem writeTime_eq_ok : writeTime stamp = .ok text ↔ stamp.IsWritable ∧ text = stamp.column := by
  by_cases writable : stamp.IsWritable
  · simp [writeTime_eq writable, writable, eq_comm]
  · have noText : stamp.fixedWidth? = none := by
      rw [Timestamp.fixedWidth?, Timestamp.toUtc?]
      exact if_neg writable ▸ rfl
    simp [writeTime, noText, writable]

theorem writeTime?_eq_ok :
    writeTime? optional = .ok shown ↔
      (∀ stamp, optional = some stamp → stamp.IsWritable) ∧
        shown = optional.map Timestamp.column := by
  constructor
  · intro written
    cases optional with
    | none =>
        cases written
        exact ⟨nofun, rfl⟩
    | some stamp =>
        rw [writeTime?, map_eq_pure_bind] at written
        obtain ⟨text, textWritten, built⟩ := exists_of_bind_eq_ok written
        obtain ⟨writable, rfl⟩ := writeTime_eq_ok.mp textWritten
        cases built
        exact ⟨fun _ same => Option.some.inj same ▸ writable, rfl⟩
  · rintro ⟨writable, rfl⟩
    exact writeTime?_eq writable

theorem columnInteger_eq_ok {value stored : Int} :
    columnInteger value = .ok stored ↔ FitsColumn value ∧ stored = value := by
  by_cases fits : FitsColumn value
  · simp [columnInteger_eq fits, fits, eq_comm]
  · simp [columnInteger_eq_error fits, fits]

theorem writeLease_eq_ok {lease : Field (Option Timestamp)} {written : Field (Option String)} :
    writeLease lease = .ok written ↔
      (∀ expiry, lease = .write (some expiry) → expiry.IsWritable) ∧
        written = lease.map (Option.map Timestamp.column) := by
  cases lease with
  | keep => simp [writeLease, Field.map, eq_comm]
  | write value =>
      rw [writeLease, map_eq_pure_bind]
      constructor
      · intro succeeded
        obtain ⟨shown, shownWritten, built⟩ := exists_of_bind_eq_ok succeeded
        obtain ⟨writable, rfl⟩ := writeTime?_eq_ok.mp shownWritten
        cases built
        exact ⟨fun expiry same => writable expiry (Field.write.inj same), rfl⟩
      · rintro ⟨writable, rfl⟩
        rw [writeTime?_eq fun stamp same => writable stamp (congrArg Field.write same)]
        rfl

end Columns

/-! ### Records -/

theorem writeProcess_eq_ok {record : ProcessRecord} :
    writeProcess process = .ok record ↔ process.IsStorable ∧ record = process.record := by
  constructor
  · intro written
    obtain ⟨lease, leaseWritten, versioned⟩ := exists_of_bind_eq_ok written
    obtain ⟨version, fits, _⟩ := exists_of_bind_eq_ok versioned
    have storable : process.IsStorable :=
      ⟨(columnInteger_eq_ok.mp fits).1, (writeTime?_eq_ok.mp leaseWritten).1⟩
    exact ⟨storable, Except.ok.inj (written.symm.trans (writeProcess_eq storable))⟩
  · rintro ⟨storable, rfl⟩
    exact writeProcess_eq storable

theorem writeStep_eq_ok {record : StepRecord} :
    writeStep step = .ok record ↔ step.IsStorable ∧ record = step.record := by
  constructor
  · intro written
    obtain ⟨created, createdWritten, dated⟩ := exists_of_bind_eq_ok written
    obtain ⟨changed, changedWritten, built⟩ := exists_of_bind_eq_ok dated
    have kept : step.status ≠ none := by
      intro cleared
      rw [cleared] at built
      cases built
    have storable : step.IsStorable :=
      ⟨kept, (writeTime_eq_ok.mp createdWritten).1, (writeTime?_eq_ok.mp changedWritten).1⟩
    exact ⟨storable, Except.ok.inj (written.symm.trans (writeStep_eq storable))⟩
  · rintro ⟨storable, rfl⟩
    exact writeStep_eq storable

theorem updateStepRecord_eq_ok {update : StepUpdate} {row updated : StepRecord} :
    updateStepRecord update changed.column row = .ok updated ↔
      update.status ≠ .write none ∧ updated = update.record changed row := by
  obtain ⟨field, message⟩ := update
  rcases field with _ | _ | _ <;>
    simp [updateStepRecord, StepUpdate.record, eq_comm]

/-! ### Changes -/

theorem apply_insertProcess_eq_ok :
    tables.apply (.insertProcess process) = .ok after ↔
      process.IsStorable ∧ process.id ∉ tables.processes.map ProcessRecord.id ∧
        after = { tables with processes := tables.processes ++ [process.record] } := by
  rw [← any_key_iff]
  constructor
  · intro applied
    obtain ⟨record, written, checked⟩ := exists_of_bind_eq_ok applied
    obtain ⟨storable, rfl⟩ := writeProcess_eq_ok.mp written
    split at checked <;> cases checked
    rename_i isNew
    exact ⟨storable, isNew, rfl⟩
  · rintro ⟨storable, isNew, rfl⟩
    rw [apply, writeProcess_eq storable]
    exact if_neg isNew

theorem apply_insertStep_eq_ok :
    tables.apply (.insertStep step) = .ok after ↔
      step.IsStorable ∧ step.id ∉ tables.steps.map StepRecord.id ∧
        step.process ∈ tables.processes.map ProcessRecord.id ∧
        after = { tables with steps := tables.steps ++ [step.record] } := by
  rw [← any_key_iff, ← any_key_iff]
  constructor
  · intro applied
    obtain ⟨record, written, checked⟩ := exists_of_bind_eq_ok applied
    obtain ⟨storable, rfl⟩ := writeStep_eq_ok.mp written
    split at checked
    · cases checked
    · rename_i isNew
      split at checked <;> cases checked
      rename_i owned
      exact ⟨storable, isNew, owned, rfl⟩
  · rintro ⟨storable, isNew, owned, rfl⟩
    rw [apply, writeStep_eq storable]
    exact (if_neg isNew).trans (if_pos owned)

theorem apply_updateProcess_eq_ok {update : ProcessUpdate} :
    tables.apply (.updateProcess id expected update) = .ok after ↔
      FitsColumn expected ∧ FitsColumn update.version ∧
        (∀ expiry, update.lease = .write (some expiry) → expiry.IsWritable) ∧
        (∃ row ∈ tables.processes, row.id = id ∧ row.version = expected) ∧
        after = { tables with
          processes := tables.processes.map fun row =>
            if row.id = id ∧ row.version = expected then update.record row else row } := by
  constructor
  · intro applied
    obtain ⟨lease, leaseWritten, versioned⟩ := exists_of_bind_eq_ok applied
    obtain ⟨version, versionFits, limited⟩ := exists_of_bind_eq_ok versioned
    obtain ⟨stored, storedFits, checked⟩ := exists_of_bind_eq_ok limited
    obtain ⟨writable, rfl⟩ := writeLease_eq_ok.mp leaseWritten
    obtain ⟨version, rfl⟩ := columnInteger_eq_ok.mp versionFits
    obtain ⟨expects, rfl⟩ := columnInteger_eq_ok.mp storedFits
    dsimp only at checked
    split at checked <;> cases checked
    rename_i present
    refine ⟨expects, version, writable, any_target_iff.mp present, ?_⟩
    simp [ProcessUpdate.record]
  · rintro ⟨expects, version, writable, present, rfl⟩
    rw [apply, writeLease_eq_ok.mpr ⟨writable, rfl⟩, columnInteger_eq version,
      columnInteger_eq expects]
    refine (if_pos (any_target_iff.mpr present)).trans ?_
    simp [ProcessUpdate.record]

/-- A status that is not cleared leaves nothing in the way of an update, row by row. -/
theorem mapM_updateStepRecord {update : StepUpdate} {rows : List StepRecord}
    (kept : update.status ≠ .write none) :
    (rows.mapM fun row =>
        if row.id = id then updateStepRecord update changed.column row else .ok row) =
      .ok (rows.map fun row => if row.id = id then update.record changed row else row) := by
  refine mapM_eq_ok fun row _ => ?_
  split
  · exact updateStepRecord_eq_ok.mpr ⟨kept, rfl⟩
  · rfl

theorem apply_updateStep_eq_ok {update : StepUpdate} :
    tables.apply (.updateStep id update changed) = .ok after ↔
      update.status ≠ .write none ∧ changed.IsWritable ∧ id ∈ tables.steps.map StepRecord.id ∧
        after = { tables with
          steps := tables.steps.map fun row =>
            if row.id = id then update.record changed row else row } := by
  constructor
  · intro applied
    obtain ⟨text, textWritten, checked⟩ := exists_of_bind_eq_ok applied
    obtain ⟨writable, rfl⟩ := writeTime_eq_ok.mp textWritten
    split at checked
    · rename_i present
      obtain ⟨steps, updated, built⟩ := exists_of_bind_eq_ok checked
      cases built
      have stored := any_key_iff.mp present
      obtain ⟨row, member, isTarget⟩ := List.mem_map.mp stored
      obtain ⟨_, _, succeeded⟩ := exists_of_mem_forall₂ (mapM_eq_ok_iff.mp updated) member
      rw [if_pos isTarget] at succeeded
      -- The row that is there could not have been updated with a cleared status.
      have kept := (updateStepRecord_eq_ok.mp succeeded).1
      rw [mapM_updateStepRecord kept] at updated
      cases updated
      exact ⟨kept, writable, stored, rfl⟩
    · cases checked
  · rintro ⟨kept, writable, stored, rfl⟩
    rw [apply, writeTime_eq writable]
    refine (if_pos (any_key_iff.mpr stored)).trans ?_
    rw [mapM_updateStepRecord kept]
    rfl

theorem apply_deleteStep_eq_ok :
    tables.apply (.deleteStep id) = .ok after ↔
      id ∈ tables.steps.map StepRecord.id ∧
        after = { tables with steps := tables.steps.filter fun row => row.id != id } := by
  rw [← any_key_iff, apply]
  split <;> simp [*, eq_comm]

/-! ### Rows that are missing -/

theorem apply_updateProcess_eq_error {update : ProcessUpdate} (expects : FitsColumn expected)
    (version : FitsColumn update.version)
    (writable : ∀ expiry, update.lease = .write (some expiry) → expiry.IsWritable)
    (absent : ¬∃ row ∈ tables.processes, row.id = id ∧ row.version = expected) :
    tables.apply (.updateProcess id expected update) = .error (.staleProcess id expected) := by
  rw [apply, writeLease_eq_ok.mpr ⟨writable, rfl⟩, columnInteger_eq version,
    columnInteger_eq expects]
  exact if_neg fun present => absent (any_target_iff.mp present)

theorem apply_updateStep_eq_error {update : StepUpdate} (writable : changed.IsWritable)
    (absent : id ∉ tables.steps.map StepRecord.id) :
    tables.apply (.updateStep id update changed) = .error (.missingStep id) := by
  rw [apply, writeTime_eq writable]
  exact if_neg fun present => absent (any_key_iff.mp present)

theorem apply_deleteStep_eq_error (absent : id ∉ tables.steps.map StepRecord.id) :
    tables.apply (.deleteStep id) = .error (.missingStep id) :=
  if_neg fun present => absent (any_key_iff.mp present)

end Tables

end Workflow
