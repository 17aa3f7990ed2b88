import Workflow.Proofs.Tables.Question

/-!
# What tables hold

Tables record rows if every record can be read back and no two share an identifier.  Read back,
the records are the rows that the tables hold, on the clock of universal time.  New tables record
no rows, and whatever change tables take, they record rows afterwards, so all tables that are
written by batches do.
-/

namespace Workflow

/-! ### Universal time -/

namespace Timestamp

variable {stamp : Timestamp}

@[simp] theorem instant_atUtc : stamp.atUtc.instant = stamp.instant :=
  Int.sub_zero _

@[simp] theorem column_atUtc : stamp.atUtc.column = stamp.column := by
  rw [column, column, instant_atUtc]

@[simp] theorem atUtc_atUtc : stamp.atUtc.atUtc = stamp.atUtc := by
  rw [atUtc, instant_atUtc, atUtc]

theorem IsWritable.atUtc (writable : stamp.IsWritable) : stamp.atUtc.IsWritable := by
  rwa [IsWritable, instant_atUtc]

end Timestamp

namespace Process

variable {process : Process}

@[simp] theorem record_atUtc : process.atUtc.record = process.record := by
  simp [record, atUtc, Function.comp_def]

@[simp] theorem atUtc_atUtc : process.atUtc.atUtc = process.atUtc := by
  simp [atUtc, Function.comp_def]

theorem IsStorable.atUtc (storable : process.IsStorable) : process.atUtc.IsStorable where
  version := storable.version
  lease expiry leased := by
    obtain ⟨before, leasedBefore, rfl⟩ := Option.map_eq_some_iff.mp leased
    exact (storable.lease before leasedBefore).atUtc

end Process

namespace Step

variable {step : Step}

@[simp] theorem record_atUtc : step.atUtc.record = step.record := by
  simp [record, atUtc, Function.comp_def]

@[simp] theorem atUtc_atUtc : step.atUtc.atUtc = step.atUtc := by
  simp [atUtc, Function.comp_def]

theorem IsStorable.atUtc (storable : step.IsStorable) : step.atUtc.IsStorable where
  status := storable.status
  created := storable.created.atUtc
  changed changed same := by
    obtain ⟨before, changedBefore, rfl⟩ := Option.map_eq_some_iff.mp same
    exact (storable.changed before changedBefore).atUtc

end Step

/-- The rows with all time stamps on the clock of universal time. -/
def Rows.atUtc (rows : Rows) : Rows where
  processes := rows.processes.map Process.atUtc
  steps := rows.steps.map Step.atUtc

/-- The records of some rows in tables whose questions can carry so many values. -/
def Rows.recorded (rows : Rows) (capacity : Nat) : Tables where
  capacity := capacity
  processes := rows.processes.map Process.record
  steps := rows.steps.map Step.record

namespace Tables

/-- The rows that are read back from the records. -/
def contents (tables : Tables) : Rows where
  processes := tables.processes.filterMap fun record => (readProcess record).toOption
  steps := tables.steps.filterMap fun record => (readStep record).toOption

/-- The records are those of some rows. -/
def IsSound (tables : Tables) : Prop :=
  ∃ rows, tables.Records rows

theorem records_recorded {rows : Rows} (keyed : rows.Keyed)
    (processes : ∀ process ∈ rows.processes, process.IsStorable)
    (steps : ∀ step ∈ rows.steps, step.IsStorable) (capacity : Nat) :
    (rows.recorded capacity).Records rows :=
  ⟨rfl, rfl, keyed, processes, steps⟩

namespace Records

variable {tables : Tables} {rows : Rows} (records : tables.Records rows)
include records

/-- What is read back are the rows that were recorded, in universal time. -/
theorem contents_eq : tables.contents = rows.atUtc := by
  have processes : tables.contents.processes = rows.processes.map Process.atUtc := by
    rw [contents, records.processes, List.filterMap_map, ← List.filterMap_eq_map]
    refine List.filterMap_congr fun process member => ?_
    simp [readProcess_record (records.storableProcesses process member), Except.toOption]
  have steps : tables.contents.steps = rows.steps.map Step.atUtc := by
    rw [contents, records.steps, List.filterMap_map, ← List.filterMap_eq_map]
    refine List.filterMap_congr fun step member => ?_
    simp [readStep_record (records.storableSteps step member), Except.toOption]
  rw [Rows.atUtc, ← processes, ← steps]

theorem atUtc : tables.Records rows.atUtc where
  processes := by simp [records.processes, Rows.atUtc, Function.comp_def]
  steps := by simp [records.steps, Rows.atUtc, Function.comp_def]
  keyed := by
    constructor
    · rw [Rows.atUtc, List.map_map]
      exact records.keyed.processes
    · rw [Rows.atUtc, List.map_map]
      exact records.keyed.steps
  storableProcesses process member := by
    obtain ⟨origin, originMember, rfl⟩ := List.mem_map.mp member
    exact (records.storableProcesses origin originMember).atUtc
  storableSteps step member := by
    obtain ⟨origin, originMember, rfl⟩ := List.mem_map.mp member
    exact (records.storableSteps origin originMember).atUtc

end Records

section Sound

variable {tables after : Tables} {change : Change} {batch : Batch}

theorem IsSound.records (sound : tables.IsSound) : tables.Records tables.contents := by
  obtain ⟨rows, records⟩ := sound
  rw [records.contents_eq]
  exact records.atUtc

theorem IsSound.isUtc (sound : tables.IsSound) :
    (∀ process ∈ tables.contents.processes, process.atUtc = process) ∧
      ∀ step ∈ tables.contents.steps, step.atUtc = step := by
  obtain ⟨rows, records⟩ := sound
  rw [records.contents_eq]
  constructor
  · intro process member
    obtain ⟨origin, _, rfl⟩ := List.mem_map.mp member
    exact Process.atUtc_atUtc
  · intro step member
    obtain ⟨origin, _, rfl⟩ := List.mem_map.mp member
    exact Step.atUtc_atUtc

/-! ### What is taken can be held -/

/-- Whatever change tables take, it is one that rows take as well. -/
theorem Records.isAdmissible_of_apply {rows : Rows} (records : tables.Records rows)
    (applied : tables.apply change = .ok after) : change.IsAdmissible rows := by
  cases change with
  | insertProcess process =>
      obtain ⟨storable, isNew, _⟩ := apply_insertProcess_eq_ok.mp applied
      rw [records.mem_processes] at isNew
      exact ⟨Option.not_isSome_iff_eq_none.mp isNew, storable⟩
  | insertStep step =>
      obtain ⟨storable, isNew, owned, _⟩ := apply_insertStep_eq_ok.mp applied
      rw [records.mem_steps] at isNew
      exact ⟨Option.not_isSome_iff_eq_none.mp isNew, records.mem_processes.mp owned, storable⟩
  | updateProcess id expected update =>
      obtain ⟨expects, version, writable, _⟩ := apply_updateProcess_eq_ok.mp applied
      exact ⟨expects, version, writable⟩
  | updateStep id update changed =>
      obtain ⟨kept, writable, _⟩ := apply_updateStep_eq_ok.mp applied
      exact ⟨kept, writable⟩
  | deleteStep id => trivial

theorem IsSound.apply (sound : tables.IsSound) (applied : tables.apply change = .ok after) :
    after.IsSound := by
  obtain ⟨rows, records⟩ := sound
  have outcome := records.apply (records.isAdmissible_of_apply applied)
  rw [applied] at outcome
  generalize rows.apply change = reached at outcome
  cases outcome with
  | ok holds => exact ⟨_, holds⟩

/-- **So does a batch.** -/
theorem IsSound.commit (sound : tables.IsSound) (committed : tables.commit batch = .ok after) :
    after.IsSound := by
  induction batch generalizing tables with
  | nil =>
      cases committed
      exact sound
  | cons change rest induction =>
      rw [Tables.commit, List.foldlM_cons] at committed
      obtain ⟨middle, applied, later⟩ := exists_of_bind_eq_ok committed
      exact induction (sound.apply applied) later

end Sound

end Tables

end Workflow
