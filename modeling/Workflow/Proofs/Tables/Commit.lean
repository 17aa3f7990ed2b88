import Workflow.Proofs.Tables.Taken

/-!
# A batch on rows and on tables

Two tables record the rows of a store when their records are those of the rows, in the same
order.  A change that inserts new rows only, that names stored processes and that writes what a
table can hold has the same outcome on both sides: both refuse it for the same reason, or the
tables record the rows afterwards.  A batch is one change after another.
-/

namespace Workflow

/-- Two computations fail alike, or both succeed with related results. -/
inductive SameOutcome {α β : Type} (related : α → β → Prop) :
    Except Failure α → Except Failure β → Prop where
  | ok {left : α} {right : β} (holds : related left right) :
      SameOutcome related (.ok left) (.ok right)
  | error (failure : Failure) : SameOutcome related (.error failure) (.error failure)

/-- The records of two tables are those of the rows, and no two rows share an identifier. -/
structure Tables.Records (tables : Tables) (rows : Rows) : Prop where
  processes : tables.processes = rows.processes.map Process.record
  steps : tables.steps = rows.steps.map Step.record
  keyed : rows.Keyed
  storableProcesses : ∀ process ∈ rows.processes, process.IsStorable
  storableSteps : ∀ step ∈ rows.steps, step.IsStorable

/-- The change inserts new rows only, a step belongs to a stored process, and whatever is
written can be held by a table. -/
def Change.IsAdmissible (rows : Rows) : Change → Prop
  | insertProcess process => rows.process? process.id = none ∧ process.IsStorable
  | insertStep step =>
      rows.step? step.id = none ∧ (rows.process? step.process).isSome ∧ step.IsStorable
  | updateProcess _ expected update =>
      Tables.FitsColumn expected ∧ Tables.FitsColumn update.version ∧
        ∀ expiry, update.lease = .write (some expiry) → expiry.IsWritable
  | updateStep _ update changed => update.status ≠ .write none ∧ changed.IsWritable
  | deleteStep _ => True

/-- Each change is admissible where the changes before it lead to; after a change that is
refused nothing is asked. -/
def Batch.IsAdmissible (rows : Rows) : Batch → Prop
  | [] => True
  | change :: rest => change.IsAdmissible rows ∧
      ∀ next, rows.apply change = .ok next → Batch.IsAdmissible next rest

section Rows

variable {α : Type} {key : α → Uuid} {row : α} {rows : List α}

theorem map_putRow {β : Type} {record : α → β} {replace : β → β}
    (unique : (rows.map key).Nodup) (present : key row ∈ rows.map key)
    (replaced : ∀ other ∈ rows, key other = key row → replace (record other) = record row)
    (kept : ∀ other ∈ rows, key other ≠ key row → replace (record other) = record other) :
    (putRow key row rows).map record = (rows.map record).map replace := by
  rw [putRow_of_mem unique present, List.map_map, List.map_map]
  apply List.map_congr_left
  intro other member
  by_cases same : key other = key row
  · simp [same, replaced other member same]
  · simp [same, kept other member same]

end Rows

namespace Tables

variable {tables : Tables} {rows : Rows} {change : Change} {id : Uuid}

theorem records_ofCapacity (capacity : Nat) : (ofCapacity capacity).Records Rows.empty :=
  ⟨rfl, rfl, ⟨List.nodup_nil, List.nodup_nil⟩, by simp [Rows.empty], by simp [Rows.empty]⟩

namespace Records

variable (records : tables.Records rows)
include records

theorem mem_processes :
    id ∈ tables.processes.map ProcessRecord.id ↔ (rows.process? id).isSome := by
  rw [records.processes, List.map_map, Rows.process?, findRow?_isSome_iff]
  rfl

theorem mem_steps : id ∈ tables.steps.map StepRecord.id ↔ (rows.step? id).isSome := by
  rw [records.steps, List.map_map, Rows.step?, findRow?_isSome_iff]
  rfl

theorem exists_target_iff {expected : Int} :
    (∃ row ∈ tables.processes, row.id = id ∧ row.version = expected) ↔
      ∃ process, rows.process? id = some process ∧ process.version = expected := by
  rw [records.processes]
  constructor
  · rintro ⟨row, listed, same, expects⟩
    obtain ⟨process, member, rfl⟩ := List.mem_map.mp listed
    exact ⟨process, (findRow?_eq_some_iff records.keyed.processes).mpr ⟨member, same⟩, expects⟩
  · rintro ⟨process, found, expects⟩
    obtain ⟨member, same⟩ := findRow?_eq_some found
    exact ⟨process.record, List.mem_map_of_mem member, same, expects⟩

theorem putProcess {process : Process} {records' : List ProcessRecord}
    (same : records' = (putRow Process.id process rows.processes).map Process.record)
    (storable : process.IsStorable) :
    Records { tables with processes := records' }
      { rows with processes := putRow Process.id process rows.processes } where
  processes := same
  steps := records.steps
  keyed := ⟨nodup_putRow records.keyed.processes, records.keyed.steps⟩
  storableProcesses other member := by
    rcases mem_putRow member with rfl | before
    · exact storable
    · exact records.storableProcesses other before
  storableSteps := records.storableSteps

theorem putStep {step : Step} {records' : List StepRecord}
    (same : records' = (putRow Step.id step rows.steps).map Step.record)
    (storable : step.IsStorable) :
    Records { tables with steps := records' }
      { rows with steps := putRow Step.id step rows.steps } where
  processes := records.processes
  steps := same
  keyed := ⟨records.keyed.processes, nodup_putRow records.keyed.steps⟩
  storableProcesses := records.storableProcesses
  storableSteps other member := by
    rcases mem_putRow member with rfl | before
    · exact storable
    · exact records.storableSteps other before

theorem insertProcess {process : Process} (isNew : rows.process? process.id = none)
    (storable : process.IsStorable) :
    SameOutcome Records (tables.apply (.insertProcess process))
      (rows.apply (.insertProcess process)) := by
  have unused : process.id ∉ tables.processes.map ProcessRecord.id := by
    rw [records.mem_processes]
    exact Option.not_isSome_iff_eq_none.mpr isNew
  rw [apply_insertProcess_eq_ok.mpr ⟨storable, unused, rfl⟩]
  refine .ok (records.putProcess ?_ storable)
  rw [putRow_of_notMem (findRow?_eq_none_iff.mp isNew), records.processes, List.map_append]
  rfl

theorem insertStep {step : Step} (isNew : rows.step? step.id = none)
    (owned : (rows.process? step.process).isSome) (storable : step.IsStorable) :
    SameOutcome Records (tables.apply (.insertStep step)) (rows.apply (.insertStep step)) := by
  have unused : step.id ∉ tables.steps.map StepRecord.id := by
    rw [records.mem_steps]
    exact Option.not_isSome_iff_eq_none.mpr isNew
  rw [apply_insertStep_eq_ok.mpr ⟨storable, unused, records.mem_processes.mpr owned, rfl⟩]
  refine .ok (records.putStep ?_ storable)
  rw [putRow_of_notMem (findRow?_eq_none_iff.mp isNew), records.steps, List.map_append]
  rfl

theorem updateProcess {expected : Int} {update : ProcessUpdate} (expects : FitsColumn expected)
    (version : FitsColumn update.version)
    (writable : ∀ expiry, update.lease = .write (some expiry) → expiry.IsWritable) :
    SameOutcome Records (tables.apply (.updateProcess id expected update))
      (rows.apply (.updateProcess id expected update)) := by
  by_cases stored : ∃ process, rows.process? id = some process ∧ process.version = expected
  · have present := records.exists_target_iff.mpr stored
    obtain ⟨process, found, same⟩ := stored
    obtain ⟨member, keyed⟩ := findRow?_eq_some found
    rw [apply_updateProcess_eq_ok.mpr ⟨expects, version, writable, present, rfl⟩,
      Rows.apply_updateProcess_eq_ok.mpr ⟨process, found, same, rfl⟩]
    have storable := records.storableProcesses process member
    refine .ok (records.putProcess ?_ (storable.update version writable))
    have unique := records.keyed.processes
    have sameId : (update.apply process).id = id := keyed
    rw [records.processes]
    refine (map_putRow unique (sameId ▸ keyed ▸ List.mem_map_of_mem member) ?_ ?_).symm
    · intro other otherMember isTarget
      obtain rfl : other = process :=
        eq_of_mem_of_key_eq unique otherMember member isTarget
      exact (if_pos ⟨keyed, same⟩).trans (update.record_record other)
    · exact fun other _ isOther => if_neg fun chosen => isOther (chosen.1.trans sameId.symm)
  · have refused : rows.apply (.updateProcess id expected update) =
        .error (.staleProcess id expected) := by
      rw [Rows.apply]
      cases found : rows.process? id with
      | none => rfl
      | some process => exact if_neg fun same => stored ⟨process, found, same⟩
    rw [refused, apply_updateProcess_eq_error expects version writable
      fun present => stored (records.exists_target_iff.mp present)]
    exact .error _

theorem updateStep {update : StepUpdate} {changed : Timestamp}
    (kept : update.status ≠ .write none) (writable : changed.IsWritable) :
    SameOutcome Records (tables.apply (.updateStep id update changed))
      (rows.apply (.updateStep id update changed)) := by
  have present := @mem_steps _ _ id records
  cases found : rows.step? id with
  | none =>
      have absent : id ∉ tables.steps.map StepRecord.id := by simp [present, found]
      rw [apply_updateStep_eq_error writable absent, Rows.apply, found]
      exact .error _
  | some step =>
      obtain ⟨member, keyed⟩ := findRow?_eq_some found
      have unique := records.keyed.steps
      have sameId : (update.apply changed step).id = id := keyed
      rw [apply_updateStep_eq_ok.mpr ⟨kept, writable, present.mpr (by simp [found]), rfl⟩,
        Rows.apply_updateStep_eq_ok.mpr ⟨step, found, rfl⟩]
      have storable := records.storableSteps step member
      refine .ok (records.putStep ?_ (storable.update kept writable))
      rw [records.steps]
      refine (map_putRow unique (sameId ▸ keyed ▸ List.mem_map_of_mem member) ?_ ?_).symm
      · intro other otherMember isTarget
        obtain rfl : other = step := eq_of_mem_of_key_eq unique otherMember member isTarget
        exact (if_pos keyed).trans (StepUpdate.record_record storable kept)
      · exact fun other _ isOther => if_neg fun same => isOther (same.trans sameId.symm)

theorem deleteStep :
    SameOutcome Records (tables.apply (.deleteStep id)) (rows.apply (.deleteStep id)) := by
  have present := @mem_steps _ _ id records
  cases found : rows.step? id with
  | none =>
      have absent : id ∉ tables.steps.map StepRecord.id := by simp [present, found]
      rw [apply_deleteStep_eq_error absent, Rows.apply, found]
      exact .error _
  | some step =>
      rw [apply_deleteStep_eq_ok.mpr ⟨present.mpr (by simp [found]), rfl⟩,
        Rows.apply_deleteStep_eq_ok.mpr ⟨by simp [found], rfl⟩]
      refine .ok ⟨records.processes, ?_, ⟨records.keyed.processes,
        nodup_dropRow records.keyed.steps⟩, records.storableProcesses, ?_⟩
      · rw [records.steps, List.filter_map, dropRow]
        rfl
      · intro other kept
        exact records.storableSteps other (List.mem_filter.mp kept).1

/-- **A change has the same outcome on rows and on the tables that record them.** -/
theorem apply (admissible : change.IsAdmissible rows) :
    SameOutcome Records (tables.apply change) (rows.apply change) := by
  cases change with
  | insertProcess process => exact records.insertProcess admissible.1 admissible.2
  | insertStep step => exact records.insertStep admissible.1 admissible.2.1 admissible.2.2
  | updateProcess id expected update =>
      exact records.updateProcess admissible.1 admissible.2.1 admissible.2.2
  | updateStep id update changed => exact records.updateStep admissible.1 admissible.2
  | deleteStep id => exact records.deleteStep

end Records

/-- **So has a batch.** -/
theorem Records.commit {batch : Batch} (records : tables.Records rows)
    (admissible : batch.IsAdmissible rows) :
    SameOutcome Records (tables.commit batch) (rows.commit batch) := by
  induction batch generalizing tables rows with
  | nil => exact .ok records
  | cons change rest induction =>
      obtain ⟨first, later⟩ := admissible
      have outcome := records.apply first
      rw [Tables.commit, Rows.commit, List.foldlM_cons, List.foldlM_cons]
      generalize applied : tables.apply change = written at outcome
      generalize reached : rows.apply change = next at outcome
      cases outcome with
      | ok holds => exact induction holds (later _ reached)
      | error failure => exact .error failure

end Tables

end Workflow
