import Workflow.Proofs.Isolation.Stock
import Workflow.Proofs.Saving.View

/-!
# Both kinds of store take changes as told

Rows in memory show every column as it is, and tables show time stamps as text.  A change
that is applied takes place as it is told for any store.  Rows refuse a change only if it
misses what it expects; tables can refuse it for other reasons too.
-/

namespace Workflow

/-! ### Rows in memory -/

def Process.columns (process : Process) : ProcessColumns Timestamp where
  type := process.type
  version := process.version
  lease := process.lease

def Step.columns (step : Step) : StepColumns Timestamp where
  type := step.type
  status := step.status
  process := step.process
  created := step.created
  changed := step.changed
  message := step.message

def Rows.view (rows : Rows) : View Timestamp where
  process? := fun id => (rows.process? id).map Process.columns
  step? := fun id => (rows.step? id).map Step.columns

section Columns

variable {stamp : Option Timestamp} {process : Process} {step : Step}
  {processUpdate : ProcessUpdate} {stepUpdate : StepUpdate} {now : Timestamp}

theorem optionRel_eq_refl : Option.Rel Eq stamp stamp := by
  cases stamp with
  | none => exact .none
  | some _ => exact .some rfl

theorem Field.writes_apply {α : Type} {shows : α → α → Prop} {field : Field α} {before : α}
    (refl : ∀ value, shows value value) : field.Writes shows before (field.apply before) := by
  cases field with
  | keep => rfl
  | write value => exact refl value

theorem Process.columns_holds : process.columns.Holds Eq process :=
  ⟨rfl, rfl, optionRel_eq_refl⟩

theorem Step.columns_holds : step.columns.Holds Eq step :=
  ⟨rfl, rfl, rfl, rfl, optionRel_eq_refl, rfl⟩

theorem Process.writes_apply :
    processUpdate.Writes Eq process.columns (processUpdate.apply process).columns :=
  ⟨rfl, rfl, Field.writes_apply fun _ => optionRel_eq_refl⟩

theorem Step.writes_apply :
    stepUpdate.Writes Eq now step.columns (stepUpdate.apply now step).columns :=
  ⟨rfl, Field.writes_apply fun _ => rfl, rfl, rfl, .some rfl, Field.writes_apply fun _ => rfl⟩

end Columns

namespace Rows

variable {rows after : Rows} {change : Change} {batch : Batch} {failure : Failure}

theorem view_putProcess {process : Process} :
    view { rows with processes := putRow Process.id process rows.processes } =
      { rows.view with
        process? := Function.update rows.view.process? process.id (some process.columns) } := by
  refine congrArg (View.mk · _) (funext fun id => ?_)
  rw [Function.update_apply, Rows.process?, findRow?_putRow]
  by_cases same : id = process.id
  · rw [if_pos same.symm, if_pos same]
    rfl
  · rw [if_neg (Ne.symm same), if_neg same]
    rfl

theorem view_putStep {step : Step} :
    view { rows with steps := putRow Step.id step rows.steps } =
      { rows.view with
        step? := Function.update rows.view.step? step.id (some step.columns) } := by
  refine congrArg (View.mk _ ·) (funext fun id => ?_)
  rw [Function.update_apply, Rows.step?, findRow?_putRow]
  by_cases same : id = step.id
  · rw [if_pos same.symm, if_pos same]
    rfl
  · rw [if_neg (Ne.symm same), if_neg same]
    rfl

theorem view_dropStep {id : Uuid} :
    view { rows with steps := dropRow Step.id id rows.steps } =
      { rows.view with step? := Function.update rows.view.step? id none } := by
  refine congrArg (View.mk _ ·) (funext fun other => ?_)
  rw [Function.update_apply, Rows.step?, findRow?_dropRow]
  split <;> rfl

/-- A change that is applied takes place as it is told. -/
theorem takes_of_apply (applied : rows.apply change = .ok after) :
    rows.view.Takes Eq change after.view := by
  cases change with
  | insertProcess process =>
      cases applied
      rw [view_putProcess]
      exact .insertProcess Process.columns_holds
  | insertStep step =>
      cases applied
      rw [view_putStep]
      exact .insertStep Step.columns_holds
  | updateProcess id expected update =>
      obtain ⟨process, found, expects, rfl⟩ := apply_updateProcess_eq_ok.mp applied
      have sameId : process.id = id := id_of_process? found
      rw [view_putProcess, show (update.apply process).id = id from sameId]
      exact .updateProcess (congrArg (Option.map Process.columns) found) expects
        Process.writes_apply
  | updateStep id update now =>
      obtain ⟨step, found, rfl⟩ := apply_updateStep_eq_ok.mp applied
      have sameId : (update.apply now step).id = id := (findRow?_eq_some found).2
      rw [view_putStep, sameId]
      exact .updateStep (congrArg (Option.map Step.columns) found) Step.writes_apply
  | deleteStep id =>
      obtain ⟨present, rfl⟩ := apply_deleteStep_eq_ok.mp applied
      obtain ⟨step, found⟩ := Option.isSome_iff_exists.mp present
      rw [view_dropStep]
      exact .deleteStep (congrArg (Option.map Step.columns) found)

theorem misses_of_apply (refused : rows.apply change = .error failure) :
    rows.view.Misses change := by
  cases change with
  | insertProcess process => cases refused
  | insertStep step => cases refused
  | updateProcess id expected update =>
      intro row found expects
      obtain ⟨process, stored, rfl⟩ := Option.map_eq_some_iff.mp found
      have isExpected : process.version = expected := expects
      simp only [apply, stored, if_pos isExpected] at refused
      cases refused
  | updateStep id update now =>
      simp only [apply] at refused
      split at refused
      · rename_i absent
        exact Option.map_eq_none_iff.mpr absent
      · cases refused
  | deleteStep id =>
      simp only [apply] at refused
      split at refused
      · rename_i absent
        exact Option.map_eq_none_iff.mpr absent
      · cases refused

theorem takesAll_of_commit (committed : rows.commit batch = .ok after) :
    rows.view.TakesAll Eq batch after.view := by
  induction batch generalizing rows with
  | nil =>
      cases committed
      exact .nil _
  | cons change batch induction =>
      obtain ⟨middle, applied, rest⟩ := commit_cons_eq_ok.mp committed
      exact .cons (takes_of_apply applied) (induction rest)

/-- A batch that is refused has taken place up to the change that conflicts. -/
theorem conflicts_of_commit (refused : rows.commit batch = .error failure) :
    rows.view.Conflicts Eq batch := by
  induction batch generalizing rows with
  | nil => cases refused
  | cons change batch induction =>
      rw [commit_cons] at refused
      cases applied : rows.apply change with
      | error first =>
          exact ⟨[], change, batch, rows.view, rfl, .nil rows.view, misses_of_apply applied⟩
      | ok middle =>
          rw [applied] at refused
          obtain ⟨first, missing, rest, reached, rfl, takes, misses⟩ := induction refused
          exact ⟨change :: first, missing, rest, reached, rfl,
            .cons (takes_of_apply applied) takes, misses⟩

/-- **When rows refuse a batch.**  They do exactly if, in the order of the batch, some change
misses what it expects. -/
theorem commit_eq_error_iff :
    (∃ failure, rows.commit batch = .error failure) ↔ rows.view.Conflicts Eq batch := by
  constructor
  · rintro ⟨failure, refused⟩
    exact conflicts_of_commit refused
  · rintro ⟨first, change, rest, reached, rfl, takes, misses⟩
    cases committed : rows.commit (first ++ change :: rest) with
    | error failure => exact ⟨failure, rfl⟩
    | ok after =>
        obtain ⟨middle, firstCommitted, restCommitted⟩ := commit_append_eq_ok.mp committed
        obtain ⟨next, applied, _⟩ := commit_cons_eq_ok.mp restCommitted
        have once : ShowsOnce (Eq : Timestamp → Timestamp → Prop) := fun _ _ _ isLeft isRight =>
          isLeft.symm.trans isRight
        obtain rfl := once.takesAll takes (takesAll_of_commit firstCommitted)
        exact absurd misses (takes_of_apply applied).not_misses

end Rows

/-! ### Tables -/

def ProcessRecord.columns (record : ProcessRecord) : ProcessColumns String where
  type := record.type
  version := record.version
  lease := record.lease

def StepRecord.columns (record : StepRecord) : StepColumns String where
  type := record.type
  status := some record.status
  process := record.process
  created := record.created
  changed := record.changed
  message := record.message

namespace Tables

def view (tables : Tables) : View String where
  process? := fun id => (findRow? ProcessRecord.id id tables.processes).map ProcessRecord.columns
  step? := fun id => (findRow? StepRecord.id id tables.steps).map StepRecord.columns

/-- How a column shows a time stamp. -/
def ShowsTime (stamp : Timestamp) (text : String) : Prop :=
  stamp.fixedWidth? = some text

/-- No two processes and no two steps share an identifier. -/
structure Keyed (tables : Tables) : Prop where
  processes : (tables.processes.map ProcessRecord.id).Nodup
  steps : (tables.steps.map StepRecord.id).Nodup

section Columns

variable {stamp : Timestamp} {optional : Option Timestamp}

theorem showsTime_column (writable : stamp.IsWritable) : ShowsTime stamp stamp.column :=
  Timestamp.fixedWidth?_eq writable

theorem rel_map_column (writable : ∀ stamp, optional = some stamp → stamp.IsWritable) :
    Option.Rel ShowsTime optional (optional.map Timestamp.column) := by
  cases optional with
  | none => exact .none
  | some stamp => exact .some (showsTime_column (writable stamp rfl))

theorem holds_processRecord {process : Process} (storable : process.IsStorable) :
    process.record.columns.Holds ShowsTime process where
  type := rfl
  version := rfl
  lease := rel_map_column storable.lease

theorem holds_stepRecord {step : Step} (storable : step.IsStorable) :
    step.record.columns.Holds ShowsTime step := by
  obtain ⟨status, hasStatus⟩ := Option.ne_none_iff_exists'.mp storable.status
  refine ⟨rfl, ?_, rfl, showsTime_column storable.created, rel_map_column storable.changed, rfl⟩
  simp [StepRecord.columns, Step.record, hasStatus]

theorem writes_processRecord {update : ProcessUpdate} {row : ProcessRecord}
    (writable : ∀ expiry, update.lease = .write (some expiry) → expiry.IsWritable) :
    update.Writes ShowsTime row.columns (update.record row).columns := by
  refine ⟨rfl, rfl, ?_⟩
  obtain ⟨version, field⟩ := update
  cases field with
  | keep => exact rfl
  | write value =>
      exact rel_map_column fun expiry same => writable expiry (congrArg Field.write same)

theorem writes_stepRecord {update : StepUpdate} {now : Timestamp} {row : StepRecord}
    (kept : update.status ≠ .write none) (writable : now.IsWritable) :
    update.Writes ShowsTime now row.columns (update.record now row).columns := by
  refine ⟨rfl, ?_, rfl, rfl, .some (showsTime_column writable), Field.writes_apply fun _ => rfl⟩
  obtain ⟨field, message⟩ := update
  rcases field with _ | _ | status
  · exact rfl
  · exact absurd rfl kept
  · exact rfl

end Columns

variable {tables after : Tables} {change : Change} {batch : Batch}

theorem findRow?_append {α : Type} {key : α → Uuid} {id : Uuid} {row : α} {rows : List α}
    (absent : key row ∉ rows.map key) :
    findRow? key id (rows ++ [row]) = if id = key row then some row else findRow? key id rows := by
  rw [← putRow_of_notMem absent, findRow?_putRow]
  exact if_congr eq_comm rfl rfl

theorem view_appendProcess {record : ProcessRecord}
    (absent : record.id ∉ tables.processes.map ProcessRecord.id) :
    view { tables with processes := tables.processes ++ [record] } =
      { tables.view with
        process? := Function.update tables.view.process? record.id (some record.columns) } := by
  refine congrArg (View.mk · _) (funext fun id => ?_)
  rw [Function.update_apply, findRow?_append absent]
  split <;> rfl

theorem view_appendStep {record : StepRecord}
    (absent : record.id ∉ tables.steps.map StepRecord.id) :
    view { tables with steps := tables.steps ++ [record] } =
      { tables.view with
        step? := Function.update tables.view.step? record.id (some record.columns) } := by
  refine congrArg (View.mk _ ·) (funext fun id => ?_)
  rw [Function.update_apply, findRow?_append absent]
  split <;> rfl

section Updated

variable {α β : Type} {key : α → Uuid} {becomes : α → α} {rows : List α}

theorem findRow?_map (keeps : ∀ row, key (becomes row) = key row) (id : Uuid) :
    findRow? key id (rows.map becomes) = (findRow? key id rows).map becomes := by
  rw [findRow?, findRow?, List.find?_map]
  simp only [Function.comp_def, keeps]

theorem columns_map {columns : α → β} {id : Uuid} {row : α}
    (keeps : ∀ row, key (becomes row) = key row)
    (spared : ∀ row, key row ≠ id → becomes row = row) (found : findRow? key id rows = some row) :
    (fun other => (findRow? key other (rows.map becomes)).map columns) =
      Function.update (fun other => (findRow? key other rows).map columns) id
        (some (columns (becomes row))) := by
  funext other
  rw [Function.update_apply, findRow?_map keeps]
  split
  · rename_i same
    rw [same, found]
    rfl
  · rename_i different
    cases looked : findRow? key other rows with
    | none => rfl
    | some isOther =>
        have keyed : key isOther = other := (findRow?_eq_some looked).2
        rw [Option.map_some, spared isOther fun same => different (keyed.symm.trans same)]

theorem map_key_map (keeps : ∀ row, key (becomes row) = key row) :
    (rows.map becomes).map key = rows.map key := by
  rw [List.map_map]
  exact List.map_congr_left fun row _ => keeps row

end Updated

theorem view_mapProcesses {becomes : ProcessRecord → ProcessRecord} {id : Uuid}
    {row : ProcessRecord} (keeps : ∀ row, (becomes row).id = row.id)
    (spared : ∀ row, row.id ≠ id → becomes row = row)
    (found : findRow? ProcessRecord.id id tables.processes = some row) :
    view { tables with processes := tables.processes.map becomes } =
      { tables.view with
        process? := Function.update tables.view.process? id (some (becomes row).columns) } :=
  congrArg (View.mk · _) (columns_map keeps spared found)

theorem view_mapSteps {becomes : StepRecord → StepRecord} {id : Uuid} {row : StepRecord}
    (keeps : ∀ row, (becomes row).id = row.id) (spared : ∀ row, row.id ≠ id → becomes row = row)
    (found : findRow? StepRecord.id id tables.steps = some row) :
    view { tables with steps := tables.steps.map becomes } =
      { tables.view with
        step? := Function.update tables.view.step? id (some (becomes row).columns) } :=
  congrArg (View.mk _ ·) (columns_map keeps spared found)

section Changes

variable {process : Process} {step : Step} {id : Uuid} {expected : Int}
  {processUpdate : ProcessUpdate} {stepUpdate : StepUpdate} {now : Timestamp}

theorem takes_insertProcess (keyed : tables.Keyed)
    (applied : tables.apply (.insertProcess process) = .ok after) :
    tables.view.Takes ShowsTime (.insertProcess process) after.view ∧ after.Keyed := by
  obtain ⟨storable, isNew, rfl⟩ := apply_insertProcess_eq_ok.mp applied
  constructor
  · rw [view_appendProcess isNew]
    exact .insertProcess (holds_processRecord storable)
  · refine ⟨?_, keyed.steps⟩
    rw [← putRow_of_notMem isNew]
    exact nodup_putRow keyed.processes

theorem takes_insertStep (keyed : tables.Keyed)
    (applied : tables.apply (.insertStep step) = .ok after) :
    tables.view.Takes ShowsTime (.insertStep step) after.view ∧ after.Keyed := by
  obtain ⟨storable, isNew, _, rfl⟩ := apply_insertStep_eq_ok.mp applied
  constructor
  · rw [view_appendStep isNew]
    exact .insertStep (holds_stepRecord storable)
  · refine ⟨keyed.processes, ?_⟩
    rw [← putRow_of_notMem isNew]
    exact nodup_putRow keyed.steps

theorem takes_updateProcess (keyed : tables.Keyed)
    (applied : tables.apply (.updateProcess id expected processUpdate) = .ok after) :
    tables.view.Takes ShowsTime (.updateProcess id expected processUpdate) after.view ∧
      after.Keyed := by
  obtain ⟨_, _, writable, ⟨row, member, isTarget⟩, rfl⟩ := apply_updateProcess_eq_ok.mp applied
  have found : findRow? ProcessRecord.id id tables.processes = some row :=
    (findRow?_eq_some_iff keyed.processes).mpr ⟨member, isTarget.1⟩
  have keeps (row : ProcessRecord) :
      (if row.id = id ∧ row.version = expected then processUpdate.record row else row).id =
        row.id := by
    split <;> rfl
  constructor
  · rw [view_mapProcesses keeps (fun row different => if_neg fun chosen => different chosen.1)
      found, if_pos isTarget]
    exact .updateProcess (congrArg (Option.map ProcessRecord.columns) found) isTarget.2
      (writes_processRecord writable)
  · exact ⟨(map_key_map keeps).symm ▸ keyed.processes, keyed.steps⟩

theorem takes_updateStep (keyed : tables.Keyed)
    (applied : tables.apply (.updateStep id stepUpdate now) = .ok after) :
    tables.view.Takes ShowsTime (.updateStep id stepUpdate now) after.view ∧ after.Keyed := by
  obtain ⟨kept, writable, stored, rfl⟩ := apply_updateStep_eq_ok.mp applied
  obtain ⟨row, found⟩ := Option.isSome_iff_exists.mp (findRow?_isSome_iff.mpr stored)
  have keeps (row : StepRecord) :
      (if row.id = id then stepUpdate.record now row else row).id = row.id := by
    split <;> rfl
  constructor
  · rw [view_mapSteps keeps (fun row different => if_neg different) found,
      if_pos (findRow?_eq_some found).2]
    exact .updateStep (congrArg (Option.map StepRecord.columns) found)
      (writes_stepRecord kept writable)
  · exact ⟨keyed.processes, (map_key_map keeps).symm ▸ keyed.steps⟩

theorem takes_deleteStep (keyed : tables.Keyed)
    (applied : tables.apply (.deleteStep id) = .ok after) :
    tables.view.Takes ShowsTime (.deleteStep id) after.view ∧ after.Keyed := by
  obtain ⟨stored, rfl⟩ := apply_deleteStep_eq_ok.mp applied
  obtain ⟨row, found⟩ := Option.isSome_iff_exists.mp (findRow?_isSome_iff.mpr stored)
  constructor
  · have isView : view { tables with steps := dropRow StepRecord.id id tables.steps } =
        { tables.view with step? := Function.update tables.view.step? id none } := by
      refine congrArg (View.mk _ ·) (funext fun other => ?_)
      rw [Function.update_apply, findRow?_dropRow]
      split <;> rfl
    change tables.view.Takes ShowsTime _
      (view { tables with steps := dropRow StepRecord.id id tables.steps })
    rw [isView]
    exact .deleteStep (congrArg (Option.map StepRecord.columns) found)
  · exact ⟨keyed.processes, nodup_dropRow keyed.steps⟩

end Changes

/-- A change that is applied takes place as it is told, and identifiers stay unique. -/
theorem takes_of_apply (keyed : tables.Keyed) (applied : tables.apply change = .ok after) :
    tables.view.Takes ShowsTime change after.view ∧ after.Keyed := by
  cases change with
  | insertProcess process => exact takes_insertProcess keyed applied
  | insertStep step => exact takes_insertStep keyed applied
  | updateProcess id expected update => exact takes_updateProcess keyed applied
  | updateStep id update now => exact takes_updateStep keyed applied
  | deleteStep id => exact takes_deleteStep keyed applied

theorem takesAll_of_commit (keyed : tables.Keyed) (committed : tables.commit batch = .ok after) :
    tables.view.TakesAll ShowsTime batch after.view ∧ after.Keyed := by
  induction batch generalizing tables with
  | nil =>
      cases committed
      exact ⟨.nil _, keyed⟩
  | cons change batch induction =>
      rw [commit, List.foldlM_cons] at committed
      obtain ⟨middle, applied, rest⟩ := exists_of_bind_eq_ok committed
      obtain ⟨takes, middleKeyed⟩ := takes_of_apply keyed applied
      obtain ⟨takesRest, afterKeyed⟩ := induction middleKeyed rest
      exact ⟨.cons takes takesRest, afterKeyed⟩

end Tables

end Workflow
