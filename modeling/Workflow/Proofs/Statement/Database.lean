import Mathlib.Data.Multiset.Count
import Mathlib.Data.Multiset.Filter
import Mathlib.Logic.Function.Basic
import Workflow.Proofs.Rows.Commit
import Workflow.Proofs.Statement.Filled
import Workflow.Proofs.Tables.Commit

/-!
# What statements do to two tables

A table is a multiset of rows.  INSERT adds a row, UPDATE assigns to columns of the rows that meet
its conditions, DELETE removes such rows, and the server counts the rows concerned.  Identifiers
are unique, and a step refers to a process.  On the rows of a store the statement of a change does
what the change does, and the count is one; if the store refuses the change, no row is concerned.
-/

namespace Workflow

/-- The values of a row, with null in the columns that its table does not have. -/
abbrev Row := Column → Datum

abbrev Database := Table → Multiset Row

/-- Equality as a condition: null equals nothing, and instants are equal on any clock. -/
def Datum.equals : Datum → Datum → Bool
  | null, _ => false
  | time left, time right => left.instant == right.instant
  | left, right => left == right

namespace Row

def meets (row : Row) (conditions : List (Column × Datum)) : Bool :=
  conditions.all fun (column, datum) => (row column).equals datum

def assign (row : Row) (changes : List (Column × Datum)) : Row :=
  fun column => (changes.lookup column).getD (row column)

end Row

namespace Table

def columns : Table → List Column
  | process => processColumns
  | processStep => stepColumns

/-- What stands in the columns that an insertion does not name. -/
def blank : Table → Row
  | process, .version => .integer 0
  | _, _ => .null

end Table

namespace Filled

def table : Filled → Table
  | insert table _ | update table _ _ | delete table _ => table

/-- The columns that a statement names. -/
def named : Filled → List Column
  | insert _ values => values.map Prod.fst
  | update _ changes conditions => (changes ++ conditions).map Prod.fst
  | delete _ conditions => conditions.map Prod.fst

/-- The columns that a statement writes. -/
def written : Filled → List Column
  | insert _ values => values.map Prod.fst
  | update _ changes _ => changes.map Prod.fst
  | delete _ _ => []

/-- The values that a statement stores or compares with, those of a whole row if it inserts one. -/
def cells : Filled → List (Column × Datum)
  | insert table values =>
    table.columns.map fun column => (column, table.blank.assign values column)
  | update _ changes conditions => changes ++ conditions
  | delete _ conditions => conditions

/-- The rows of its table after a statement, and the number of rows concerned. -/
def effect (contents : Multiset Row) : Filled → Multiset Row × Nat
  | insert table values => (table.blank.assign values ::ₘ contents, 1)
  | update _ changes conditions =>
    (contents.map fun row => if row.meets conditions then row.assign changes else row,
      contents.countP fun row => row.meets conditions)
  | delete _ conditions =>
    (contents.filter fun row => ¬row.meets conditions,
      contents.countP fun row => row.meets conditions)

/-- The tables after a statement, and the number of rows concerned. -/
def result (database : Database) (filled : Filled) : Database × Nat :=
  let (contents, count) := filled.effect (database filled.table)
  (Function.update database filled.table contents, count)

/-- The command tag of an update or a deletion. -/
def tag? (count : Nat) : Filled → Option String
  | insert _ _ => none
  | update _ _ _ => some ("UPDATE " ++ toString count)
  | delete _ _ => some ("DELETE " ++ toString count)

/-- The statement names columns of its table, writes none of them twice, and its values are such
as the columns accept. -/
structure IsValid (accepts : Column → Datum → Bool) (filled : Filled) : Prop where
  named : filled.named ⊆ filled.table.columns
  distinct : filled.written.Nodup
  accepted : ∀ cell ∈ filled.cells, accepts cell.1 cell.2

end Filled

instance (accepts : Column → Datum → Bool) (filled : Filled) :
    Decidable (filled.IsValid accepts) :=
  decidable_of_iff (filled.named ⊆ filled.table.columns ∧ filled.written.Nodup ∧
      ∀ cell ∈ filled.cells, accepts cell.1 cell.2)
    ⟨fun ⟨named, distinct, accepted⟩ => ⟨named, distinct, accepted⟩,
      fun ⟨named, distinct, accepted⟩ => ⟨named, distinct, accepted⟩⟩

namespace Database

/-- The values of a column, each as often as it occurs. -/
def column (database : Database) (table : Table) (column : Column) : Multiset Datum :=
  (database table).map fun row => row column

/-- The identifiers of each table are unique, and steps refer to processes. -/
structure IsConsistent (database : Database) : Prop where
  processes : (database.column .process .id).Nodup
  steps : (database.column .processStep .id).Nodup
  refers : ∀ datum ∈ database.column .processStep .processId, datum ∈ database.column .process .id

instance (database : Database) : Decidable database.IsConsistent :=
  decidable_of_iff ((database.column .process .id).Nodup ∧
      (database.column .processStep .id).Nodup ∧
      ∀ datum ∈ database.column .processStep .processId, datum ∈ database.column .process .id)
    ⟨fun ⟨processes, steps, refers⟩ => ⟨processes, steps, refers⟩,
      fun ⟨processes, steps, refers⟩ => ⟨processes, steps, refers⟩⟩

end Database

/-- Runs a statement, unless the server rejects it. -/
def Filled.run? (accepts : Column → Datum → Bool) (database : Database)
    (filled : Filled) : Option (Database × Nat) :=
  if filled.IsValid accepts ∧ (filled.result database).1.IsConsistent then
    some (filled.result database)
  else none

/-- What the columns are declared to hold: integers have 32 bits, a text has no zero character,
and only some columns may be null. -/
def Column.accepts : Column → Datum → Bool
  | id, .id _ | processId, .id _ => true
  | processTypeId, .integer value | version, .integer value | processStepTypeId, .integer value
  | processStepStatusId, .integer value => -0x80000000 ≤ value && value < 0x80000000
  | dateCreated, .time _ => true
  | lockExpiry, .time _ | dateLastChanged, .time _ => true
  | message, .text value => value.toList.all fun character => character.toNat != 0
  | lockExpiry, .null | dateLastChanged, .null | message, .null => true
  | _, _ => false

/-! ### Rows of a store -/

def Process.row (process : Process) : Row
  | .id => .id process.id
  | .processTypeId => .integer process.type.code
  | .version => .integer process.version
  | .lockExpiry => .ofTime? process.lease
  | _ => .null

def Step.row (step : Step) : Row
  | .id => .id step.id
  | .processStepTypeId => .integer step.type.code
  | .processStepStatusId => .ofStatus? step.status
  | .processId => .id step.process
  | .dateCreated => .time step.created
  | .dateLastChanged => .ofTime? step.changed
  | .message => .ofText? step.message
  | _ => .null

/-- Rows of a store as a table of the server. -/
def tableOf {α : Type} (record : α → Row) (rows : List α) : Multiset Row :=
  rows.map record

/-- The tables that hold the rows of a store. -/
def Database.ofRows (rows : Rows) : Database
  | .process => tableOf Process.row rows.processes
  | .processStep => tableOf Step.row rows.steps

/-- What a change asks a server to do. -/
def Change.filled : Change → Filled
  | insertProcess process =>
    .insert .process (processColumns.map fun column => (column, process.row column))
  | insertStep step =>
    .insert .processStep (stepColumns.map fun column => (column, step.row column))
  | updateProcess id expected update =>
    .update .process update.columns [(.id, .id id), (.version, .integer expected)]
  | updateStep id update changed =>
    .update .processStep (update.columns changed) [(.id, .id id)]
  | deleteStep id => .delete .processStep [(.id, .id id)]

/-- What a change inserts has a new identifier, and a step belongs to a stored process. -/
def Change.Adds (rows : Rows) : Change → Prop
  | insertProcess process => rows.process? process.id = none
  | insertStep step => rows.step? step.id = none ∧ (rows.process? step.process).isSome
  | updateProcess _ _ _ | updateStep _ _ _ | deleteStep _ => True

/-- So it is with every change of a batch where the changes before it have led. -/
def Batch.Adds (rows : Rows) : Batch → Prop
  | [] => True
  | change :: rest => change.Adds rows ∧
      ∀ next, rows.apply change = .ok next → Batch.Adds next rest

/-- No value of a batch is beyond what the columns accept. -/
def Batch.Fits (accepts : Column → Datum → Bool) (batch : Batch) : Prop :=
  ∀ change ∈ batch, ∀ cell ∈ change.filled.cells, accepts cell.1 cell.2

/-- **The command for a change sends what the change asks for.** -/
theorem Command.ofChange_sends (change : Change) :
    (Command.ofChange change).Sends change.filled := by
  cases change with
  | insertProcess process => exact insert_sends (List.cons_ne_nil _ _)
  | insertStep step => exact insert_sends (List.cons_ne_nil _ _)
  | updateProcess id expected update =>
      exact update_sends (List.cons_ne_nil _ _) (List.cons_ne_nil _ _)
  | updateStep id update changed =>
      refine update_sends ?_ (List.cons_ne_nil _ _)
      exact List.append_ne_nil_of_right_ne_nil _ (List.cons_ne_nil _ _)
  | deleteStep id => exact delete_sends (List.cons_ne_nil _ _)

/-! ### Rows that a statement concerns -/

section Rows

variable {α : Type} {key : α → Uuid} {record : α → Row} {row updated : α} {rows : List α}
  {changes conditions : List (Column × Datum)}

theorem countP_eq_one [DecidableEq α] {concerned : α → Bool} (unique : rows.Nodup)
    (member : row ∈ rows) (alone : ∀ other ∈ rows, concerned other = true ↔ other = row) :
    rows.countP concerned = 1 := by
  rw [← List.count_eq_one_of_mem unique member, List.count_eq_countP]
  apply List.countP_congr
  intro other inRows
  rw [alone other inRows, beq_iff_eq]

namespace Filled

variable {table : Table} {values : List (Column × Datum)}

theorem effect_insert (isNew : key row ∉ rows.map key)
    (assigned : table.blank.assign values = record row) :
    (insert table values).effect (tableOf record rows) =
      (tableOf record (putRow key row rows), 1) := by
  rw [effect, assigned, putRow_of_notMem isNew, tableOf, tableOf, Multiset.cons_coe,
    List.map_append, List.map_singleton]
  exact Prod.ext (Multiset.coe_eq_coe.mpr (List.perm_append_singleton _ _).symm) rfl

section Alone

variable [DecidableEq α] (unique : (rows.map key).Nodup) (member : row ∈ rows)
  (alone : ∀ other ∈ rows, (record other).meets conditions = true ↔ other = row)
include unique member alone

theorem countP_tableOf_of_mem :
    (tableOf record rows).countP (fun values => values.meets conditions) = 1 := by
  rw [tableOf, Multiset.coe_countP, List.countP_map]
  refine countP_eq_one (List.Nodup.of_map key unique) member fun other inRows => ?_
  rw [Function.comp_apply, decide_eq_true_iff]
  exact alone other inRows

theorem effect_update_of_mem (sameKey : key updated = key row)
    (assigned : record updated = (record row).assign changes) :
    (update table changes conditions).effect (tableOf record rows) =
      (tableOf record (putRow key updated rows), 1) := by
  refine Prod.ext (congrArg Multiset.ofList ?_) (countP_tableOf_of_mem unique member alone)
  refine (map_putRow unique (sameKey ▸ List.mem_map_of_mem member) ?_ ?_).symm
  · intro other inRows same
    obtain rfl : other = row := eq_of_mem_of_key_eq unique inRows member (same.trans sameKey)
    rw [if_pos ((alone other inRows).mpr rfl), assigned]
  · intro other inRows different
    refine if_neg fun meets => different ?_
    rw [(alone other inRows).mp meets, sameKey]

theorem effect_delete_of_mem :
    (delete table conditions).effect (tableOf record rows) =
      (tableOf record (dropRow key (key row) rows), 1) := by
  refine Prod.ext ?_ (countP_tableOf_of_mem unique member alone)
  simp only [effect, tableOf, Multiset.filter_coe, List.filter_map]
  refine congrArg (fun kept => Multiset.ofList (List.map record kept)) ?_
  apply List.filter_congr
  intro other inRows
  have isOther : other = row ↔ key other = key row := by
    constructor
    · exact congrArg key
    · exact eq_of_mem_of_key_eq unique inRows member
  rw [Bool.eq_iff_iff, Function.comp_apply, decide_eq_true_iff, alone other inRows, isOther,
    bne_iff_ne]

end Alone

section Missed

variable (missed : ∀ other ∈ rows, (record other).meets conditions = false)
include missed

theorem countP_tableOf_of_forall :
    (tableOf record rows).countP (fun values => values.meets conditions) = 0 := by
  rw [tableOf, Multiset.coe_countP, List.countP_map, List.countP_eq_zero]
  intro other inRows
  simp [missed other inRows]

theorem effect_update_of_forall :
    (update table changes conditions).effect (tableOf record rows) =
      (tableOf record rows, 0) := by
  refine Prod.ext (congrArg Multiset.ofList ?_) (countP_tableOf_of_forall missed)
  rw [List.map_map]
  apply List.map_congr_left
  intro other inRows
  exact if_neg (Bool.eq_false_iff.mp (missed other inRows))

theorem effect_delete_of_forall :
    (delete table conditions).effect (tableOf record rows) = (tableOf record rows, 0) := by
  refine Prod.ext ?_ (countP_tableOf_of_forall missed)
  simp only [effect, tableOf, Multiset.filter_coe]
  refine congrArg Multiset.ofList (List.filter_eq_self.mpr ?_)
  simpa using missed

end Missed

end Filled

end Rows

theorem Process.meets_row {process : Process} {id : Uuid} {expected : Int} :
    process.row.meets [(.id, .id id), (.version, .integer expected)] = true ↔
      process.id = id ∧ process.version = expected := by
  simp [Row.meets, Process.row, Datum.equals]

theorem Step.meets_row {step : Step} {id : Uuid} :
    step.row.meets [(.id, .id id)] = true ↔ step.id = id := by
  simp [Row.meets, Step.row, Datum.equals]

/-- Assigning what an update writes is applying the update. -/
theorem ProcessUpdate.row_apply {update : ProcessUpdate} {process : Process} :
    (update.apply process).row = process.row.assign update.columns := by
  obtain ⟨version, lease⟩ := update
  funext column
  cases lease <;> cases column <;> rfl

theorem StepUpdate.row_apply {update : StepUpdate} {changed : Timestamp} {step : Step} :
    (update.apply changed step).row = step.row.assign (update.columns changed) := by
  obtain ⟨status, message⟩ := update
  funext column
  cases status <;> cases message <;> cases column <;> rfl

theorem Process.row_eq_assign {process : Process} :
    Table.process.blank.assign (processColumns.map fun column => (column, process.row column)) =
      process.row := by
  funext column
  cases column <;> rfl

theorem Step.row_eq_assign {step : Step} :
    Table.processStep.blank.assign (stepColumns.map fun column => (column, step.row column)) =
      step.row := by
  funext column
  cases column <;> rfl

/-! ### The tables that hold the rows of a store -/

namespace Database

variable {rows after : Rows} {change : Change} {id : Uuid}

/-- A statement changes its own table only. -/
theorem result_eq {database later : Database} {filled : Filled} {count : Nat}
    (others : ∀ table, table ≠ filled.table → later table = database table)
    (effect : filled.effect (database filled.table) = (later filled.table, count)) :
    filled.result database = (later, count) := by
  rw [Filled.result, effect]
  refine Prod.ext (funext fun table => ?_) rfl
  by_cases concerned : table = filled.table
  · subst concerned
    exact Function.update_self _ _ _
  · exact (Function.update_of_ne concerned _ _).trans (others table concerned).symm

theorem ofRows_apply_of_ne {table : Table} (applied : rows.apply change = .ok after)
    (other : table ≠ change.filled.table) : ofRows after table = ofRows rows table := by
  cases table with
  | process =>
      have spared : change.concernsProcess = false := by
        cases change <;> first | rfl | exact absurd rfl other
      exact congrArg (tableOf Process.row) (Rows.processes_apply spared applied)
  | processStep =>
      have concerned : change.concernsProcess := by
        cases change <;> first | rfl | exact absurd rfl other
      exact congrArg (tableOf Step.row) (Rows.steps_apply_of_concernsProcess concerned applied)

theorem map_tableOf {α : Type} {record : α → Row} {column : Column} {value : α → Uuid}
    (isId : ∀ item, record item column = .id (value item)) (items : List α) :
    (tableOf record items).map (fun row => row column) =
      ((items.map value).map Datum.id : List Datum) := by
  rw [tableOf, Multiset.map_coe, List.map_map, List.map_map]
  exact congrArg _ (List.map_congr_left fun item _ => isId item)

/-- The tables are consistent if the rows are found under their identifiers and every step has a
process. -/
theorem isConsistent_ofRows_iff :
    (ofRows rows).IsConsistent ↔
      rows.Keyed ∧ ∀ step ∈ rows.steps, (rows.process? step.process).isSome := by
  have injective : Function.Injective Datum.id := fun _ _ => Datum.id.inj
  have processIds : (ofRows rows).column .process .id =
      ((rows.processes.map Process.id).map Datum.id : List Datum) :=
    map_tableOf (fun _ => rfl) rows.processes
  have stepIds : (ofRows rows).column .processStep .id =
      ((rows.steps.map Step.id).map Datum.id : List Datum) :=
    map_tableOf (fun _ => rfl) rows.steps
  have owners : (ofRows rows).column .processStep .processId =
      ((rows.steps.map Step.process).map Datum.id : List Datum) :=
    map_tableOf (fun _ => rfl) rows.steps
  have refers : (∀ datum ∈ (ofRows rows).column .processStep .processId,
      datum ∈ (ofRows rows).column .process .id) ↔
      ∀ step ∈ rows.steps, (rows.process? step.process).isSome := by
    rw [owners, processIds]
    simp only [Multiset.mem_coe, List.forall_mem_map, List.mem_map_of_injective injective,
      Rows.process?, findRow?_isSome_iff]
  have unique {ids : List Uuid} : (ids.map Datum.id).Nodup ↔ ids.Nodup :=
    List.nodup_map_iff injective
  constructor
  · rintro ⟨processes, steps, refersTo⟩
    rw [processIds, Multiset.coe_nodup, unique] at processes
    rw [stepIds, Multiset.coe_nodup, unique] at steps
    exact ⟨⟨processes, steps⟩, refers.mp refersTo⟩
  · rintro ⟨⟨processes, steps⟩, refersTo⟩
    refine ⟨?_, ?_, refers.mpr refersTo⟩
    · rwa [processIds, Multiset.coe_nodup, unique]
    · rwa [stepIds, Multiset.coe_nodup, unique]

/-- A change that adds rows properly keeps identifiers unique and references in place. -/
theorem isConsistent_apply (consistent : (ofRows rows).IsConsistent) (adds : change.Adds rows)
    (applied : rows.apply change = .ok after) : (ofRows after).IsConsistent := by
  obtain ⟨keyed, refers⟩ := isConsistent_ofRows_iff.mp consistent
  refine isConsistent_ofRows_iff.mpr ⟨Rows.keyed_apply keyed applied, ?_⟩
  have stays {id : Uuid} (stored : (rows.process? id).isSome) : (after.process? id).isSome := by
    obtain ⟨process, found⟩ := Option.isSome_iff_exists.mp stored
    obtain ⟨final, _, finalFound⟩ := Rows.process?_apply applied found
    exact Option.isSome_iff_exists.mpr ⟨final, finalFound⟩
  intro step member
  apply stays
  cases change with
  | insertProcess _ | updateProcess _ _ _ =>
      rw [Rows.steps_apply_of_concernsProcess rfl applied] at member
      exact refers step member
  | insertStep inserted =>
      cases applied
      rcases mem_putRow member with rfl | before
      · exact adds.2
      · exact refers step before
  | updateStep id update changed =>
      obtain ⟨stored, found, rfl⟩ := Rows.apply_updateStep_eq_ok.mp applied
      rcases mem_putRow member with rfl | before
      · exact refers stored (findRow?_eq_some found).1
      · exact refers step before
  | deleteStep id =>
      obtain ⟨_, rfl⟩ := Rows.apply_deleteStep_eq_ok.mp applied
      exact refers step (List.mem_filter.mp member).1

/-! ### One change -/

theorem meets_iff {step other : Step} (keyed : rows.Keyed) (member : step ∈ rows.steps)
    (sameId : step.id = id) (inRows : other ∈ rows.steps) :
    other.row.meets [(.id, .id id)] = true ↔ other = step := by
  rw [Step.meets_row]
  constructor
  · exact fun same => keyed.eq_of_id_eq inRows member (same.trans sameId.symm)
  · rintro rfl
    exact sameId

/-- The statement of a change that takes place concerns one row and leads to the same rows. -/
theorem result_of_apply_eq_ok (keyed : rows.Keyed) (adds : change.Adds rows)
    (applied : rows.apply change = .ok after) :
    change.filled.result (ofRows rows) = (ofRows after, 1) := by
  refine result_eq (fun _ => ofRows_apply_of_ne applied) ?_
  cases change with
  | insertProcess process =>
      cases applied
      exact Filled.effect_insert (findRow?_eq_none_iff.mp adds) Process.row_eq_assign
  | insertStep step =>
      cases applied
      exact Filled.effect_insert (findRow?_eq_none_iff.mp adds.1) Step.row_eq_assign
  | updateProcess id expected update =>
      obtain ⟨process, found, expects, rfl⟩ := Rows.apply_updateProcess_eq_ok.mp applied
      obtain ⟨member, sameId⟩ := findRow?_eq_some found
      refine Filled.effect_update_of_mem keyed.processes member ?_ rfl ProcessUpdate.row_apply
      intro other inRows
      rw [Process.meets_row]
      constructor
      · intro meets
        exact eq_of_mem_of_key_eq keyed.processes inRows member (meets.1.trans sameId.symm)
      · rintro rfl
        exact ⟨sameId, expects⟩
  | updateStep id update changed =>
      obtain ⟨step, found, rfl⟩ := Rows.apply_updateStep_eq_ok.mp applied
      obtain ⟨member, sameId⟩ := findRow?_eq_some found
      exact Filled.effect_update_of_mem keyed.steps member
        (fun _ => meets_iff keyed member sameId) rfl StepUpdate.row_apply
  | deleteStep id =>
      obtain ⟨stored, rfl⟩ := Rows.apply_deleteStep_eq_ok.mp applied
      obtain ⟨step, found⟩ := Option.isSome_iff_exists.mp stored
      obtain ⟨member, rfl⟩ := findRow?_eq_some found
      exact Filled.effect_delete_of_mem keyed.steps member fun _ => meets_iff keyed member rfl

/-- The statement of a change that is refused concerns no row. -/
theorem result_of_apply_eq_error {failure : Failure} (keyed : rows.Keyed)
    (refused : rows.apply change = .error failure) :
    change.filled.result (ofRows rows) = (ofRows rows, 0) := by
  refine result_eq (fun _ _ => rfl) ?_
  cases change with
  | insertProcess _ | insertStep _ => cases refused
  | updateProcess id expected update =>
      apply Filled.effect_update_of_forall
      intro process inRows
      refine Bool.eq_false_iff.mpr fun meets => ?_
      obtain ⟨sameId, expects⟩ := Process.meets_row.mp meets
      have found := (findRow?_eq_some_iff keyed.processes).mpr ⟨inRows, sameId⟩
      cases refused.symm.trans (Rows.apply_updateProcess_eq_ok.mpr ⟨process, found, expects, rfl⟩)
  | updateStep id update changed =>
      apply Filled.effect_update_of_forall
      intro step inRows
      refine Bool.eq_false_iff.mpr fun meets => ?_
      have found := (findRow?_eq_some_iff keyed.steps).mpr ⟨inRows, Step.meets_row.mp meets⟩
      cases refused.symm.trans (Rows.apply_updateStep_eq_ok.mpr ⟨step, found, rfl⟩)
  | deleteStep id =>
      apply Filled.effect_delete_of_forall
      intro step inRows
      refine Bool.eq_false_iff.mpr fun meets => ?_
      have found := (findRow?_eq_some_iff keyed.steps).mpr ⟨inRows, Step.meets_row.mp meets⟩
      have stored := Option.isSome_iff_exists.mpr ⟨step, found⟩
      cases refused.symm.trans (Rows.apply_deleteStep_eq_ok.mpr ⟨stored, rfl⟩)

/-- The statement of a change names columns of its table and writes none of them twice. -/
theorem isValid_filled {accepts : Column → Datum → Bool}
    (accepted : ∀ cell ∈ change.filled.cells, accepts cell.1 cell.2) :
    change.filled.IsValid accepts := by
  have names : change.filled.named ⊆ change.filled.table.columns ∧
      change.filled.written.Nodup := by
    -- Which columns are named does not depend on any value.
    cases change with
    | insertProcess _ | insertStep _ | deleteStep _ => exact of_decide_eq_true rfl
    | updateProcess id expected update =>
        obtain ⟨version, lease⟩ := update
        cases lease <;> exact of_decide_eq_true rfl
    | updateStep id update changed =>
        obtain ⟨status, message⟩ := update
        cases status <;> cases message <;> exact of_decide_eq_true rfl
  exact ⟨names.1, names.2, accepted⟩

section Run

variable {accepts : Column → Datum → Bool} {failure : Failure}
  (consistent : (ofRows rows).IsConsistent)
  (accepted : ∀ cell ∈ change.filled.cells, accepts cell.1 cell.2)
include consistent accepted

theorem run?_of_apply_eq_ok (adds : change.Adds rows) (applied : rows.apply change = .ok after) :
    change.filled.run? accepts (ofRows rows) = some (ofRows after, 1) := by
  have keyed := (isConsistent_ofRows_iff.mp consistent).1
  have result := result_of_apply_eq_ok keyed adds applied
  have remains := isConsistent_apply consistent adds applied
  rw [Filled.run?, result]
  exact if_pos ⟨isValid_filled accepted, remains⟩

theorem run?_of_apply_eq_error (refused : rows.apply change = .error failure) :
    change.filled.run? accepts (ofRows rows) = some (ofRows rows, 0) := by
  have keyed := (isConsistent_ofRows_iff.mp consistent).1
  have result := result_of_apply_eq_error keyed refused
  rw [Filled.run?, result]
  exact if_pos ⟨isValid_filled accepted, consistent⟩

end Run

end Database

end Workflow
