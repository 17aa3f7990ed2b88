import Workflow.Change

/-!
# Statements with numbered placeholders

Changes as the statements that a database server understands.  The arguments of a
statement are numbered from one; first come the values written, then the values
compared with.  The server answers an update or a deletion with the number of rows
it touched, and exactly one row must be touched.
-/

namespace Workflow

inductive Table where
  | process
  | processStep
deriving DecidableEq, Repr

/-- The columns of both tables. -/
inductive Column where
  | id
  | processTypeId
  | version
  | lockExpiry
  | processStepTypeId
  | processStepStatusId
  | processId
  | dateCreated
  | dateLastChanged
  | message
deriving DecidableEq, Repr

/-- A value sent to or received from the server. -/
inductive Datum where
  | null
  | id (value : Uuid)
  | integer (value : Int)
  | time (value : Timestamp)
  | text (value : String)
  | integers (values : List Int)
deriving DecidableEq, Repr

def Table.name : Table → String
  | process => "process"
  | processStep => "process_step"

def Column.name : Column → String
  | id => "id"
  | processTypeId => "process_type_id"
  | version => "version"
  | lockExpiry => "lock_expiry"
  | processStepTypeId => "process_step_type_id"
  | processStepStatusId => "process_step_status_id"
  | processId => "process_id"
  | dateCreated => "date_created"
  | dateLastChanged => "date_last_changed"
  | message => "message"

/-- A column together with the number of the argument that belongs to it. -/
structure Slot where
  column : Column
  number : Nat
deriving DecidableEq, Repr

inductive Statement where
  | insert (table : Table) (values : List Slot)
  | update (table : Table) (assignments conditions : List Slot)
  | delete (table : Table) (conditions : List Slot)
deriving DecidableEq, Repr

structure Command where
  statement : Statement
  arguments : List Datum
deriving DecidableEq, Repr

namespace Slot

/-- Numbers columns from the given number on. -/
def ofColumns (first : Nat) (columns : List Column) : List Slot :=
  (columns.zipIdx first).map fun (column, number) => ⟨column, number⟩

def placeholder (slot : Slot) : String :=
  "$" ++ toString slot.number

/-- A column set to, or compared with, its argument. -/
def equation (slot : Slot) : String :=
  slot.column.name ++ " = " ++ slot.placeholder

end Slot

def Statement.text : Statement → String
  | insert table values =>
    "INSERT INTO " ++ table.name ++ " ("
      ++ ", ".intercalate (values.map fun slot => slot.column.name) ++ ") VALUES ("
      ++ ", ".intercalate (values.map Slot.placeholder) ++ ")"
  | update table assignments conditions =>
    "UPDATE " ++ table.name ++ " SET "
      ++ ", ".intercalate (assignments.map Slot.equation) ++ " WHERE "
      ++ " AND ".intercalate (conditions.map Slot.equation)
  | delete table conditions =>
    "DELETE FROM " ++ table.name ++ " WHERE "
      ++ " AND ".intercalate (conditions.map Slot.equation)

namespace Datum

def ofTime? : Option Timestamp → Datum
  | some stamp => .time stamp
  | none => .null

def ofText? : Option String → Datum
  | some written => .text written
  | none => .null

/-- An optional status as its number. -/
def ofStatus? : Option StepStatus → Datum
  | some status => .integer status.code
  | none => .null

theorem ofTime?_injective : Function.Injective ofTime? := by
  rintro (_ | left) (_ | right) same <;> cases same <;> rfl

theorem ofText?_injective : Function.Injective ofText? := by
  rintro (_ | left) (_ | right) same <;> cases same <;> rfl

theorem ofStatus?_injective : Function.Injective ofStatus? := by
  rintro (_ | left) (_ | right) same
  · rfl
  · cases same
  · cases same
  · exact congrArg some (StepStatus.code_injective (Int.ofNat.inj (Datum.integer.inj same)))

end Datum

def processColumns : List Column :=
  [.id, .processTypeId, .version, .lockExpiry]

def stepColumns : List Column :=
  [.id, .processStepTypeId, .processStepStatusId, .processId, .dateCreated,
    .dateLastChanged, .message]

/-- A written column as a value, or nothing for a column that is kept. -/
def writtenColumn {α : Type} (column : Column) (datum : α → Datum) :
    Field α → List (Column × Datum)
  | .keep => []
  | .write value => [(column, datum value)]

def ProcessUpdate.columns (update : ProcessUpdate) : List (Column × Datum) :=
  (.version, .integer update.version)
    :: writtenColumn .lockExpiry Datum.ofTime? update.lease

def StepUpdate.columns (update : StepUpdate) (changed : Timestamp) :
    List (Column × Datum) :=
  writtenColumn .processStepStatusId Datum.ofStatus? update.status
    ++ writtenColumn .message Datum.ofText? update.message
    ++ [(.dateLastChanged, .time changed)]

namespace Command

def insert (table : Table) (values : List (Column × Datum)) : Command where
  statement := .insert table (Slot.ofColumns 1 (values.map Prod.fst))
  arguments := values.map Prod.snd

/-- Writes columns of the rows in which other columns have given values. -/
def update (table : Table) (changes conditions : List (Column × Datum)) : Command where
  statement :=
    .update table (Slot.ofColumns 1 (changes.map Prod.fst))
      (Slot.ofColumns (changes.length + 1) (conditions.map Prod.fst))
  arguments := changes.map Prod.snd ++ conditions.map Prod.snd

/-- Deletes the rows in which columns have given values. -/
def delete (table : Table) (conditions : List (Column × Datum)) : Command where
  statement := .delete table (Slot.ofColumns 1 (conditions.map Prod.fst))
  arguments := conditions.map Prod.snd

def ofChange : Change → Command
  | .insertProcess process =>
    insert .process (processColumns.zip
      [.id process.id, .integer process.type.code, .integer process.version,
        .ofTime? process.lease])
  | .insertStep step =>
    insert .processStep (stepColumns.zip
      [.id step.id, .integer step.type.code, .ofStatus? step.status, .id step.process,
        .time step.created, .ofTime? step.changed, .ofText? step.message])
  | .updateProcess id expected changes =>
    update .process changes.columns [(.id, .id id), (.version, .integer expected)]
  | .updateStep id changes changed =>
    update .processStep (changes.columns changed) [(.id, .id id)]
  | .deleteStep id => delete .processStep [(.id, .id id)]

end Command

/-- What the server must answer to a change, and the failure if it does not. -/
def Change.requirement : Change → Option (String × Failure)
  | .insertProcess _ => none
  | .insertStep _ => none
  | .updateProcess id expected _ => some ("UPDATE 1", .staleProcess id expected)
  | .updateStep id _ _ => some ("UPDATE 1", .missingStep id)
  | .deleteStep id => some ("DELETE 1", .missingStep id)

end Workflow
