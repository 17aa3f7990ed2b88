import Workflow.Catalogue.Reading
import Workflow.Query
import Workflow.Statement

/-!
# A store behind a connection

The store as a client of a database server.  Every operation opens a connection of
its own and closes it again; the first successful one creates the tables.  The
server is scripted: it refuses a number of connections and then answers statements
from prepared lists, while everything sent to it is recorded.
-/

namespace Workflow

/-- Something sent to the server. -/
inductive Call where
  | connect (address : String)
  | execute (text : String) (arguments : List Datum)
  | fetch (text : String) (arguments : List Datum)
  | fetchRow (text : String) (arguments : List Datum)
  | begin
  | commit
  | rollback
  | close
deriving DecidableEq, Repr

/-- A row received from the server. -/
abbrev Record := List (Column × Datum)

/-- A scripted server and the client's knowledge of it. -/
structure Connection where
  address : String
  prepared : Bool
  /-- How many further connections are refused. -/
  refusals : Nat
  /-- The answers to updates and deletions, in order. -/
  tags : List String
  /-- The answers to queries, in order. -/
  replies : List (List Record)
  /-- What was sent, latest first. -/
  sent : List Call
deriving DecidableEq, Repr

namespace Record

def get (record : Record) (column : Column) : Datum :=
  (record.lookup column).getD .null

def id (record : Record) (column : Column) : Except Failure Uuid :=
  match record.get column with
  | .id value => .ok value
  | _ => .error (.malformedRecord column.name)

def integer (record : Record) (column : Column) : Except Failure Int :=
  match record.get column with
  | .integer value => .ok value
  | _ => .error (.malformedRecord column.name)

def time? (record : Record) (column : Column) : Except Failure (Option Timestamp) :=
  match record.get column with
  | .time value => .ok (some value)
  | .null => .ok none
  | _ => .error (.malformedRecord column.name)

def time (record : Record) (column : Column) : Except Failure Timestamp :=
  match record.get column with
  | .time value => .ok value
  | _ => .error (.malformedRecord column.name)

def text? (record : Record) (column : Column) : Except Failure (Option String) :=
  match record.get column with
  | .text value => .ok (some value)
  | .null => .ok none
  | _ => .error (.malformedRecord column.name)

/-- A column that holds the number of a member of a catalogue. -/
def member {α : Type} [Catalogue α] (record : Record) (column : Column) :
    Except Failure α := do
  Catalogue.member (← record.integer column)

def process (record : Record) : Except Failure Process := do
  let type : ProcessType ← record.member .processTypeId
  return {
    id := ← record.id .id
    type
    version := ← record.integer .version
    lease := ← record.time? .lockExpiry }

def step (record : Record) : Except Failure Step := do
  let type : StepType ← record.member .processStepTypeId
  let status : StepStatus ← record.member .processStepStatusId
  return {
    id := ← record.id .id
    type
    status := some status
    process := ← record.id .processId
    created := ← record.time .dateCreated
    changed := ← record.time? .dateLastChanged
    message := ← record.text? .message }

/-- Identifier and type of a pending step from its row. -/
def pendingStep (record : Record) : Except Failure PendingStep := do
  return {
    id := ← record.id .id
    type := ← record.member .processStepTypeId }

end Record

namespace Connection

/-- A client of a scripted server. -/
abbrev Client := ExceptT Failure (StateM Connection)

def send (call : Call) : Client Unit :=
  modify fun connection => { connection with sent := call :: connection.sent }

/-- The statements that create the tables. -/
def schema : List String :=
  ["CREATE TABLE IF NOT EXISTS process ( id UUID PRIMARY KEY, "
      ++ "process_type_id INTEGER NOT NULL, version INTEGER NOT NULL DEFAULT 0, "
      ++ "lock_expiry TIMESTAMPTZ )",
    "CREATE TABLE IF NOT EXISTS process_step ( id UUID PRIMARY KEY, "
      ++ "process_step_type_id INTEGER NOT NULL, process_step_status_id INTEGER NOT NULL, "
      ++ "process_id UUID NOT NULL REFERENCES process (id), "
      ++ "date_created TIMESTAMPTZ NOT NULL, date_last_changed TIMESTAMPTZ, message TEXT )",
    "CREATE INDEX IF NOT EXISTS ix_process_step_process_status ON process_step "
      ++ "(process_id, process_step_status_id)"]

def connect : Client Unit := do
  let connection ← get
  send (.connect connection.address)
  if connection.refusals ≠ 0 then
    modify fun connection => { connection with refusals := connection.refusals - 1 }
    throw .connectionRefused
  else if !connection.prepared then
    schema.forM fun text => send (.execute text [])
    modify fun connection => { connection with prepared := true }

/-- Runs an action on an open connection and closes it afterwards. -/
def withConnection {α : Type} (action : Client α) : Client α := do
  connect
  let outcome ← observing action
  send .close
  ofExcept outcome
where
  /-- The outcome of an action as a value. -/
  observing {β : Type} (action : Client β) : Client (Except Failure β) :=
    ExceptT.lift action.run
  /-- A value as an outcome. -/
  ofExcept {β : Type} (outcome : Except Failure β) : Client β :=
    ExceptT.mk (pure outcome)

/-- The answer to an update or deletion: the next prepared one, or `usual`. -/
def nextTag (usual : String) : Client String := do
  match (← get).tags with
  | [] => return usual
  | tag :: tags =>
    modify fun connection => { connection with tags }
    return tag

/-- The answer to a query: the next prepared one, or no rows. -/
def nextReply : Client (List Record) := do
  match (← get).replies with
  | [] => return []
  | reply :: replies =>
    modify fun connection => { connection with replies }
    return reply

/-- Sends the statement for a change and checks the answer. -/
def execute (change : Change) : Client Unit := do
  let command := Command.ofChange change
  send (.execute command.statement.text command.arguments)
  match change.requirement with
  | none => return ()
  | some (required, failure) =>
    if (← nextTag required) ≠ required then throw failure

def commit (batch : Batch) : Client Unit :=
  withConnection do
    send .begin
    match ← withConnection.observing (batch.forM execute) with
    | .ok _ => send .commit
    | .error failure =>
      send .rollback
      throw failure

def fetch (text : String) (arguments : List Datum) : Client (List Record) := do
  send (.fetch text arguments)
  nextReply

/-- Runs a query for at most one row. -/
def fetchRow (text : String) (arguments : List Datum) : Client (Option Record) := do
  send (.fetchRow text arguments)
  return (← nextReply).head?

/-- Column names with commas between them. -/
def columnList (columns : List Column) : String :=
  ", ".intercalate (columns.map Column.name)

def processQuery : String :=
  "SELECT " ++ columnList processColumns ++ " FROM process WHERE id = $1"

def stepsQuery : String :=
  "SELECT " ++ columnList stepColumns
    ++ " FROM process_step WHERE process_id = $1 ORDER BY date_created, id"

def processesQuery : String :=
  "SELECT " ++ columnList processColumns ++ " FROM process ORDER BY id"

def allStepsQuery : String :=
  "SELECT " ++ columnList stepColumns ++ " FROM process_step ORDER BY date_created, id"

def pendingQuery : String :=
  "SELECT id, process_step_type_id FROM process_step WHERE process_id = $1 AND "
    ++ "process_step_status_id = $2 ORDER BY process_step_type_id, date_created, id"

def typesQuery : String :=
  "SELECT DISTINCT process_step_type_id FROM process_step WHERE process_id = $1"

def eligibleQuery : String :=
  "SELECT " ++ columnList processColumns ++ " FROM process p "
    ++ "WHERE p.process_type_id = ANY($1::int[]) "
    ++ "AND (p.lock_expiry IS NULL OR p.lock_expiry < $2) "
    ++ "AND EXISTS ( SELECT 1 FROM process_step s WHERE s.process_id = p.id "
    ++ "AND s.process_step_status_id = $3 "
    ++ "AND s.process_step_type_id = ANY($4::int[]) ) "
    ++ "AND ($5::uuid IS NULL OR p.id > $5::uuid) ORDER BY p.id LIMIT $6"

def detail? (id : Uuid) : Client (Option ProcessDetail) := do
  let found ← withConnection do
    match ← fetchRow processQuery [.id id] with
    | none => return none
    | some row =>
      let rows ← fetch stepsQuery [.id id]
      let steps ← withConnection.ofExcept (rows.mapM Record.step)
      return some (row, steps)
  match found with
  | none => return none
  | some (row, steps) =>
    let process ← withConnection.ofExcept (Record.process row)
    return some (process.withSteps steps)

/-- All processes with their steps. -/
def details : Client (List ProcessDetail) := do
  let (rows, stepRows) ← withConnection do
    let rows ← fetch processesQuery []
    let stepRows ← fetch allStepsQuery []
    return (rows, stepRows)
  let steps ← withConnection.ofExcept (stepRows.mapM Record.step)
  let processes ← withConnection.ofExcept (rows.mapM Record.process)
  return processes.map fun process =>
    process.withSteps (steps.filter fun step => step.process == process.id)

def pendingSteps (process : Uuid) : Client (List PendingStep) := do
  let rows ← withConnection (fetch pendingQuery
    [.id process, .integer StepStatus.todo.code])
  withConnection.ofExcept (rows.mapM Record.pendingStep)

def stepTypes (process : Uuid) : Client (List StepType) := do
  let rows ← withConnection (fetch typesQuery [.id process])
  let types ← withConnection.ofExcept
    (rows.mapM fun row => (row.member .processStepTypeId : Except Failure StepType))
  return typesOf types

/-- A process and its pending steps that a filter allows. -/
def load? (id : Uuid) (filter : Option (List StepType)) : Client (Option Loaded) := do
  return (← detail? id).map fun process => .ofDetail process filter

def eligiblePage (query : Eligible) (after : Option Uuid) (limit : Nat) :
    Client (List Process) := do
  if query.types.isEmpty || query.steps.isEmpty then return []
  let rows ← withConnection (fetch eligibleQuery
    [.integers (query.types.map fun type => type.code), .time query.date,
      .integer StepStatus.todo.code, .integers (query.steps.map fun type => type.code),
      (match after with
        | some id => .id id
        | none => .null),
      .integer limit])
  withConnection.ofExcept (rows.mapM Record.process)

end Connection

end Workflow
