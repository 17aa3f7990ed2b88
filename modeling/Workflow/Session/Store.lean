import Workflow.Connection
import Workflow.Rows
import Workflow.Tables

/-!
# A store of any kind

The store that the participants of a session share: rows in memory, two tables, or the
scripted server behind a connection.
-/

namespace Workflow.Session

/-- A store of any kind. -/
inductive Store where
  | rows (rows : Rows)
  | tables (tables : Tables)
  | server (connection : Connection)
deriving DecidableEq, Repr

namespace Store

/-- A question to, or a change of, a store. -/
abbrev Access := ExceptT Failure (StateM Store)

/-- Leaves a store as it was if a change of it fails. -/
def replaceBy {σ : Type} (wrap : σ → Store) (outcome : Except Failure σ) : Access Unit :=
  match outcome with
  | .ok changed => set (wrap changed)
  | .error failure => throw failure

/-- Lets a client talk to the server. -/
def viaClient {α : Type} (connection : Connection) (client : Connection.Client α) :
    Access α := do
  let (outcome, connection) := client.run.run connection
  set (Store.server connection)
  ExceptT.mk (pure outcome)

def ofExcept {α : Type} (outcome : Except Failure α) : Access α :=
  ExceptT.mk (pure outcome)

/-- Commits a batch, all of it or nothing. -/
def commit (batch : Batch) : Access Unit := do
  match ← get with
  | .rows stored => replaceBy Store.rows (stored.commit batch)
  | .tables stored => replaceBy Store.tables (stored.commit batch)
  | .server connection => viaClient connection (Connection.commit batch)

def detail? (id : Uuid) : Access (Option ProcessDetail) := do
  match ← get with
  | .rows stored => return stored.detail? id
  | .tables stored => ofExcept (stored.detail? id)
  | .server connection => viaClient connection (Connection.detail? id)

def details : Access (List ProcessDetail) := do
  match ← get with
  | .rows stored => return stored.details
  | .tables stored => ofExcept stored.details
  | .server connection => viaClient connection Connection.details

def pendingSteps (process : Uuid) : Access (List PendingStep) := do
  match ← get with
  | .rows stored => return stored.pendingSteps process
  | .tables stored => return stored.pendingSteps process
  | .server connection => viaClient connection (Connection.pendingSteps process)

def stepTypes (process : Uuid) : Access (List StepType) := do
  match ← get with
  | .rows stored => return stored.stepTypes process
  | .tables stored => return stored.stepTypes process
  | .server connection => viaClient connection (Connection.stepTypes process)

def load? (id : Uuid) (filter : Option (List StepType)) : Access (Option Loaded) := do
  match ← get with
  | .rows stored => return stored.load? id filter
  | .tables stored => ofExcept (stored.load? id filter)
  | .server connection => viaClient connection (Connection.load? id filter)

def eligiblePage (query : Eligible) (after : Option Uuid) (limit : Nat) :
    Access (List Process) := do
  match ← get with
  | .rows stored => return stored.eligiblePage query after limit
  | .tables stored => ofExcept (stored.eligiblePage query after limit)
  | .server connection => viaClient connection (Connection.eligiblePage query after limit)

/-- What was sent to the server, in order. -/
def calls : Store → List Call
  | .server connection => connection.sent.reverse
  | _ => []

end Store

end Workflow.Session
