import Workflow.Failure
import Workflow.Settings.Coercion

/-!
# Settings

The settings of a worker and the address of the storage.  Every setting has a default.
Settings are read from a document; all that is wrong with them is reported together, in
the order in which the settings are declared here.
-/

namespace Workflow

structure WorkerSettings where
  /-- How long a lease lasts, in seconds. -/
  leaseSeconds : Float
  /-- The pause between two cycles, in seconds. -/
  pollSeconds : Float
  /-- How many processes are looked up at once. -/
  pageSize : Int
  /-- From this many failures in a row on, pauses grow no further. -/
  maxAttempts : Int

structure Settings where
  storageUrl : Option String
  worker : WorkerSettings

def WorkerSettings.default : WorkerSettings where
  leaseSeconds := 300
  pollSeconds := 10
  pageSize := 100
  maxAttempts := 6

def Settings.default : Settings where
  storageUrl := none
  worker := .default

namespace Settings

/-- A setting that is wrong and the reason. -/
abbrev Fault := String × String

/-- A value, or all that is wrong with it. -/
abbrev Checked (α : Type) := Except (List Fault) α

/-- Puts two values together, or all that is wrong with either. -/
def Checked.both {α β : Type} (first : Checked α) (second : Checked β) : Checked (α × β) :=
  match first, second with
  | .ok first, .ok second => .ok (first, second)
  | .error faults, .ok _ => .error faults
  | .ok _, .error faults => .error faults
  | .error faults, .error others => .error (faults ++ others)

def setting {α : Type} (scope name : String) (usual : α) (coerce : Document → Coerced α)
    (entries : List (Document × Document)) : Checked α :=
  match Document.get? entries name with
  | none => .ok usual
  | some value =>
    match coerce value with
    | .ok value => .ok value
    | .error reason => .error [(scope ++ name, reason)]

/-- A number that must be positive. -/
def positive (value : Document) : Coerced Float := do
  let value ← number value
  if value ≤ 0 then throw "greater_than" else return value

/-- A number that must not be negative. -/
def notNegative (value : Document) : Coerced Float := do
  let value ← number value
  if value < 0 then throw "greater_than_equal" else return value

/-- An integer that must not be smaller than another. -/
def atLeast (least : Int) (value : Document) : Coerced Int := do
  let value ← integer value
  if value < least then throw "greater_than_equal" else return value

/-- Reads the settings of a worker, which stand in some scope. -/
def checkWorker (scope : String) (entries : List (Document × Document)) :
    Checked WorkerSettings :=
  let usual := WorkerSettings.default
  let lease := setting scope "lock_expiry_seconds" usual.leaseSeconds positive entries
  let poll := setting scope "poll_interval_seconds" usual.pollSeconds notNegative entries
  let page := setting scope "page_size" usual.pageSize (atLeast 1) entries
  let attempts := setting scope "max_backoff_attempts" usual.maxAttempts (atLeast 0) entries
  (lease.both (poll.both (page.both attempts))).map
    fun (leaseSeconds, pollSeconds, pageSize, maxAttempts) =>
      { leaseSeconds, pollSeconds, pageSize, maxAttempts }

def checkSection (entries : List (Document × Document)) : Checked WorkerSettings :=
  match Document.get? entries "worker" with
  | none => .ok .default
  | some (.mapping entries) => checkWorker "worker." entries
  | some _ => .error [("worker", "model_type")]

def check (entries : List (Document × Document)) : Checked Settings :=
  let url := setting "" "database_url" none text? entries
  (url.both (checkSection entries)).map fun (storageUrl, worker) => { storageUrl, worker }

def Checked.toExcept {α : Type} (checked : Checked α) : Except Failure α :=
  checked.mapError .invalidSettings

end Settings

/-- What a document other than a mapping is called in messages. -/
def Document.title : Document → String
  | null => "NoneType"
  | boolean _ => "bool"
  | integer _ => "int"
  | number _ => "float"
  | text _ => "str"
  | moment _ => "datetime.date"
  | list _ => "list"
  | mapping _ => "dict"

/-- The settings of a document.  A document that stands for nothing leaves all settings
at their defaults. -/
def Settings.ofDocument (document : Document) : Except Failure Settings :=
  if document.isVoid then .ok .default
  else
    match document with
    | .mapping entries =>
      if (Document.textEntries? entries).isNone then .error .nonTextKeys
      else (check entries).toExcept
    | other => .error (.notAMapping other.title)

def WorkerSettings.ofEntries (entries : List (Document × Document)) :
    Except Failure WorkerSettings :=
  (Settings.checkWorker "" entries).toExcept

end Workflow
