import Std.Time.DateTime.Timestamp
import Workflow.CommandLine
import Workflow.Dispatch
import Workflow.Rows
import Workflow.Storage

/-!
# The program

Reads the arguments, the environment and the settings file, carries out one command on
rows in memory, and prints the outcome.  No executors are built in.
-/

namespace Workflow.Main

/-- What the program keeps while it runs. -/
abbrev Session := StateT Rows IO

/-- The time on the clock of universal time. -/
def currentTime : IO Timestamp := do
  let elapsed := (← Std.Time.Timestamp.now).toNanosecondsSinceUnixEpoch.val / 1000
  let epoch : Calendar.Date := ⟨1970, 1, 1⟩
  return ⟨(Calendar.dayOfDate epoch * Timestamp.microsPerDay : Nat) + elapsed, 0⟩

/-- A random identifier, marked as such in its version and variant. -/
def randomId : IO Uuid := do
  let bytes ← IO.getRandomBytes 16
  let number := Text.numberOfDigits 256 (bytes.toList.map UInt8.toNat)
  let unmarked := number &&& 0xffffffffffff0fff3fffffffffffffff
  return Uuid.ofNat (unmarked ||| 0x40008000000000000000)

/-- The variables that the program looks at. -/
def readEnvironment : IO Environment := do
  let names := ["STEPENGINE_CONFIG", "STEPENGINE_DATABASE_URL", "DATABASE_URL"]
  names.filterMapM fun name => do
    return (← IO.getEnv name).map fun value => (name, value)

def readFiles (environment : Environment) : IO Files := do
  let path := Settings.place environment none
  let empty : Files := ⟨[], [], []⟩
  match ← (IO.FS.readFile path).toBaseIO with
  | .ok text => return { empty with contents := [(empty.resolve path, text)] }
  | .error (.noFileOrDirectory ..) => return empty
  | .error _ => return { empty with directories := [empty.resolve path] }

/-- Opens the storage that the settings choose; only memory is built in. -/
def openStorage (files : Files) (environment : Environment) : Except Failure Unit := do
  let opened ← OpenedStorage.choose none files environment ⟨none, none⟩
  match opened.storage.kind with
  | .memory => return ()
  | .tables _ => throw .unopenableStorage
  | .server _ => throw .connectionRefused

/-- Runs an action on the rows once the storage is open. -/
def opened {α : Type} (files : Files) (environment : Environment)
    (action : Session (Except Failure α)) : Session (Except Failure α) :=
  match openStorage files environment with
  | .error failure => return .error failure
  | .ok _ => action

def dispatch (type : ProcessType) (steps : List StepType) :
    Session (Except Failure ProcessDetail) := do
  match Dispatch.initialTypes steps with
  | .error failure => return .error failure
  | .ok steps =>
    let ids ← steps.mapM fun _ => randomId
    let shown ← steps.mapM fun _ => currentTime
    let clock := Readings.ofList shown (← currentTime)
    let process := Dispatch.newProcess type steps (← randomId) ids clock
    match (← get).commit (Dispatch.changes process) with
    | .error failure => return .error failure
    | .ok rows =>
      set rows
      return .ok process

def desk (files : Files) (environment : Environment) : CommandLine.Desk Session Empty where
  details := opened files environment do return .ok (← get).details
  detail? := fun id => opened files environment do return .ok ((← get).detail? id)
  dispatch := fun type steps => opened files environment (dispatch type steps)
  settings :=
    match Settings.load files environment none with
    | .error failure => return .error failure
    | .ok settings => opened files environment (return .ok settings.worker)
  executor? := fun source _ => return .error (.missingModule source)
  registration := Empty.elim
  cycle := fun _ _ => return .ok 0
  work := fun _ _ _ => return .ok ()

def run (arguments : List String) : IO UInt32 := do
  let environment ← readEnvironment
  let files ← readFiles environment
  let (ending, _) ← (CommandLine.run (desk files environment) arguments).run Rows.empty
  ending.lines.forM fun line => IO.println line
  match ending.failure with
  | some failure => IO.eprintln failure.message
  | none => pure ()
  return UInt32.ofNat ending.exitCode

end Workflow.Main

def main (arguments : List String) : IO UInt32 :=
  Workflow.Main.run arguments
