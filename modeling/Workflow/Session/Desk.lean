import Workflow.Session.Work
import Workflow.Storage

/-!
# The command line in a session

An operator's command works on the store of the session, or on a storage of its own that
the settings choose.  Executors are loaded from the one module there is: under its name
each of them, under a longer name a factory of it, and a factory that makes none.
-/

namespace Workflow.Session

def executorModule : String := "flows"

def missingModule (source : String) : Failure :=
  match CommandLine.splitAt? '.' source with
  | none => .missingModule source
  | some (first, _) =>
    if first == executorModule then
      .reported .missingModule
        (s!"No module named '{source}'; '{executorModule}' is not a package")
    else .missingModule first

/-- Loads what a module holds under a name. -/
def loadExecutor (source member : String) : Act (Except Failure (Option Script)) := do
  if source != executorModule then return .error (missingModule source)
  else
    let scripts := (← get).scripts
    let found := scripts.find? fun script =>
      script.name == member || "make_" ++ script.name == member
    match found with
    | some script => return .ok (some script)
    | none =>
      if member == "broken" then return .ok none
      else return .error (.missingAttribute source member)

/-- The directory that holds only the settings file, if there is one. -/
def settingsFiles (document : Option String) : Files where
  current := []
  directories := [[]]
  contents :=
    match document with
    | some text => [(["config.yaml"], text)]
    | none => []

/-- Opens the storage that the settings choose; it is empty. -/
def openFresh (files : Files) : Except Failure Store := do
  let opened ← OpenedStorage.choose none files [] ⟨none, none⟩
  match opened.storage.kind with
  | .memory => return .rows Rows.empty
  | .tables _ => return .tables Tables.empty
  | .server url => return .server ⟨url, false, 0, [], [], []⟩

/-- Makes sure that the storage is open; only a fresh one can fail to open. -/
def opened {α : Type} (files : Files) (fresh : Bool) (act : Act (Except Failure α)) :
    Act (Except Failure α) :=
  if fresh then
    match openFresh files with
    | .error failure => return .error failure
    | .ok _ => act
  else act

def desk (doer : Doer) (participant : String) (files : Files) (fresh : Bool) :
    CommandLine.Desk Act Script where
  details := opened files fresh (Act.access Store.details)
  detail? := fun id => opened files fresh (Act.access (Store.detail? id))
  dispatch := fun type steps =>
    opened files fresh (dispatch participant type steps)
  settings :=
    match Settings.load files [] none with
    | .error failure => return .error failure
    | .ok settings => opened files fresh (return .ok settings.worker)
  executor? := loadExecutor
  registration := Script.registration
  cycle := fun settings scripts =>
    match Staffing.ofScripts scripts settings with
    | .error failure => return .error failure
    | .ok staffing => staffing.cycle doer participant false
  work := fun settings scripts lifespan =>
    match Staffing.ofScripts scripts settings with
    | .error failure => return .error failure
    | .ok staffing => staffing.work doer participant false lifespan

def commandLine (doer : Doer) (participant : String) (arguments : List String)
    (fresh : Bool) (document : Option String) : Act CommandLine.Ending := do
  let files := settingsFiles document
  if !fresh then CommandLine.run (desk doer participant files false) arguments
  else
    let before ← get
    let own ← Act.participant participant
    Act.setParticipant { own with staged := [], faults := [] }
    modify fun world =>
      { world with store := (openFresh files).toOption.getD (.rows Rows.empty) }
    let ending ← CommandLine.run (desk doer participant files true) arguments
    modify fun world => { world with store := before.store }
    Act.setParticipant own
    return ending

end Workflow.Session
