import Workflow.Catalogue.Reading
import Workflow.Drain
import Workflow.Settings.Basic

/-!
# The command line

Operators list and show processes, create new ones and run workers.  A command that is
not understood ends with the exit code 2 and prints nothing.  A command that fails ends
with the exit code 1; the lines printed before the failure remain.
-/

namespace Workflow.CommandLine

inductive Command where
  | list
  | show (id : String)
  | create (type : String) (steps : List String)
  | work (executors : List String) (once : Bool) (lifespan : Option Float)

/-! ### Understanding arguments -/

/-- Whether an option takes a value. -/
inductive OptionShape where
  | valued
  | flag
deriving DecidableEq, Repr

/-- Options and other arguments, each in order. -/
structure Arguments where
  options : List (String × String)
  positional : List String
deriving DecidableEq, Repr

/-- Splits a text at the first occurrence of a character, if there is one. -/
def splitAt? (separator : Char) (text : String) : Option (String × String) :=
  let characters := text.toList
  let before := characters.takeWhile (· != separator)
  match characters.drop before.length with
  | [] => none
  | _ :: behind => some (String.ofList before, String.ofList behind)

/-- Whether an argument is an option rather than a value. -/
def isOption (argument : String) : Bool :=
  argument.startsWith "-" && argument != "-"

/-- Sorts arguments into options and others; after a double hyphen all are others. -/
def sortArguments (shapes : List (String × OptionShape)) : List String → Option Arguments
  | [] => some ⟨[], []⟩
  | argument :: rest =>
    if argument == "--" then some ⟨[], rest⟩
    else if !isOption argument then
      (sortArguments shapes rest).map fun sorted =>
        { sorted with positional := argument :: sorted.positional }
    else
      let (name, attached) :=
        match splitAt? '=' argument with
        | some (name, value) => (name, some value)
        | none => (argument, none)
      match shapes.lookup name, attached, rest with
      | some .valued, some value, rest => withOption name value (sortArguments shapes rest)
      | some .valued, none, value :: rest =>
        withOption name value (sortArguments shapes rest)
      | some .flag, none, rest => withOption name "" (sortArguments shapes rest)
      | _, _, _ => none
where
  withOption (name value : String) (sorted : Option Arguments) : Option Arguments :=
    sorted.map fun sorted => { sorted with options := (name, value) :: sorted.options }

namespace Arguments

/-- The values of an option, in order. -/
def all (arguments : Arguments) (name : String) : List String :=
  arguments.options.filterMap fun option =>
    if option.1 = name then some option.2 else none

def last? (arguments : Arguments) (name : String) : Option String :=
  (arguments.all name).getLast?

/-- Whether the last of a pair of opposite flags is the first of them. -/
def isOn (arguments : Arguments) (flag opposite : String) : Bool :=
  let given := (arguments.options.map Prod.fst).filter fun name =>
    name == flag || name == opposite
  given.getLast? == some flag

end Arguments

/-- A lifespan in seconds, if one is given. -/
def lifespanOf? (arguments : Arguments) : Option (Option Float) :=
  match arguments.last? "--lifespan" with
  | none => some none
  | some written =>
    match Settings.numberOfText written with
    | .ok seconds => some (some seconds)
    | .error _ => none

/-- Understands the arguments of a command about processes. -/
def processCommand? : List String → Option Command
  | "list" :: rest =>
    match sortArguments [] rest with
    | some ⟨_, []⟩ => some .list
    | _ => none
  | "show" :: rest =>
    match sortArguments [] rest with
    | some ⟨_, [id]⟩ => some (.show id)
    | _ => none
  | "create" :: rest =>
    match sortArguments [("--step", .valued)] rest with
    | some arguments =>
      match arguments.positional, arguments.all "--step" with
      | [type], step :: steps => some (.create type (step :: steps))
      | _, _ => none
    | none => none
  | _ => none

def workOptions : List (String × OptionShape) :=
  [("--executor", .valued), ("--once", .flag), ("--no-once", .flag),
    ("--lifespan", .valued)]

/-- Understands the arguments of a command about workers. -/
def workerCommand? : List String → Option Command
  | "run" :: rest =>
    match sortArguments workOptions rest with
    | some arguments =>
      match arguments.positional, arguments.all "--executor", lifespanOf? arguments with
      | [], executor :: executors, some lifespan =>
        some (.work (executor :: executors) (arguments.isOn "--once" "--no-once") lifespan)
      | _, _, _ => none
    | none => none
  | _ => none

/-- Drops a double hyphen, behind which no options of a group follow. -/
def dropSeparator : List String → List String
  | "--" :: rest => rest
  | arguments => arguments

/-- Understands the arguments of a group of commands. -/
def groupCommand? : List String → Option Command
  | "process" :: rest => processCommand? (dropSeparator rest)
  | "worker" :: rest => workerCommand? (dropSeparator rest)
  | _ => none

/-- Understands all arguments; a log level can stand in front. -/
def command? : List String → Option Command
  | "--" :: rest => groupCommand? rest
  | "--log-level" :: _ :: rest => command? rest
  | argument :: rest =>
    if argument.startsWith "--log-level=" then command? rest
    else groupCommand? (argument :: rest)
  | [] => none

/-! ### Carrying out commands -/

/-- How a command ended. -/
structure Ending where
  exitCode : Nat
  lines : List String
  failure : Option Failure
deriving DecidableEq, Repr

namespace Ending

def done (lines : List String) : Ending := ⟨0, lines, none⟩

def refused (lines : List String) : Ending := ⟨1, lines, none⟩

def misused : Ending := ⟨2, [], none⟩

/-- A command that failed after printing some lines. -/
def failed (lines : List String) (failure : Failure) : Ending := ⟨1, lines, some failure⟩

end Ending

/-- What commands need from their surroundings, where executors have a type of their
own. -/
structure Desk (m : Type → Type) (ε : Type) where
  details : m (Except Failure (List ProcessDetail))
  detail? : Uuid → m (Except Failure (Option ProcessDetail))
  dispatch : ProcessType → List StepType → m (Except Failure ProcessDetail)
  /-- Loads the settings of workers and makes the storage ready. -/
  settings : m (Except Failure WorkerSettings)
  /-- Loads what a module holds under a name; nothing if that is no executor. -/
  executor? : (source member : String) → m (Except Failure (Option ε))
  registration : ε → Registration
  /-- Runs one cycle; how many processes were attempted. -/
  cycle : WorkerSettings → List ε → m (Except Failure Nat)
  work : WorkerSettings → List ε → Option Float → m (Except Failure Unit)

def listLine (process : ProcessDetail) : String :=
  let lease :=
    match process.lease with
    | some expiry => expiry.text
    | none => "unlocked"
  "\t".intercalate
    [process.id.text, process.type.label,
      (Progress.ofStatuses (process.steps.map Step.status)).text,
      "v" ++ toString process.version, lease]

/-- A step in one line; a step whose status was cleared cannot be shown. -/
def stepLine (step : Step) : Except Failure String :=
  match step.status with
  | none => .error .namelessStatus
  | some status =>
    let changed :=
      match step.changed with
      | some stamp => " changed " ++ stamp.text
      | none => ""
    let message :=
      match step.message with
      | some text => if text == "" then "" else " - " ++ text
      | none => ""
    .ok (s!"- {step.type.label}: {status.label} (created " ++ step.created.text ++ changed
      ++ ")" ++ message)

/-- Shows steps one after the other, until one cannot be shown. -/
def stepLines : List Step → List String × Option Failure
  | [] => ([], none)
  | step :: steps =>
    match stepLine step with
    | .error failure => ([], some failure)
    | .ok line =>
      let others := stepLines steps
      (line :: others.1, others.2)

def showProcess (process : ProcessDetail) : Ending :=
  let progress := (Progress.ofStatuses (process.steps.map Step.status)).text
  let title := s!"Process {process.id} ({process.type.label}): " ++ progress
  let lease :=
    match process.lease with
    | some expiry => ["Locked until: " ++ expiry.text]
    | none => []
  let steps := stepLines process.steps
  let lines := title :: s!"Version: {process.version}" :: lease ++ steps.1
  match steps.2 with
  | none => .done lines
  | some failure => .failed lines failure

def missingProcess : Ending := .refused ["Process not found"]

variable {m : Type → Type} [Monad m] {ε : Type}

def performList (desk : Desk m ε) : m Ending := do
  match ← desk.details with
  | .error failure => return .failed [] failure
  | .ok [] => return .done ["No processes found"]
  | .ok processes => return .done (processes.map listLine)

def performShow (desk : Desk m ε) (written : String) : m Ending := do
  match Uuid.ofText? written with
  | none => return missingProcess
  | some id =>
    match ← desk.detail? id with
    | .error failure => return .failed [] failure
    | .ok none => return missingProcess
    | .ok (some process) => return showProcess process

/-- Reads the type of a new process and of its first steps. -/
def readTypes (type : String) (steps : List String) :
    Except Failure (ProcessType × List StepType) := do
  let type ← Catalogue.read (.written type)
  let steps ← steps.mapM fun step => Catalogue.read (.written step)
  return (type, steps)

def performCreate (desk : Desk m ε) (type : String) (steps : List String) : m Ending := do
  match readTypes type steps with
  | .error failure => return .refused [failure.message]
  | .ok (type, steps) =>
    match ← desk.dispatch type steps with
    | .error failure => return .failed [] failure
    | .ok process => return .done [s!"Created process {process.id}"]

def loadExecutors (desk : Desk m ε) : List String → m (Except Ending (List ε))
  | [] => return .ok []
  | path :: paths => do
    match splitAt? ':' path with
    | none => return .error .misused
    | some (source, member) =>
      if source == "" || member == "" then return .error .misused
      else
        match ← desk.executor? source member with
        | .error failure => return .error (.failed [] failure)
        | .ok none => return .error .misused
        | .ok (some executor) =>
          match ← loadExecutors desk paths with
          | .error ending => return .error ending
          | .ok executors => return .ok (executor :: executors)

/-- Runs a worker, or only one cycle of it. -/
def performWork (desk : Desk m ε) (paths : List String) (once : Bool)
    (lifespan : Option Float) : m Ending := do
  match ← desk.settings with
  | .error failure => return .failed [] failure
  | .ok settings =>
    match ← loadExecutors desk paths with
    | .error ending => return ending
    | .ok executors =>
      match Registry.ofList (executors.map desk.registration) with
      | .error failure => return .failed [] failure
      | .ok registry =>
        if once then
          match ← desk.cycle settings executors with
          | .error failure => return .failed [] failure
          | .ok count => return .done [s!"Processed {count} process(es)"]
        else
          let start := "Starting worker for: "
            ++ ", ".intercalate (registry.types.map ProcessType.label)
          match ← desk.work settings executors lifespan with
          | .error failure => return .failed [start] failure
          | .ok _ => return .done [start]

def perform (desk : Desk m ε) : Command → m Ending
  | .list => performList desk
  | .show id => performShow desk id
  | .create type steps => performCreate desk type steps
  | .work executors once lifespan => performWork desk executors once lifespan

/-- Understands arguments and carries out the command. -/
def run (desk : Desk m ε) (arguments : List String) : m Ending :=
  match command? arguments with
  | none => return .misused
  | some command => perform desk command

end Workflow.CommandLine
