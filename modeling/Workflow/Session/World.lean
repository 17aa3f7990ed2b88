import Workflow.Pause
import Workflow.Session.Deed
import Workflow.Session.Store
import Workflow.Time.Span

/-!
# The world of a session

The state that the participants share: the store, a clock that moves only when somebody
pauses, the supply of identifiers, and the objects that deeds have kept under handles.
-/

namespace Workflow.Session

/-- A failure that is due at some calls of a method. -/
structure Fault where
  method : Method
  failure : Failure
  /-- How many calls still work before the failures begin. -/
  skipped : Nat
  /-- How many calls still fail after that. -/
  times : Nat

/-- A participant and the changes it has staged. -/
structure Participant where
  name : String
  staged : Batch
  faults : List Fault

/-- An object kept under a handle.  A process is referred to by its place, because it
can change while it is kept. -/
inductive Kept where
  | process (place : Nat)
  | context (context : ManualContext)
  | cursor (query : Eligible) (limit : Nat)

structure World where
  store : Store
  pageSize : Int
  participants : List Participant
  /-- What the clock showed at the second `since`. -/
  clock : Timestamp
  since : Float
  seconds : Float
  ids : List Uuid
  /-- How many identifiers were generated after these were used up. -/
  generated : Nat
  /-- The random share of pauses. -/
  share : Float
  scripts : List Script
  /-- How often the outcomes of a step type of a script were taken. -/
  taken : List ((String × StepType) × Nat)
  objects : Array ProcessDetail
  handles : List (String × Kept)
  log : Array Notice
  traces : Array Trace
  /-- Whether the deed that is going on is cancelled. -/
  cancelled : Bool
  /-- The second at which it will be cancelled. -/
  cancelAt : Option Float
  /-- Who looked for eligible processes and at which second, latest first. -/
  discoveries : List (String × Float)

abbrev Act := StateM World

namespace World

def now (world : World) : Except Failure Timestamp := do
  let span ← Span.ofSeconds (world.seconds - world.since)
  match world.clock.shift? span with
  | some stamp => return stamp
  | none => throw .dateOutOfRange

/-- The identifier made from a number when all given ones are used up. -/
def generatedId (number : Nat) : Uuid :=
  Uuid.ofNat (0x40008000 <<< 48 + number)

/-- Whether a moment that is due by a second has come. -/
def isDue (moment : Option Float) (second : Float) : Bool :=
  match moment with
  | some moment => moment ≤ second
  | none => false

end World

namespace Act

/-- The time; where the calendar ends the clock stands still. -/
def now : Act Timestamp := do
  let world ← get
  return match world.now with
    | .ok stamp => stamp
    | .error _ => world.clock

/-- Reads the clock a number of times, and once more. -/
def readings (count : Nat) : Act Readings := do
  let shown ← (List.range count).mapM fun _ => now
  return .ofList shown (← now)

def note (notice : Notice) : Act Unit :=
  modify fun world => { world with log := world.log.push notice }

def nextId : Act Uuid := do
  let world ← get
  match world.ids with
  | id :: ids =>
    set { world with ids }
    return id
  | [] =>
    let number := world.generated + 1
    set { world with generated := number }
    return World.generatedId number

def nextIds (count : Nat) : Act (List Uuid) :=
  (List.range count).mapM fun _ => nextId

/-- Lets time pass; a cancellation that becomes due takes place. -/
def sleep (seconds : Float) : Act Unit :=
  if seconds ≤ 0 then return ()
  else
    modify fun world =>
      let second := world.seconds + seconds
      { world with
        seconds := second
        cancelled := world.cancelled || World.isDue world.cancelAt second }

/-- Moves the time on without waking anybody. -/
def advance (seconds : Float) : Act Unit :=
  modify fun world => { world with seconds := world.seconds + seconds }

def cancel : Act Unit :=
  modify fun world => { world with cancelled := true }

/-- Waits until some seconds have passed or the deed is cancelled; whether it was. -/
def pause (isHeard : Bool) (seconds : Float) : Act Bool := do
  let world ← get
  let (cancelled, ends) := Pause.run world.seconds seconds (isHeard && world.cancelled)
    (world.cancelAt.filter fun _ => isHeard)
  set { world with
    seconds := ends
    cancelled := world.cancelled || cancelled || World.isDue world.cancelAt ends }
  return cancelled

def participant (name : String) : Act Participant := do
  let found := (← get).participants.find? fun participant => participant.name == name
  return found.getD ⟨name, [], []⟩

/-- Puts a participant in the place of the one with its name. -/
def setParticipant (participant : Participant) : Act Unit :=
  modify fun world =>
    if world.participants.any fun other => other.name == participant.name then
      { world with
        participants := world.participants.map fun other =>
          if other.name = participant.name then participant else other }
    else { world with participants := world.participants ++ [participant] }

def stage (name : String) (batch : Batch) : Act Unit := do
  let participant ← participant name
  setParticipant { participant with staged := participant.staged ++ batch }

def hasStaged (name : String) : Act Bool := do
  return !(← participant name).staged.isEmpty

/-- Counts a call of a method: the faults afterwards and the failure that is due. -/
def countCall (method : Method) : List Fault → List Fault × Option Failure
  | [] => ([], none)
  | fault :: faults =>
    if fault.method ≠ method then
      let counted := countCall method faults
      (fault :: counted.1, counted.2)
    else
      match fault.skipped, fault.times with
      | skipped + 1, _ =>
        let counted := countCall method faults
        ({ fault with skipped } :: counted.1, counted.2)
      | 0, times + 1 => ({ fault with times } :: faults, some fault.failure)
      | 0, 0 =>
        let counted := countCall method faults
        (fault :: counted.1, counted.2)

/-- Calls a method of a participant, which fails if a failure is due. -/
def call {α : Type} (name : String) (method : Method)
    (action : Act (Except Failure α)) : Act (Except Failure α) := do
  let participant ← participant name
  let (faults, failure) := countCall method participant.faults
  setParticipant { participant with faults }
  match failure with
  | some failure => return .error failure
  | none => action

def access {α : Type} (access : Store.Access α) : Act (Except Failure α) := do
  let world ← get
  let (outcome, store) := access.run.run world.store
  set { world with store }
  return outcome

/-- Commits what a participant has staged, if anything.  What was staged is gone
afterwards, also if the commit fails. -/
def save (name : String) : Act (Except Failure Unit) :=
  call name .save do
    let participant ← participant name
    if participant.staged.isEmpty then return .ok ()
    else
      setParticipant { participant with staged := [] }
      note (.saving participant.staged.length)
      access (Store.commit participant.staged)

def clear (name : String) : Act Unit := do
  let participant ← participant name
  if !participant.staged.isEmpty then
    note (.discarding participant.staged.length)
    setParticipant { participant with staged := [] }

def keep (handle : Option String) (kept : Kept) : Act Unit := do
  match handle with
  | none => return ()
  | some handle =>
    modify fun world =>
      { world with
        handles := (handle, kept) :: world.handles.filter fun entry => entry.1 != handle }

def forget (handle : Option String) : Act Unit := do
  match handle with
  | none => return ()
  | some handle =>
    modify fun world =>
      { world with handles := world.handles.filter fun entry => entry.1 != handle }

/-- Makes a process an object; its place. -/
def place (process : ProcessDetail) : Act Nat := do
  let world ← get
  set { world with objects := world.objects.push process }
  return world.objects.size

def object (place : Nat) : Act ProcessDetail := do
  return (← get).objects.getD place ((Process.fresh (Uuid.ofNat 0) .setupDim).withSteps [])

def setObject (place : Nat) (process : Process) : Act Unit :=
  modify fun world =>
    { world with
      objects := world.objects.modify place fun object => process.withSteps object.steps }

/-- Performs an operation on the lease of the process at a place, as a participant. -/
def performLease (name : String) (place : Nat) (operation : LeaseOp) :
    Act (Except Failure Bool) := do
  let process ← object place
  match operation.perform process.toProcess with
  | .error failure => return .error failure
  | .ok (process, batch) =>
    setObject place process
    stage name batch
    return .ok (!batch.isEmpty)

def record (event : Event) : Act Nat := do
  let world ← get
  set { world with traces := world.traces.push ⟨event, []⟩ }
  return world.traces.size

def attach (place : Nat) (answers : List Answer) : Act Unit :=
  modify fun world =>
    { world with
      traces := world.traces.modify place fun trace => { trace with answers } }

end Act

end Workflow.Session
