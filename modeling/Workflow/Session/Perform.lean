import Workflow.Session.Desk

/-!
# Doing deeds

Every deed of a session, and the answers to them.  A deed that fails leaves the session
going; what it had already staged stays staged.
-/

namespace Workflow.Session

open Attempted

/-- The place of the process kept under a handle. -/
def processUnder (handle : String) : Attempted Nat := do
  match (← getThe World).handles.lookup handle with
  | some (.process place) => return place
  | _ => throw (.unknownHandle handle)

def contextUnder (handle : String) : Attempted ManualContext := do
  match (← getThe World).handles.lookup handle with
  | some (.context context) => return context
  | _ => throw (.unknownHandle handle)

def cursorUnder (handle : String) : Attempted (Eligible × Nat) := do
  match (← getThe World).handles.lookup handle with
  | some (.cursor query limit) => return (query, limit)
  | _ => throw (.unknownHandle handle)

def ask {α : Type} (access : Store.Access α) : Attempted α :=
  ofOutcome (Act.access access)

/-- Puts rows into the store in one batch. -/
def seed (processes : List ProcessRow) (steps : List StepRow) : Attempted Unit := do
  let processes ← ofExcept (processes.mapM ProcessRow.toDetail)
  let steps ← ofExcept (steps.mapM StepRow.toStep)
  ask (Store.commit (processes.flatMap Dispatch.changes ++ steps.map Change.insertStep))

def createProcess (name : String) (type : Int) : Attempted ProcessDetail := do
  let type ← ofExcept (Catalogue.member type)
  let process := Process.fresh (← Act.nextId) type
  Act.stage name [.insertProcess process]
  return process.withSteps []

def createStep (name : String) (type status : Int) (process : Uuid) : Attempted Step := do
  let type ← ofExcept (Catalogue.member type)
  let status ← ofExcept (Catalogue.member status)
  return ← Post.stageStep name type status process

def modifyStep (name : String) (step : Uuid) (patch : StepPatch) : Attempted Unit := do
  let update ← ofExcept patch.toUpdate
  let now ← Act.now
  Act.stage name [.updateStep step update now]

/-- Visits the items of a cursor, with something to do after each of them. -/
def visitCursor (query : Eligible) (limit : Nat) (after : Nat → Act Unit) :
    Attempted (List Process) := do
  let ended ← Paging.visitAll limit Process.id
    (fun last => ask (Store.eligiblePage query last limit))
    (fun (items : List Process) item => do
      after (items.length + 1)
      return ForInStep.yield (item :: items))
    roundLimit []
  return ended.state.reverse

def active (name : String) (types steps : List Int) (date : Timestamp)
    (handle : Option String) : Attempted (List ProcessDetail) := do
  let types ← ofExcept (members types)
  let steps ← ofExcept (members steps)
  let query : Eligible := ⟨types, steps, date⟩
  let limit ← ofOutcome (Post.discover name)
  Act.keep handle (.cursor query limit)
  let found ← visitCursor query limit fun _ => return ()
  return found.map fun process => process.withSteps []

/-- Iterates a kept cursor, with deeds after some of the items. -/
def iterate (doer : Doer) (cursor : String) (during : List (Nat × List Order)) :
    Attempted (List Uuid) := do
  let (query, limit) ← cursorUnder cursor
  let found ← visitCursor query limit fun count => do
    let _ ← ((during.lookup count).getD []).mapM doer
  return found.map Process.id

def get? (process : Uuid) (handle : Option String) : Attempted (Option ProcessDetail) := do
  match ← ask (Store.detail? process) with
  | none =>
    Act.forget handle
    return none
  | some process =>
    let place ← Act.place process
    Act.keep handle (.process place)
    return some process

/-- Loads what is needed before a step is run by hand. -/
def verify (process : Uuid) (types : Option (List Int)) : Attempted (Option Loaded) := do
  let types ← ofExcept (members? types)
  ask (Store.load? process types)

/-- Performs an operation on the lease of a kept process; whether anything was staged. -/
def lease (name : String) (place : Nat) (operation : LeaseOp) : Attempted Bool :=
  ofOutcome (Act.performLease name place operation)

def requestLease (name handle : String) (expiry : Timestamp) (now : Option Timestamp) :
    Attempted ProcessDetail := do
  let place ← processUnder handle
  let clock ← Act.now
  let _ ← lease name place (.request expiry (now.getD clock))
  let process ← Act.object place
  Act.note (.leased process.id expiry)
  return process

def renewLease (name handle : String) (expiry : Timestamp) : Attempted ProcessDetail := do
  let place ← processUnder handle
  let _ ← lease name place (.renew expiry)
  let process ← Act.object place
  Act.note (.renewed process.id expiry)
  return process

/-- Performs an operation that reports nothing; whether it changed anything, and the
process afterwards. -/
def changeLease (name handle : String) (operation : LeaseOp) :
    Attempted (Bool × ProcessDetail) := do
  let place ← processUnder handle
  let changed ← lease name place operation
  return (changed, ← Act.object place)

/-- The data for a manual context. -/
def loadSource : ManualSource → Attempted (Option Loaded)
  | .stored process types => verify process types
  | .missing => return none
  | .given process steps => do
    let process ← ofExcept (process.mapM ProcessRow.toDetail)
    let steps ← ofExcept (steps.mapM fun rows => rows.mapM StepRow.toStep)
    return some ⟨process, steps⟩

def manual (handle : String) (step : Int) (owner : String) (now : Option Timestamp)
    (source : ManualSource) : Attempted ManualContext := do
  let loaded ← loadSource source
  let step ← ofExcept (Catalogue.member step)
  let clock ← Act.now
  let context ← ofExcept (ManualContext.check loaded step owner (now.getD clock))
  Act.keep (some handle) (.context context)
  return context

/-- Performs an operation on a kept manual context; new identifiers are taken as needed.  It
updates a loaded step at most once. -/
def performManual (name handle : String) (context : ManualContext) (operation : ManualOp)
    (ids : List Uuid) : Attempted ManualContext := do
  let clock ← Act.readings (context.steps.length + ids.length)
  let (context, batch) ← ofExcept (context.perform clock ids operation)
  Act.stage name batch
  Act.keep (some handle) (.context context)
  return context

/-- Schedules new steps in a kept manual context; also the identifiers of these. -/
def manualSchedule (name handle : String) (types : List Int) :
    Attempted (ManualContext × List Uuid) := do
  let context ← contextUnder handle
  let types ← ofExcept (members types)
  let ids ← Act.nextIds (context.unknownTypes types).length
  return (← performManual name handle context (.schedule types) ids, ids)

/-- What happens after each unit of work of a drain. -/
def consumeUnit (name : String) (commits : Bool) (limit : Option Nat)
    (result : DrainResult) (count : Nat) : Act (Except Failure Bool) := do
  let _ ← Act.record (.yielded result (← Act.hasStaged name))
  let saved ←
    if commits && result == .saveRequested then Act.save name else pure (.ok ())
  match saved with
  | .error failure => return .error failure
  | .ok _ =>
    if commits then Act.clear name
    return .ok (limit != some count)

def drain (doer : Doer) (name : String) (process : Uuid) (type : Int)
    (executors : List String) (commits : Bool) (limit : Option Nat) :
    Attempted (List DrainResult) := do
  let staffing ← Staffing.ofNames executors []
  let type ← ofExcept (Catalogue.member type)
  let post := { staffing.post name true with consult := consumeUnit name commits limit }
  let action := staffing.registry.drain process type Drain.consult
  let ran : Except Failure Unit × List DrainResult ←
    post.runFrom doer (← getThe World).objects.size action
  ofExcept ran.1
  return ran.2

/-- Gets ready for a run that can be cancelled. -/
def prepareSignal (signal : Signal) : Act Unit := do
  if signal.isSet then Act.cancel
  match signal.after with
  | none => return ()
  | some seconds =>
    modify fun world => { world with cancelAt := some (world.seconds + seconds) }

/-- Runs a worker; when its cycles began and how long it took. -/
def run (doer : Doer) (name : String) (executors : List String)
    (entries : SettingsEntries) (lifespan : Option Float) (signal : Signal) :
    Attempted (List Float × Float) := do
  let staffing ← Staffing.ofNames executors entries
  prepareSignal signal
  let before ← getThe World
  ofOutcome (staffing.work doer name signal.isHeard lifespan)
  let after ← getThe World
  let made := after.discoveries.take (after.discoveries.length - before.discoveries.length)
  let own := made.reverse.filter fun entry => entry.1 == name
  return (own.map fun entry => entry.2 - before.seconds, after.seconds - before.seconds)

def perform (doer : Doer) (name : String) : Deed → Attempted Reply
  | .seed processes steps => do
    seed processes steps
    return .nothing
  | .advance seconds => do
    Act.advance seconds
    return .nothing
  | .setClock now => do
    modifyThe World fun world => { world with clock := now, since := world.seconds }
    return .nothing
  | .fail method failure times skipped => do
    let own ← Act.participant name
    let fault : Fault := { method, failure, skipped, times }
    Act.setParticipant { own with faults := fault :: own.faults }
    return .nothing
  | .createProcess type => return .process (← createProcess name type)
  | .createStep type status process => return .step (← createStep name type status process)
  | .createSteps items =>
    return .steps (← items.mapM fun (type, status, process) =>
      createStep name type status process)
  | .modifyStep step patch => do
    modifyStep name step patch
    return .nothing
  | .modifySteps patches => do
    patches.forM fun (step, patch) => modifyStep name step patch
    return .nothing
  | .modifyProcess process expected update => do
    let change ← ofExcept (Change.guardedUpdate process expected update)
    Act.stage name [change]
    return .nothing
  | .removeStep step => do
    Act.stage name [.deleteStep step]
    return .nothing
  | .save => do
    ofOutcome (Act.save name)
    return .nothing
  | .clear => do
    Act.clear name
    return .nothing
  | .active types steps date handle =>
    return .processes (← active name types steps date handle)
  | .iterate cursor during => return .ids (← iterate doer cursor during)
  | .pendingSteps process =>
    return .pendingSteps (← ofOutcome
      (Act.call name .pendingSteps (Act.access (Store.pendingSteps process))))
  | .stepTypes process => return .types (← ask (Store.stepTypes process))
  | .get process handle => return .process? (← get? process handle)
  | .list => return .processes (← ask Store.details)
  | .verify process types => return .loaded (← verify process types)
  | .requestLease handle expiry now =>
    return .process (← requestLease name handle expiry now)
  | .renewLease handle expiry => return .process (← renewLease name handle expiry)
  | .releaseLease handle => do
    let (changed, process) ← changeLease name handle .release
    return .released changed process
  | .raiseVersion handle => return .process (← changeLease name handle .raise).2
  | .releaseOrRaise handle => return .process (← changeLease name handle .releaseOrRaise).2
  | .show handle => do
    match (← getThe World).handles.lookup handle with
    | some (.context context) => return .context context
    | _ => return .process (← Act.object (← processUnder handle))
  | .manual handle step owner now source =>
    return .context (← manual handle step owner now source)
  | .manualLease handle expiry => do
    let context ← contextUnder handle
    let context ← performManual name handle context (.requestLease expiry) []
    Act.note (.leased context.process.id expiry)
    return .context context
  | .manualSkip handle types => do
    let context ← contextUnder handle
    let types ← ofExcept (members types)
    return .context (← performManual name handle context (.skip types) [])
  | .manualSkipExcept handle types => do
    let context ← contextUnder handle
    let types ← ofExcept (members types)
    return .context (← performManual name handle context (.skipExcept types) [])
  | .manualSchedule handle types => do
    let (context, created) ← manualSchedule name handle types
    return .scheduled context created
  | .manualFinalize handle => do
    let context ← contextUnder handle
    let context ← performManual name handle context .finalize []
    Act.note (.finalized context.current context.process.id)
    return .context context
  | .dispatch type steps => do
    let type ← ofExcept (Catalogue.member type)
    let steps ← ofExcept (members steps)
    return .process (← ofOutcome (dispatch name type steps))
  | .stage type steps => do
    let type ← ofExcept (Catalogue.member type)
    let steps ← ofExcept (members steps)
    return .process (← stageProcess name type steps)
  | .registry executors => do
    let staffing ← Staffing.ofNames executors []
    return .registry staffing.registry.types staffing.registry.executable
  | .drain process type executors commits limit =>
    return .drained (← drain doer name process type executors commits limit)
  | .cycle executors entries signal => do
    let staffing ← Staffing.ofNames executors entries
    prepareSignal signal
    return .count (← ofOutcome (staffing.cycle doer name signal.isHeard))
  | .attempt handle executors entries => do
    let place ← processUnder handle
    let staffing ← Staffing.ofNames executors entries
    ofOutcome (staffing.attempt doer name place)
    return .process (← Act.object place)
  | .run executors entries lifespan signal => do
    let (cycles, elapsed) ← run doer name executors entries lifespan signal
    return .ran cycles elapsed
  | .commandLine arguments fresh document =>
    return .ending (← commandLine doer name arguments fresh document)

/-- Does a deed and answers it.  Deeds within deeds can be nested as deep as the fuel
says. -/
def answer : Nat → Doer
  | 0, _ =>
    return { outcome := .error (.reported .runtime "deeds are nested too deep"),
             pending := false, log := [], calls := [] }
  | fuel + 1, (name, deed) => do
    let before ← get
    let outcome ← (perform (answer fuel) name deed).run
    let pending ← Act.hasStaged name
    let after ← get
    return {
      outcome
      pending
      log := after.log.toList.drop before.log.size
      calls := after.store.calls.drop before.store.calls.length }

/-- How deep deeds can be nested. -/
def depthLimit : Nat := 1000

/-- Does a deed of the session itself: nothing is cancelled yet, and nothing observed. -/
def step (order : Order) : Act FullAnswer := do
  modify fun world =>
    { world with log := #[], traces := #[], cancelled := false, cancelAt := none }
  let answer ← answer depthLimit order
  return { answer, traces := (← get).traces.toList }

def play (orders : List Order) : Act (List FullAnswer) :=
  orders.mapM step

end Workflow.Session
