import Workflow.Attempt
import Workflow.Proofs.Lease.Mirror

/-!
# The surroundings of an attempt

A worker that attempts a process holds a copy of it and has staged some changes; the
rows it works on are shared with others.  `Scene.Answers` says how a request of the
worker can be answered and what this changes: clocks, executors and cancellations
may reply whatever they like, and every save either takes effect as a whole or fails
with nothing written.  `Scene.Meanwhile` says what others can do between two
requests.
-/

namespace Workflow

/-- Neither a lost race nor a cancellation: after such a failure the lease is given
back. -/
def Failure.IsSwallowed (failure : Failure) : Prop :=
  failure.isStale = false ∧ failure.isCancellation = false

/-- How a save ended; a commit keeps the rows as they were right after it. -/
inductive Saved where
  | committed (rows : Rows)
  | failed (failure : Failure)

def Saved.isCommitted : Saved → Bool
  | committed _ => true
  | failed _ => false

/-- What belongs to one worker: its copy of a process, what it has staged, the last
reading of its clock, and how its saves ended since it took up the process, latest
first. -/
structure Station where
  held : Process
  staged : Batch
  reading : Option Timestamp
  saves : List Saved

/-- One worker and the shared rows. -/
structure Scene extends Station where
  rows : Rows

/-- What is known of all workers. -/
structure Habits where
  /-- The changes that executors may stage on their own. -/
  mayStage : Change → Prop
  /-- The failures of executors and of questions to the store. -/
  mayFail : Failure → Prop
  /-- Whether generated identifiers are known to be new. -/
  newIds : Prop
  /-- Whether the steps of a process are written only together with its row. -/
  guarded : Prop
  raises : ∀ {id expected update}, mayStage (.updateProcess id expected update) →
    expected < update.version
  insertsNew : ∀ {process}, mayStage (.insertProcess process) → newIds
  newIds_of_guarded : guarded → newIds
  concernsProcess : guarded → ∀ {change}, mayStage change → change.concernsProcess

/-- Executors stage whatever they like except changes of steps, and every update raises
the version of its process.  Generated identifiers are new. -/
def Habits.stepless : Habits where
  mayStage change := change.concernsProcess ∧
    ∀ id expected update, change = .updateProcess id expected update → expected < update.version
  mayFail _ := True
  newIds := True
  guarded := True
  raises allowed := allowed.2 _ _ _ rfl
  insertsNew _ := trivial
  newIds_of_guarded _ := trivial
  concernsProcess _ _ allowed := allowed.1

/-- Executors stage nothing on their own, and anything may fail.  Generated identifiers
are new. -/
def Habits.silent : Habits where
  mayStage _ := False
  mayFail _ := True
  newIds := True
  guarded := True
  raises := False.elim
  insertsNew _ := trivial
  newIds_of_guarded _ := trivial
  concernsProcess _ _ := False.elim

/-- A reply that fails, if it does, as may be expected. -/
def Habits.MayReply {α : Type} (habits : Habits) (reply : Except Failure α) : Prop :=
  ∀ failure, reply = .error failure → habits.mayFail failure

def Change.writesLease (process : Uuid) : Change → Bool
  | updateProcess id _ ⟨_, .write _⟩ => id == process
  | _ => false

def Batch.writesLease (process : Uuid) (batch : Batch) : Bool :=
  batch.any (Change.writesLease process)

def Request.commits : (request : Request) → request.Reply → Bool
  | .save, .ok _ => true
  | _, _ => false

namespace Scene

def stage (scene : Scene) (batch : Batch) : Scene :=
  { scene with staged := scene.staged ++ batch }

def hold (scene : Scene) (process : Process) : Scene :=
  { scene with held := process }

def discard (scene : Scene) : Scene :=
  { scene with staged := [] }

def read (scene : Scene) (now : Timestamp) : Scene :=
  { scene with reading := some now }

def commit (scene : Scene) (after : Rows) : Scene :=
  { scene with staged := [], saves := .committed after :: scene.saves, rows := after }

/-- The scene after a failed save, which may have left changes staged. -/
def fail (scene : Scene) (failure : Failure) (left : Batch) : Scene :=
  { scene with staged := left, saves := .failed failure :: scene.saves }

/-- What is staged can be committed, leaving the given rows; no identifiers collide if
they are known to be new. -/
def Commits (habits : Habits) (scene : Scene) (after : Rows) : Prop :=
  scene.rows.commit scene.staged = .ok after ∧
    (habits.newIds → Batch.IsFresh scene.rows scene.staged)

/-- How a request can be answered, and the scene afterwards. -/
def Answers (habits : Habits) (scene : Scene) :
    (request : Request) → request.Reply → Scene → Prop
  | .note _, _, next => next = scene
  | .now, now, next => next = scene.read now
  | .isCancelled, _, next => next = scene
  | .held, process, next => process = scene.held ∧ next = scene
  | .hold process, _, next => next = scene.hold process
  | .lease operation, reply, next =>
    match operation.perform scene.held with
    | .ok (process, batch) =>
      reply = .ok (!batch.isEmpty) ∧ next = (scene.hold process).stage batch
    | .error failure => reply = .error failure ∧ next = scene
  | .pendingSteps process, reply, next =>
    habits.MayReply reply ∧
      (∀ steps, reply = .ok steps → steps = scene.rows.pendingSteps process) ∧ next = scene
  | .stepTypes process, reply, next =>
    habits.MayReply reply ∧
      (∀ types, reply = .ok types → types = scene.rows.stepTypes process) ∧ next = scene
  | .stageUpdates updates, _, next =>
    ∃ clock, next = scene.stage (Change.ofUpdates clock updates)
  | .stageStep type process, id, next =>
    ∃ now, next = scene.stage [.insertStep (.fresh id type .todo process now)]
  | .save, .ok _, next =>
    ∃ after, scene.Commits habits after ∧ next = scene.commit after
  | .save, .error failure, next =>
    ∃ left, (left = [] ∨ left = scene.staged) ∧ next = scene.fail failure left
  | .discard, _, next => next = scene.discard
  | .prepare _ _ _, reply, next | .needsLease _ _, reply, next
  | .execute _ _ _ _, reply, next =>
    habits.MayReply reply ∧
      ∃ batch, (∀ change ∈ batch, habits.mayStage change) ∧ next = scene.stage batch
  | .discover _, _, next | .eligiblePage _ _ _, _, next | .consult _, _, next => next = scene

/-- What others can do: the worker keeps what belongs to it, and its process
advances. -/
structure Meanwhile (habits : Habits) (scene later : Scene) : Prop where
  station : later.toStation = scene.toStation
  rows : scene.rows.Advances habits.guarded scene.held.id later.rows

variable {habits : Habits} {scene middle later : Scene}

theorem Commits.fresh {after : Rows} (commits : scene.Commits habits after)
    (guarded : habits.guarded) : Batch.IsFresh scene.rows scene.staged :=
  commits.2 (habits.newIds_of_guarded guarded)

theorem Meanwhile.refl (scene : Scene) : scene.Meanwhile habits scene :=
  ⟨rfl, .refl _ _ _⟩

theorem Meanwhile.held (meanwhile : scene.Meanwhile habits later) :
    later.held = scene.held :=
  congrArg Station.held meanwhile.station

theorem Meanwhile.staged (meanwhile : scene.Meanwhile habits later) :
    later.staged = scene.staged :=
  congrArg Station.staged meanwhile.station

theorem Meanwhile.reading (meanwhile : scene.Meanwhile habits later) :
    later.reading = scene.reading :=
  congrArg Station.reading meanwhile.station

theorem Meanwhile.saves (meanwhile : scene.Meanwhile habits later) :
    later.saves = scene.saves :=
  congrArg Station.saves meanwhile.station

theorem Meanwhile.trans (first : scene.Meanwhile habits middle)
    (second : middle.Meanwhile habits later) : scene.Meanwhile habits later where
  station := second.station.trans first.station
  rows := first.rows.trans (first.held ▸ second.rows)

/-! ### What an attempt may save -/

/-- Where an attempt stands when it saves. -/
inductive Phase (habits : Habits) (scene : Scene) : Prop where
  /-- Nothing has been saved yet: the stored process is not leased. -/
  | beginning (now : Timestamp)
      (unsaved : scene.saves = [])
      (reading : scene.reading = some now)
      (writes : Batch.writesLease scene.held.id scene.staged)
      (free : ∀ after, scene.Commits habits after →
        ∃ stored, scene.rows.process? scene.held.id = some stored ∧
          stored.isLeased now = false)
  /-- All saves were committed: the stored process is as the last of them left it. -/
  | going {rows : Rows} {earlier : List Saved} {base : Process}
      (saves : scene.saves = .committed rows :: earlier)
      (succeeded : ∀ saved ∈ earlier, saved.isCommitted)
      (found : rows.process? scene.held.id = some base)
      (leased : base.lease.isSome)
      (current : ∀ after, scene.Commits habits after →
        scene.rows.process? scene.held.id = some base)
  /-- The last save failed: the lease is given back, under a version that the worker
  has not stored. -/
  | ending {failure : Failure} {earlier : List Saved} {version : Int}
      (saves : scene.saves = .failed failure :: earlier)
      (succeeded : ∀ saved ∈ earlier, saved.isCommitted)
      (swallowed : failure.IsSwallowed)
      (staged : scene.staged =
        [.updateProcess scene.held.id version ⟨version + 1, .write none⟩])
      (unstored : ∀ rows older, earlier = .committed rows :: older →
        ∃ base, rows.process? scene.held.id = some base ∧ base.lease.isSome ∧
          base.version < version)

/-- What is certain of a batch that an attempt asks to save. -/
structure MaySave (habits : Habits) (scene : Scene) : Prop where
  raises : Batch.Raises scene.staged
  updates : Batch.Updates scene.held.id scene.staged
  inserts : (∃ process, process ∈ Batch.insertedProcesses scene.staged) → habits.newIds
  respects : habits.guarded → ∀ after, scene.Commits habits after →
    Batch.Respects scene.held.id (scene.rows.owned scene.held.id) scene.staged
  phase : scene.Phase habits

/-- All saves were committed, and the last of them left the process leased as the worker
holds it. -/
def HoldsLease (scene : Scene) : Prop :=
  scene.held.lease.isSome ∧ ∃ rows earlier, scene.saves = .committed rows :: earlier ∧
    (∀ saved ∈ earlier, saved.isCommitted) ∧ rows.process? scene.held.id = some scene.held

/-- What an attempt may ask.  It never takes up another process, and it turns to an
executor only while it holds the lease. -/
def MayAsk (habits : Habits) (scene : Scene) : Request → Prop
  | .save => scene.MaySave habits
  | .hold _ => False
  | .prepare _ process _ | .execute _ process _ _ => process = scene.held.id ∧ scene.HoldsLease
  | .needsLease _ _ => scene.HoldsLease
  | _ => True

/-! ### What an answer changes -/

variable {next : Scene} {request : Request} {reply : request.Reply}

/-- Only a committed save changes the rows, and every save is recorded. -/
theorem Answers.cases (answers : scene.Answers habits request reply next) :
    (request.commits reply = false ∧ next.rows = scene.rows ∧
      (next.saves = scene.saves ∨
        ∃ failure, request = .save ∧ next.saves = .failed failure :: scene.saves)) ∨
      (request.commits reply = true ∧ request = .save ∧ scene.Commits habits next.rows ∧
        next = scene.commit next.rows) := by
  cases request with
  | note _ | now | isCancelled | hold _ | discard | discover _ | eligiblePage _ _ _ | consult _ =>
      obtain rfl := answers
      exact .inl ⟨rfl, rfl, .inl rfl⟩
  | held =>
      obtain ⟨_, rfl⟩ := answers
      exact .inl ⟨rfl, rfl, .inl rfl⟩
  | lease operation =>
      simp only [Answers] at answers
      split at answers <;> obtain ⟨_, rfl⟩ := answers <;> exact .inl ⟨rfl, rfl, .inl rfl⟩
  | pendingSteps _ | stepTypes _ =>
      obtain ⟨_, _, rfl⟩ := answers
      exact .inl ⟨rfl, rfl, .inl rfl⟩
  | stageUpdates _ | stageStep _ _ =>
      obtain ⟨_, rfl⟩ := answers
      exact .inl ⟨rfl, rfl, .inl rfl⟩
  | prepare _ _ _ | needsLease _ _ | execute _ _ _ _ =>
      obtain ⟨_, _, _, rfl⟩ := answers
      exact .inl ⟨rfl, rfl, .inl rfl⟩
  | save =>
      cases reply with
      | error failure =>
          obtain ⟨_, _, rfl⟩ := answers
          exact .inl ⟨rfl, rfl, .inr ⟨failure, rfl, rfl⟩⟩
      | ok _ =>
          obtain ⟨after, commits, rfl⟩ := answers
          exact .inr ⟨rfl, rfl, commits, rfl⟩

theorem Answers.saves_suffix (answers : scene.Answers habits request reply next) :
    scene.saves <:+ next.saves := by
  rcases answers.cases with ⟨_, _, same | ⟨_, _, failed⟩⟩ | ⟨_, _, _, committed⟩
  · exact same ▸ List.suffix_rfl
  · exact failed ▸ List.suffix_cons _ _
  · rw [committed]
    exact List.suffix_cons _ _

theorem Answers.id_held (answers : scene.Answers habits request reply next)
    (mayAsk : scene.MayAsk habits request) : next.held.id = scene.held.id := by
  cases request with
  | hold _ => cases mayAsk
  | note _ | now | isCancelled | discard | discover _ | eligiblePage _ _ _ | consult _ =>
      obtain rfl := answers
      rfl
  | held =>
      obtain ⟨_, rfl⟩ := answers
      rfl
  | lease operation =>
      simp only [Answers] at answers
      split at answers
      · rename_i performed
        obtain ⟨_, rfl⟩ := answers
        exact (LeaseOp.follows_of_perform performed).id_eq
      · obtain ⟨_, rfl⟩ := answers
        rfl
  | pendingSteps _ | stepTypes _ =>
      obtain ⟨_, _, rfl⟩ := answers
      rfl
  | stageUpdates _ | stageStep _ _ =>
      obtain ⟨_, rfl⟩ := answers
      rfl
  | prepare _ _ _ | needsLease _ _ | execute _ _ _ _ =>
      obtain ⟨_, _, _, rfl⟩ := answers
      rfl
  | save =>
      cases reply with
      | error failure =>
          obtain ⟨_, _, rfl⟩ := answers
          rfl
      | ok _ =>
          obtain ⟨_, _, rfl⟩ := answers
          rfl

end Scene

end Workflow
