import Workflow.Proofs.Crew.Timed
import Workflow.Proofs.Drain.Generator

/-!
# No two workers run a step of one process

As long as a worker runs its steps before its lease expires, nobody else can run a step
of the same process.  Whoever takes the lease over has read a time after its expiry, and
whoever goes on under a lease of its own must have made the last commit of the process.
-/

namespace Workflow

namespace Commit

variable {ω : Type} [DecidableEq ω]

/-- The last commit of a worker for a process. -/
def last? (worker : ω) (process : Uuid) (history : List (Commit ω)) : Option (Commit ω) :=
  history.find? fun commit => commit.worker = worker ∧ commit.scene.held.id = process

/-- The expiry with which the last commit of a worker has left a process. -/
def expiry? (worker : ω) (process : Uuid) (history : List (Commit ω)) : Option Timestamp := do
  let commit ← last? worker process history
  let stored ← commit.after.process? process
  stored.lease

variable {worker : ω} {process : Uuid} {history : List (Commit ω)} {commit : Commit ω}

theorem last?_cons_self :
    last? commit.worker commit.scene.held.id (commit :: history) = some commit := by
  simp [last?]

theorem last?_cons_of_other (other : worker ≠ commit.worker) :
    last? worker process (commit :: history) = last? worker process history := by
  simp [last?, Ne.symm other]

end Commit

namespace Crew

open Scene

variable {ω : Type} [DecidableEq ω] {habits : Habits} {clock : Timestamp} {crew next : Crew ω}
  {history : List (Commit ω)} {committed : Option (Commit ω)} {commit : Commit ω} {worker : ω}

/-- A worker runs a step of a process: it has turned to the executor and waits for the
outcome. -/
def IsInside (crew : Crew ω) (worker : ω) (process : Uuid) : Prop :=
  ∃ executor type types rest,
    (crew.desks worker).program = .ask (.execute executor process type types) rest

/-- The lease that a worker has last committed for a process has not expired. -/
def InTime (clock : Timestamp) (history : List (Commit ω)) (worker : ω) (process : Uuid) : Prop :=
  ∀ expiry, Commit.expiry? worker process history = some expiry → clock.instant ≤ expiry.instant

/-- What the last save of a worker has stored is what its last commit was. -/
def Records (crew : Crew ω) (history : List (Commit ω)) (worker : ω) : Prop :=
  ∀ rows earlier, (crew.desks worker).station.saves = .committed rows :: earlier →
    ∃ commit, Commit.last? worker (crew.desks worker).station.held.id history = some commit ∧
      commit.after = rows

/-- What the last save of a worker has stored is still there, or its lease has expired. -/
def Lasts (crew : Crew ω) (clock : Timestamp) (worker : ω) : Prop :=
  ∀ rows earlier base expiry,
    (crew.desks worker).station.saves = .committed rows :: earlier →
    (∀ saved ∈ earlier, saved.isCommitted) →
    rows.process? (crew.desks worker).station.held.id = some base → base.lease = some expiry →
    crew.rows.process? base.id = some base ∨ expiry.instant < clock.instant

/-! ### One move -/

theorem Records.move (sound : crew.Sound habits) (records : crew.Records history worker)
    (moved : Move habits crew committed next) :
    next.Records (committed.toList ++ history) worker := by
  intro rows earlier saves
  cases committed with
  | none =>
      rcases sound.saves_of_move_none moved worker with begun | ⟨_, _, failed⟩ | ⟨sameSaves, sameId⟩
      · cases begun.symm.trans saves
      · cases failed.symm.trans saves
      · rw [sameId]
        exact records rows earlier (sameSaves ▸ saves)
  | some commit =>
      obtain ⟨_, _, _, _, sameDesk, others⟩ := sound.maySave moved
      by_cases same : worker = commit.worker
      · subst same
        rw [sameDesk] at saves ⊢
        obtain ⟨rfl, _⟩ : commit.after = rows ∧ commit.scene.saves = earlier := by
          simpa [Scene.commit] using saves
        exact ⟨commit, Commit.last?_cons_self, rfl⟩
      · rw [others worker same] at saves ⊢
        obtain ⟨last, found, after⟩ := records rows earlier saves
        exact ⟨last, (Commit.last?_cons_of_other same).trans found, after⟩

theorem Lasts.of_other (sound : crew.Sound habits)
    (holds : ∀ worker, crew.Holds history worker)
    (orderly : ∀ worker, (crew.scene worker).IsOrderly clock) (lasts : crew.Lasts clock worker)
    (moved : Move habits crew (some commit) next) (other : worker ≠ commit.worker) :
    next.Lasts clock worker := by
  obtain ⟨isScene, maySave, commits, sameRows, _, others⟩ := sound.maySave moved
  intro rows earlier base expiry saves succeeded found lease
  rw [others worker other] at saves found
  rcases lasts rows earlier base expiry saves succeeded found lease with before | expired
  swap
  · exact .inr expired
  have orderly := orderly commit.worker
  rw [← isScene] at orderly
  have stored : commit.scene.rows.process? base.id = some base := isScene ▸ before
  by_cases sameProcess : base.id = commit.scene.held.id
  swap
  · rw [sameRows, Rows.process?_commit_of_changesOnly orderly.tidy sameProcess commits.1]
    exact .inl stored
  rw [sameProcess] at stored
  cases maySave.phase with
  | beginning now unsaved reading writes free =>
      obtain ⟨current, currentFound, unleased⟩ := free commit.after commits
      obtain rfl : current = base := Option.some.inj (currentFound.symm.trans stored)
      have past := orderly.reading now reading
      have unexpired : ¬now.instant ≤ expiry.instant := by
        intro unexpired
        have isLeased := Process.isLeased_iff.mpr ⟨expiry, lease, unexpired⟩
        simp [unleased] at isLeased
      exact .inr (by omega)
  | ending saves _ swallowed _ _ => exact absurd swallowed (orderly.not_ending saves)
  | @going ownRows ownEarlier ownBase ownSaves ownSucceeded ownFound _ current =>
      -- Both would have made the last commit of the process.
      obtain rfl : ownBase = base :=
        Option.some.inj ((current commit.after commits).symm.trans stored)
      have holder := (holds worker rows earlier ownBase saves succeeded found).2 before
      rw [isScene] at ownSaves ownFound
      have ownHolder := (holds commit.worker ownRows ownEarlier ownBase ownSaves ownSucceeded
        ownFound).2 before
      exact absurd (Option.some.inj (holder.symm.trans ownHolder)) other

theorem Lasts.move (sound : crew.Sound habits) (holds : ∀ worker, crew.Holds history worker)
    (orderly : ∀ worker, (crew.scene worker).IsOrderly clock)
    (lasts : ∀ worker, crew.Lasts clock worker)
    (moved : Move habits crew committed next) (worker : ω) : next.Lasts clock worker := by
  cases committed with
  | none =>
      intro rows earlier base expiry saves succeeded found lease
      rcases sound.saves_of_move_none moved worker with begun | ⟨_, _, failed⟩ | ⟨sameSaves, sameId⟩
      · cases begun.symm.trans saves
      · cases failed.symm.trans saves
      · rw [rows_of_move_none moved]
        rw [sameSaves] at saves
        rw [sameId] at found
        exact lasts worker rows earlier base expiry saves succeeded found lease
  | some commit =>
      by_cases same : worker = commit.worker
      · subst same
        obtain ⟨_, _, _, sameRows, sameDesk, _⟩ := sound.maySave moved
        intro rows earlier base expiry saves succeeded found lease
        rw [sameDesk] at saves found
        obtain ⟨rfl, _⟩ : commit.after = rows ∧ commit.scene.saves = earlier := by
          simpa [Scene.commit] using saves
        have baseId := Rows.id_of_process? found
        rw [sameRows, baseId]
        exact .inl found
      · exact Lasts.of_other sound holds orderly (lasts worker) moved same

/-! ### Whole runs -/

theorem TimedRuns.records (runs : TimedRuns habits crew clock history) (worker : ω) :
    crew.Records history worker := by
  induction runs with
  | start keyed held clock =>
      intro rows earlier saves
      cases saves
  | tick _ _ _ induction => exact induction
  | move runs moved induction => exact induction.move runs.runs.sound.1 moved.move

theorem TimedRuns.lasts (spares : habits.SpareProcesses)
    (runs : TimedRuns habits crew clock history) (worker : ω) : crew.Lasts clock worker := by
  induction runs generalizing worker with
  | start keyed held clock =>
      intro rows earlier base expiry saves
      cases saves
  | tick _ later onward induction =>
      intro rows earlier base expiry saves succeeded found lease
      rcases induction worker rows earlier base expiry saves succeeded found lease with
        stored | expired
      · exact .inl stored
      · exact .inr (Int.lt_of_lt_of_le expired onward)
  | move runs moved induction =>
      obtain ⟨sound, holds⟩ := runs.runs.sound
      exact Lasts.move sound holds (runs.isOrderly spares) induction moved.move worker

/-- Whoever is inside in time was the last to write the lease of the process. -/
theorem TimedRuns.holder_of_isInside (spares : habits.SpareProcesses)
    (runs : TimedRuns habits crew clock history) {id : Uuid} (inside : crew.IsInside worker id)
    (inTime : InTime clock history worker id) : Commit.holder? id history = some worker := by
  obtain ⟨sound, holds⟩ := runs.runs.sound
  obtain ⟨_, _, _, _, asks⟩ := inside
  obtain ⟨⟨rfl, isLeased, rows, earlier, saves, succeeded, found⟩, _⟩ := sound.ask asks
  obtain ⟨expiry, lease⟩ := Option.isSome_iff_exists.mp isLeased
  obtain ⟨commit, isLast, rfl⟩ := runs.records worker rows earlier saves
  have isExpiry : Commit.expiry? worker (crew.scene worker).held.id history = some expiry := by
    have stored : commit.after.process? (crew.scene worker).held.id = _ := found
    have last : Commit.last? worker (crew.scene worker).held.id history = some commit := isLast
    simp [Commit.expiry?, last, stored, lease]
  have unexpired := inTime expiry isExpiry
  rcases runs.lasts spares worker _ earlier _ expiry saves succeeded found lease with
    stored | expired
  · exact (holds worker _ earlier _ saves succeeded found).2 stored
  · omega

/-- **No two workers run a step of one process.**  Workers share a store and a clock that
never goes back, their saves fail only in lost races, and executors change the rows of no
processes.  Two workers that run a step of the same process, both no later than the
expiry that they have last committed for it, are the same. -/
theorem execution_exclusive (spares : habits.SpareProcesses)
    (runs : TimedRuns habits crew clock history) {first second : ω} {id : Uuid}
    (firstInside : crew.IsInside first id) (secondInside : crew.IsInside second id)
    (firstInTime : InTime clock history first id)
    (secondInTime : InTime clock history second id) : first = second := by
  have firstHolds := runs.holder_of_isInside spares firstInside firstInTime
  have secondHolds := runs.holder_of_isInside spares secondInside secondInTime
  exact Option.some.inj (firstHolds.symm.trans secondHolds)

/-- Two workers find the same process.  The first leases it and runs its step.  The second
tries to lease it too, but its save comes too late. -/
theorem exists_inside :
    ∃ (crew : Crew Bool) (clock : Timestamp) (history : List (Commit Bool)),
      TimedRuns .silent crew clock history ∧ crew.IsInside true (.ofNat 1) ∧
        InTime clock history true (.ofNat 1) := by
  let now : Timestamp := ⟨0, 0⟩
  let expiry : Timestamp := ⟨5, 0⟩
  let process := Process.fresh (.ofNat 1) .setupDim
  let leased : Process := ⟨process.id, .setupDim, 1, some expiry⟩
  let step := Step.fresh (.ofNat 2) .createSubaccount .todo process.id now
  let stored : Rows := ⟨[process], [step]⟩
  let registry : Registry := ⟨[⟨.setupDim, [.createSubaccount]⟩]⟩
  have keyed : stored.Keyed := ⟨by decide, by decide⟩
  have isStored : stored.process? process.id = some process := by decide
  have pending : Rows.pendingSteps ⟨[leased], [step]⟩ process.id = [⟨step.id, step.type⟩] := by
    simp [Rows.pendingSteps, step, Step.fresh, Step.isPending]
  have start : TimedRuns Habits.silent (⟨stored, fun _ => Desk.idle process⟩ : Crew Bool) now [] :=
    .start keyed (fun _ => process) now
  have found := (start.move (.find true isStored)).move (.find false isStored)
  -- The first worker leases the process.
  have first := found.move (.begin true registry (.ok 5) List.mem_cons_self rfl)
  have first := first.move (.answer true .held rfl process ⟨rfl, rfl⟩ trivial)
  have first := first.move (.answer true .now rfl now rfl rfl)
  have first := first.move (.answer true .held rfl process ⟨rfl, rfl⟩ trivial)
  have first := first.move
    (.answer true (.lease (.request expiry now)) rfl (.ok true) ⟨rfl, rfl⟩ trivial)
  have first := first.move (.answer true (.note _) rfl () rfl trivial)
  have first := first.move (.answer true .save rfl (.ok ())
    ⟨⟨[leased], [step]⟩, ⟨rfl, fun _ => Batch.isFresh_of_insertless rfl rfl⟩, rfl⟩ trivial)
  have first := first.move (.answer true .discard rfl () rfl trivial)
  -- The second worker comes too late.
  have second := first.move (.begin false registry (.ok 5) List.mem_cons_self rfl)
  have second := second.move (.answer false .held rfl process ⟨rfl, rfl⟩ trivial)
  have second := second.move (.answer false .now rfl now rfl rfl)
  have second := second.move (.answer false .held rfl process ⟨rfl, rfl⟩ trivial)
  have second := second.move
    (.answer false (.lease (.request expiry now)) rfl (.ok true) ⟨rfl, rfl⟩ trivial)
  have second := second.move (.answer false (.note _) rfl () rfl trivial)
  have second := second.move (.answer false .save rfl (.error (.staleProcess process.id 0))
    ⟨[], .inl rfl, rfl⟩ rfl)
  -- The first worker runs the step.
  have inside := second.move (.answer true (.pendingSteps _) rfl (.ok [⟨step.id, step.type⟩])
    ⟨fun _ _ => trivial, fun _ replied => by cases replied; exact pending.symm, rfl⟩ trivial)
  have inside := inside.move (.answer true (.stepTypes _) rfl (.ok [step.type])
    ⟨fun _ _ => trivial, fun _ replied => by cases replied; rfl, rfl⟩ trivial)
  have inside := inside.move (.answer true (.prepare _ _ _) rfl (.ok ⟨false, none⟩)
    ⟨fun _ _ => trivial, [], by simp, rfl⟩ trivial)
  have inside := inside.move (.answer true .discard rfl () rfl trivial)
  have inside := inside.move (.answer true .isCancelled
    (congrArg (fun queue : Action Unit => ((Program.bind queue.run _).bind _).bind _)
      (Drain.goOn_eq (.ready _))) false rfl trivial)
  have inside := inside.move (.answer true (.needsLease _ _) rfl (.ok false)
    ⟨fun _ _ => trivial, [], by simp, rfl⟩ trivial)
  refine ⟨_, now, _, inside, ⟨.setupDim, step.type, [step.type], _, rfl⟩, ?_⟩
  intro last isLast
  cases isLast
  decide

/-- Nobody else is inside together with the first worker. -/
theorem execution_exclusive_of_two :
    ∃ (crew : Crew Bool) (clock : Timestamp) (history : List (Commit Bool)),
      TimedRuns .silent crew clock history ∧ crew.IsInside true (.ofNat 1) ∧
        ∀ other, crew.IsInside other (.ofNat 1) → InTime clock history other (.ofNat 1) →
          other = true := by
  obtain ⟨crew, clock, history, runs, inside, inTime⟩ := exists_inside
  refine ⟨crew, clock, history, runs, inside, fun other otherInside otherInTime => ?_⟩
  exact execution_exclusive Habits.silent_spareProcesses runs otherInside inside otherInTime inTime

end Crew

end Workflow
