import Workflow.Proofs.Crew.Basic

/-!
# Taking a lease away

As long as no save of its attempt has failed, a worker never takes away a lease that
another worker has set and that has not expired: its commits expect the version that
its own last commit has stored.  After a failed save its copy has a version that it
has not stored.  If somebody else stores this version in the meantime, then giving
back the lease takes effect, and the lease that is given back is somebody else's.
-/

namespace Workflow

namespace Commit

variable {ω : Type}

/-- The worker whose commit was the last one to write the lease of a process. -/
def holder? (process : Uuid) (history : List (Commit ω)) : Option ω :=
  (history.find? fun commit => Batch.writesLease process commit.scene.staged).map worker

/-- A commit meets a lease that another worker has set and that has not expired at the
last reading of the clock. -/
def MeetsLease (history : List (Commit ω)) (commit : Commit ω) : Prop :=
  ∃ stored expiry holder,
    commit.scene.rows.process? commit.scene.held.id = some stored ∧
      stored.lease = some expiry ∧
      (∀ now, commit.scene.reading = some now → now.instant ≤ expiry.instant) ∧
      holder? commit.scene.held.id history = some holder ∧ holder ≠ commit.worker

/-- A commit clears or overwrites a lease that it meets. -/
def TakesLease (history : List (Commit ω)) (commit : Commit ω) : Prop :=
  commit.MeetsLease history ∧ Batch.writesLease commit.scene.held.id commit.scene.staged

/-- A save of the same attempt has failed before. -/
def FollowsFailure (commit : Commit ω) : Prop :=
  ∃ saved ∈ commit.scene.saves, saved.isCommitted = false

variable {history : List (Commit ω)} {commit : Commit ω} {id : Uuid}

theorem holder?_cons_of_writes (writes : Batch.writesLease id commit.scene.staged) :
    holder? id (commit :: history) = some commit.worker := by
  simp [holder?, writes]

theorem holder?_cons_of_keeps (keeps : ¬Batch.writesLease id commit.scene.staged) :
    holder? id (commit :: history) = holder? id history := by
  simp [holder?, keeps]

end Commit

theorem Batch.updates_of_writesLease {id : Uuid} {batch : Batch}
    (writes : Batch.writesLease id batch) : Batch.Updates id batch := by
  obtain ⟨change, member, writes⟩ := List.any_eq_true.mp writes
  cases change with
  | updateProcess target expected update =>
      obtain ⟨version, lease⟩ := update
      cases lease with
      | keep => cases writes
      | write lease =>
          have same : target = id := by simpa [Change.writesLease] using writes
          exact ⟨expected, _, same ▸ member⟩
  | insertProcess _ | insertStep _ | updateStep _ _ _ | deleteStep _ => cases writes

namespace Crew

open Scene

variable {ω : Type} [DecidableEq ω] {habits : Habits} {crew next : Crew ω} {worker : ω}
  {history : List (Commit ω)} {committed : Option (Commit ω)} {commit : Commit ω}

/-- What can come about from any store, with the commits made so far, latest first. -/
inductive Runs (habits : Habits) : Crew ω → List (Commit ω) → Prop where
  | start {rows : Rows} (keyed : rows.Keyed) (held : ω → Process) :
      Runs habits ⟨rows, fun worker => Desk.idle (held worker)⟩ []
  | move {crew next : Crew ω} {history : List (Commit ω)} {committed : Option (Commit ω)} :
      Runs habits crew history → Move habits crew committed next →
        Runs habits next (committed.toList ++ history)

/-- If all saves of an attempt were committed and nobody has written since, then it was
this worker who set the lease. -/
def Holds (crew : Crew ω) (history : List (Commit ω)) (worker : ω) : Prop :=
  ∀ rows earlier base, (crew.desks worker).station.saves = .committed rows :: earlier →
    (∀ saved ∈ earlier, saved.isCommitted) →
    rows.process? (crew.desks worker).station.held.id = some base →
    crew.rows.Anchors base ∧
      (crew.rows.process? base.id = some base →
        Commit.holder? base.id history = some worker)

/-- Whoever keeps to the rules and has not failed holds the lease that it writes. -/
theorem Holds.of_commit (sound : crew.Sound habits)
    (holds : crew.Holds history commit.worker)
    (moved : Move habits crew (some commit) next) :
    next.Holds (commit :: history) commit.worker := by
  obtain ⟨isScene, maySave, commits, sameRows, sameDesk, _⟩ := sound.maySave moved
  intro rows earlier base saves succeeded found
  rw [sameDesk] at saves found
  obtain ⟨rfl, rfl⟩ : commit.after = rows ∧ commit.scene.saves = earlier := by
    simpa [Scene.commit] using saves
  have baseId : base.id = commit.scene.held.id := Rows.id_of_process? found
  refine ⟨sameRows ▸ Rows.anchors_of_process? found, fun _ => ?_⟩
  by_cases writes : Batch.writesLease base.id commit.scene.staged
  · exact Commit.holder?_cons_of_writes writes
  · rw [Commit.holder?_cons_of_keeps writes]
    cases maySave.phase with
    | beginning now unsaved reading writesFirst free => exact absurd (baseId ▸ writesFirst) writes
    | ending saves _ _ _ _ =>
        have failed := succeeded _ (saves ▸ List.mem_cons_self)
        cases failed
    | going saves succeeded found leased current =>
        have lastFound := current commit.after commits
        rw [isScene] at saves found lastFound baseId
        have lastId := Rows.id_of_process? found
        obtain ⟨_, holder⟩ := holds _ _ _ saves succeeded found
        have holder := holder (lastId.symm ▸ lastFound)
        rwa [lastId, ← baseId] at holder

/-- A commit of somebody else outdates what a worker has stored. -/
theorem Holds.of_other (sound : crew.Sound habits) (holds : crew.Holds history worker)
    (moved : Move habits crew (some commit) next) (other : worker ≠ commit.worker) :
    next.Holds (commit :: history) worker := by
  obtain ⟨isScene, maySave, commits, sameRows, _, others⟩ := sound.maySave moved
  intro rows earlier base saves succeeded found
  rw [others worker other] at saves found
  obtain ⟨anchored, holder⟩ := holds rows earlier base saves succeeded found
  have advances := sound.advances moved base.id
  refine ⟨anchored.advance advances, fun current => ?_⟩
  obtain ⟨before, _⟩ := anchored.current_of_advances advances current
  rw [Commit.holder?_cons_of_keeps, holder before]
  intro writes
  rw [isScene] at maySave commits writes
  obtain ⟨final, followed, finalFound⟩ := Rows.process?_commit commits.1 before
  have raised := Batch.version_lt_of_processAfter? maySave.raises ?_ followed
    (Batch.updates_of_writesLease writes)
  · rw [sameRows, finalFound] at current
    cases current
    exact Int.lt_irrefl _ raised
  · intro inserted member same
    have absent := maySave.process?_inserted commits member
    rw [same] at absent
    exact absurd (before.symm.trans absent) (by simp)

theorem Holds.of_none (sound : crew.Sound habits) (holds : ∀ worker, crew.Holds history worker)
    (moved : Move habits crew none next) (worker : ω) : next.Holds history worker := by
  intro rows earlier base saves succeeded found
  rcases sound.saves_of_move_none moved worker with begun | ⟨_, _, failed⟩ | ⟨sameSaves, sameId⟩
  · cases begun.symm.trans saves
  · cases failed.symm.trans saves
  · rw [sameSaves] at saves
    rw [sameId] at found
    rw [rows_of_move_none moved]
    exact holds worker rows earlier base saves succeeded found

theorem Runs.sound (runs : Runs habits crew history) :
    crew.Sound habits ∧ ∀ worker, crew.Holds history worker := by
  induction runs with
  | start keyed held =>
      refine ⟨sound_idle keyed held, ?_⟩
      intro worker rows earlier base saves
      cases saves
  | @move crew next history committed _ moved induction =>
      obtain ⟨sound, holds⟩ := induction
      refine ⟨sound.move moved, fun worker => ?_⟩
      cases committed with
      | none => exact Holds.of_none sound holds moved worker
      | some commit =>
          by_cases same : worker = commit.worker
          · exact same ▸ Holds.of_commit sound (holds commit.worker) moved
          · exact Holds.of_other sound (holds worker) moved same

/-- **Only after a failed save is a lease taken away.**  A commit takes away an
unexpired lease of another worker exactly if it meets one and a save of the same
attempt has failed before.  It then leaves the process without a lease. -/
theorem takesLease_iff (runs : Runs habits crew history)
    (moved : Move habits crew (some commit) next) :
    (commit.TakesLease history ↔ commit.MeetsLease history ∧ commit.FollowsFailure) ∧
      (commit.TakesLease history → ∃ final,
        commit.after.process? commit.scene.held.id = some final ∧ final.lease = none) := by
  obtain ⟨sound, holds⟩ := runs.sound
  obtain ⟨isScene, maySave, commits, _⟩ := sound.maySave moved
  cases maySave.phase with
  | beginning now unsaved reading writes free =>
      have unmet : ¬commit.MeetsLease history := by
        intro meets
        obtain ⟨stored, expiry, _, found, leased, unexpired, _⟩ := meets
        obtain ⟨other, otherFound, isFree⟩ := free commit.after commits
        obtain rfl : other = stored := Option.some.inj (otherFound.symm.trans found)
        have isLeased := Process.isLeased_iff.mpr ⟨expiry, leased, unexpired now reading⟩
        simp [isFree] at isLeased
      exact ⟨⟨fun takes => absurd takes.1 unmet, fun meets => absurd meets.1 unmet⟩,
        fun takes => absurd takes.1 unmet⟩
  | going saves succeeded found leased current =>
      have unmet : ¬commit.MeetsLease history := by
        intro meets
        obtain ⟨stored, expiry, holder, storedFound, _, _, isHolder, different⟩ := meets
        have lastFound := current commit.after commits
        rw [isScene] at saves found lastFound isHolder
        have lastId := Rows.id_of_process? found
        obtain ⟨_, own⟩ := holds commit.worker _ _ _ saves succeeded found
        have own := own (lastId.symm ▸ lastFound)
        rw [lastId] at own
        exact different (Option.some.inj (isHolder.symm.trans own))
      exact ⟨⟨fun takes => absurd takes.1 unmet, fun meets => absurd meets.1 unmet⟩,
        fun takes => absurd takes.1 unmet⟩
  | ending saves _ _ staged _ =>
      have failed : commit.FollowsFailure := ⟨_, saves ▸ List.mem_cons_self, rfl⟩
      have writes : Batch.writesLease commit.scene.held.id commit.scene.staged := by
        simp [staged, Batch.writesLease, Change.writesLease]
      refine ⟨⟨fun takes => ⟨takes.1, failed⟩, fun meets => ⟨meets.1, writes⟩⟩, ?_⟩
      intro meets
      obtain ⟨⟨stored, _, _, found, _⟩, _⟩ := meets
      obtain ⟨final, followed, finalFound⟩ := Rows.process?_commit commits.1 found
      refine ⟨final, finalFound, ?_⟩
      have storedId := Rows.id_of_process? found
      rw [staged, Batch.processAfter?_cons, Change.processAfter?, storedId] at followed
      simp only [if_true] at followed
      split at followed
      · cases followed
        rfl
      · cases followed

/-- Two workers find the same process.  The first leases it.  The second fails to save its
own lease and gives back what it has never had, under the version that the first one
has stored. -/
theorem exists_meetsLease_after_failure :
    ∃ (crew : Crew Bool) (history : List (Commit Bool)) (commit : Commit Bool)
      (next : Crew Bool), Runs .stepless crew history ∧ Move .stepless crew (some commit) next ∧
        commit.MeetsLease history ∧ commit.FollowsFailure ∧
        Batch.writesLease commit.scene.held.id commit.scene.staged := by
  let now : Timestamp := ⟨0, 0⟩
  let expiry : Timestamp := ⟨5, 0⟩
  let process := Process.fresh (.ofNat 1) .setupDim
  let stored : Rows := ⟨[process], []⟩
  let leased : Rows := ⟨[⟨process.id, .setupDim, 1, some expiry⟩], []⟩
  let released : Rows := ⟨[⟨process.id, .setupDim, 2, none⟩], []⟩
  let failure := Failure.reported .runtime "storage is down"
  have fresh : ∀ {rows : Rows} {expected : Int} {update : ProcessUpdate},
      Batch.IsFresh rows [.updateProcess process.id expected update] :=
    Batch.isFresh_of_insertless rfl rfl
  have keyed : stored.Keyed := ⟨by decide, by decide⟩
  have isStored : stored.process? process.id = some process := by decide
  have start : Runs Habits.stepless (⟨stored, fun _ => Desk.idle process⟩ : Crew Bool) [] :=
    .start keyed fun _ => process
  have found := (start.move (.find true isStored)).move (.find false isStored)
  -- The first worker leases the process.
  have first := found.move (.begin true ⟨[]⟩ (.ok 5) List.mem_cons_self rfl)
  have first := first.move (.answer true .held rfl process ⟨rfl, rfl⟩)
  have first := first.move (.answer true .now rfl now rfl)
  have first := first.move (.answer true .held rfl process ⟨rfl, rfl⟩)
  have first := first.move (.answer true (.lease (.request expiry now)) rfl (.ok true) ⟨rfl, rfl⟩)
  have first := first.move (.answer true (.note _) rfl () rfl)
  have first := first.move
    (.answer true .save rfl (.ok ()) ⟨leased, ⟨rfl, fun _ => fresh⟩, rfl⟩)
  -- The second worker still takes it to be free, and its save fails.
  have second := first.move (.begin false ⟨[]⟩ (.ok 5) List.mem_cons_self rfl)
  have second := second.move (.answer false .held rfl process ⟨rfl, rfl⟩)
  have second := second.move (.answer false .now rfl now rfl)
  have second := second.move (.answer false .held rfl process ⟨rfl, rfl⟩)
  have second := second.move
    (.answer false (.lease (.request expiry now)) rfl (.ok true) ⟨rfl, rfl⟩)
  have second := second.move (.answer false (.note _) rfl () rfl)
  have second := second.move (.answer false .save rfl (.error failure) ⟨[], .inl rfl, rfl⟩)
  have second := second.move (.answer false .discard rfl () rfl)
  have second := second.move (.answer false .discard rfl () rfl)
  have second := second.move (.answer false (.note _) rfl () rfl)
  have second := second.move (.answer false (.lease .release) rfl (.ok true) ⟨rfl, rfl⟩)
  refine ⟨_, _, _, _, second,
    .answer false .save rfl (.ok ()) ⟨released, ⟨rfl, fun _ => fresh⟩, rfl⟩, ?_, ?_, rfl⟩
  · refine ⟨_, expiry, true, rfl, rfl, ?_, rfl, by decide⟩
    intro _ isReading
    cases isReading
    decide
  · exact ⟨.failed failure, List.mem_cons_self, rfl⟩

/-- A worker can take away an unexpired lease of another worker. -/
theorem exists_takesLease :
    ∃ (crew : Crew Bool) (history : List (Commit Bool)) (commit : Commit Bool)
      (next : Crew Bool), Runs .stepless crew history ∧ Move .stepless crew (some commit) next ∧
        commit.TakesLease history := by
  obtain ⟨crew, history, commit, next, runs, moved, meets, _, writes⟩ :=
    exists_meetsLease_after_failure
  exact ⟨crew, history, commit, next, runs, moved, meets, writes⟩

/-- What is taken away after a failed save is gone. -/
theorem exists_takesLease_leaving_none :
    ∃ (crew : Crew Bool) (history : List (Commit Bool)) (commit : Commit Bool)
      (next : Crew Bool), Runs .stepless crew history ∧ Move .stepless crew (some commit) next ∧
        commit.TakesLease history ∧ ∃ final,
          commit.after.process? commit.scene.held.id = some final ∧ final.lease = none := by
  obtain ⟨crew, history, commit, next, runs, moved, meets, failed, _⟩ :=
    exists_meetsLease_after_failure
  obtain ⟨takes, gone⟩ := takesLease_iff runs moved
  have taken := takes.mpr ⟨meets, failed⟩
  exact ⟨crew, history, commit, next, runs, moved, taken, gone taken⟩

end Crew

end Workflow
