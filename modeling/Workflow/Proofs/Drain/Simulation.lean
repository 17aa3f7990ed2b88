import Workflow.Proofs.Drain.Yield

/-!
# The agenda simulates the store

Whoever drains a process deals with every result before asking for the next one: what
is to be saved is committed, and what has changed nothing is dropped.  As long as
nobody else writes the process, the agenda of the drain is then, after each result, the
picture of the stored steps.
-/

namespace Workflow

/-- A result that a drain has yielded is dealt with.  Others may write, but not the
process of the drain. -/
inductive Scene.Handles (habits : Habits) (id : Uuid) (yielded : Scene) :
    DrainResult → Scene → Prop where
  /-- What is staged is committed, together with changes of processes. -/
  | saved {later handled : Scene} {further : Batch}
      (undisturbed : yielded.Undisturbed id later)
      (concerned : ∀ change ∈ further, change.concernsProcess)
      (commits : (later.stage further).Commits habits handled.rows)
      (unstaged : handled.staged = []) :
      Handles habits id yielded .saveRequested handled
  /-- What is staged is dropped. -/
  | dropped {later handled : Scene} (undisturbed : yielded.Undisturbed id later)
      (rows : handled.rows = later.rows) (unstaged : handled.staged = []) :
      Handles habits id yielded .unmodified handled
  /-- The lease is renewed, or not; the steps stay as they are. -/
  | renewed {handled : Scene} (keyed : yielded.rows.Keyed → handled.rows.Keyed)
      (steps : handled.rows.owned id = yielded.rows.owned id)
      (staged : ∀ change ∈ handled.staged, change ∈ yielded.staged) :
      Handles habits id yielded .leaseRequested handled

namespace Drain

variable {habits : Habits} {registry : Registry} {id : Uuid} {type : ProcessType}
  {start scene handled : Scene} {result : DrainResult} {halt : Halt} {origin : List Step}
  {log : List Exchange}

/-- A drain yields a result, after all earlier ones have been dealt with. -/
inductive Yielded (habits : Habits) (registry : Registry) (id : Uuid) (type : ProcessType)
    (start : Scene) : DrainResult → Halt → Scene → Prop where
  | first {log : List Exchange} {result : DrainResult} {halt : Halt} {scene : Scene}
      (reaches : (registry.begin id type).run.Reaches habits id start log
        (.done (.ok (result, halt))) scene) :
      Yielded habits registry id type start result halt scene
  | next {log : List Exchange} {result nextResult : DrainResult} {halt nextHalt : Halt}
      {scene handled nextScene : Scene}
      (yielded : Yielded habits registry id type start result halt scene)
      (handles : scene.Handles habits id result handled)
      (reaches : (resume type id halt).run.Reaches habits id handled log
        (.done (.ok (some (nextResult, nextHalt)))) nextScene) :
      Yielded habits registry id type start nextResult nextHalt nextScene

theorem settled_of_clean (keyed : scene.rows.Keyed)
    (clean : Passage.Clean habits.mayStage id ⟨scene, []⟩) :
    Settled habits.mayStage id (scene.rows.owned id) ⟨scene, []⟩ :=
  ⟨keyed, .nil, clean⟩

/-- Once a result has been dealt with, the agenda mirrors the stored steps and nothing
that concerns them is staged. -/
theorem Yields.handle (newIds : habits.newIds)
    (yields : Yields habits.mayStage id origin result halt ⟨scene, log⟩)
    (handles : scene.Handles habits id result handled) :
    handled.rows.Keyed ∧ halt.Mirrors (handled.rows.owned id) ∧
      Passage.Clean habits.mayStage id ⟨handled, []⟩ := by
  have keyed := yields.accounted.keyed
  cases handles with
  | @saved later _ further undisturbed concerned commits unstaged =>
      have laterKeyed := undisturbed.keyed keyed
      have spared : ∀ steps, Batch.ownedAfter id further steps = steps := fun steps =>
        Batch.ownedAfter_of_spares fun change member =>
          Change.spares_of_concernsProcess (concerned change member)
      have sameStaged : later.staged = scene.staged :=
        congrArg Station.staged undisturbed.station
      have steps : handled.rows.owned id = Passage.draft id ⟨scene, log⟩ := by
        have committed : handled.rows.owned id =
            Batch.ownedAfter id (later.staged ++ further) (later.rows.owned id) :=
          Rows.owned_commit_eq laterKeyed (commits.2 newIds) commits.1
        rw [committed, Batch.ownedAfter_append, spared, sameStaged, undisturbed.steps]
        rfl
      exact ⟨Rows.keyed_commit laterKeyed commits.1, steps ▸ yields.mirrors,
        Passage.clean_of_unstaged unstaged⟩
  | dropped undisturbed rows unstaged =>
      have steps := (yields.clean (by simp)).draft_eq
      refine ⟨rows ▸ undisturbed.keyed keyed, ?_, Passage.clean_of_unstaged unstaged⟩
      rw [rows, undisturbed.steps]
      exact steps ▸ yields.mirrors
  | renewed keyedStill steps staged =>
      have clean := yields.clean (by simp)
      refine ⟨keyedStill keyed, ?_, ?_⟩
      · rw [steps]
        exact clean.draft_eq ▸ yields.mirrors
      · intro change member
        have before := clean change (staged change member)
        exact ⟨before.1, steps ▸ before.2⟩

theorem Yielded.yields (newIds : habits.newIds) (keyed : start.rows.Keyed)
    (unstaged : start.staged = [])
    (yielded : Yielded habits registry id type start result halt scene) :
    ∃ origin log, Yields habits.mayStage id origin result halt ⟨scene, log⟩ := by
  induction yielded with
  | first reaches =>
      have settled := @settled_of_clean habits id start keyed (Passage.clean_of_unstaged unstaged)
      exact ⟨_, _, reaches.obeys (registry.begin_obeys (fun _ mayStage => mayStage) settled)⟩
  | next _ handles reaches induction =>
      obtain ⟨_, _, yields⟩ := induction
      obtain ⟨keyed, mirrors, clean⟩ := yields.handle newIds handles
      have obeys := resume_obeys type (fun _ mayStage => mayStage)
        ⟨settled_of_clean keyed clean, mirrors⟩
      exact ⟨_, _, (reaches.obeys obeys).1⟩

/-- **The agenda simulates the store.**  After each result has been dealt with, the
agenda lists exactly the stored pending steps, by type and oldest first, and knows
exactly the types of all stored steps; the types still to be run are among those
listed.  When a result has changed nothing, then executors have staged whatever is
staged, and nothing of it concerns a step of the process.  Generated identifiers are
new. -/
theorem agenda_mirrors_store (newIds : habits.newIds) (keyed : start.rows.Keyed)
    (unstaged : start.staged = [])
    (yielded : Yielded habits registry id type start result halt scene) :
    (result = .unmodified → ∀ change ∈ scene.staged,
        habits.mayStage change ∧ change.Spares id (scene.rows.owned id)) ∧
      ∀ handled, scene.Handles habits id result handled →
        halt.agenda.Mirrors (handled.rows.owned id) := by
  obtain ⟨origin, log, yields⟩ := yielded.yields newIds keyed unstaged
  constructor
  · intro unmodified
    exact yields.clean (by simp [unmodified])
  · intro handled handles
    exact (yields.handle newIds handles).2.1.toAgenda

/-- An executor finishes the only step of a process and schedules another one.  Both are
committed. -/
theorem exists_yielded :
    ∃ (start scene handled : Scene) (halt : Halt), start.rows.Keyed ∧ start.staged = [] ∧
      Yielded .stepless ⟨[⟨.setupDim, [.createSubaccount]⟩]⟩ (.ofNat 1) .setupDim start
        .saveRequested halt scene ∧
      scene.Handles .stepless (.ofNat 1) .saveRequested handled ∧
      halt.agenda.pending = [(.createServicemanagerBindings, [.ofNat 3])] := by
  let now : Timestamp := ⟨0, 0⟩
  let process := Process.fresh (.ofNat 1) .setupDim
  let step := Step.fresh (.ofNat 2) .createSubaccount .todo process.id now
  let scheduled := Step.fresh (.ofNat 3) .createServicemanagerBindings .todo process.id now
  let finish := StepUpdate.resolve .done none
  let rows : Rows := ⟨[process], [step]⟩
  let start : Scene := ⟨⟨process, [], none, []⟩, rows⟩
  let registry : Registry := ⟨[⟨.setupDim, [.createSubaccount]⟩]⟩
  let agenda : Agenda := ⟨[(step.type, [step.id])], [step.type], [step.type], [step.type]⟩
  have keyed : rows.Keyed := ⟨by decide, by decide⟩
  have mayFail : ∀ failure, Habits.stepless.mayFail failure := fun _ => trivial
  have pending : rows.pendingSteps process.id = [⟨step.id, step.type⟩] := by
    simp [Rows.pendingSteps, rows, step, Step.fresh, Step.isPending]
  -- The process is prepared, which changes nothing.
  have begins : (registry.begin process.id .setupDim).run.Reaches .stepless process.id start []
      (registry.begin process.id .setupDim).run start := .start
  have begins := begins.answer (.pendingSteps _) rfl (.ok [⟨step.id, step.type⟩])
    ⟨fun _ _ => trivial, fun _ replied => by cases replied; exact pending.symm, rfl⟩ rfl
  have begins := begins.answer (.stepTypes _) rfl (.ok [step.type])
    ⟨fun _ _ => trivial, fun _ replied => by cases replied; rfl, rfl⟩ rfl
  have begins := begins.executor (.prepare _ _ _) rfl (.ok ⟨false, none⟩) mayFail rfl
  have first : Yielded .stepless registry process.id .setupDim start .unmodified
      (.ready agenda) start := .first begins
  have dropped : start.Handles .stepless process.id .unmodified start :=
    .dropped (.refl _ start) rfl rfl
  -- The step is run.
  have resumes : (resume .setupDim process.id (.ready agenda)).run.Reaches .stepless process.id
      start [] (resume .setupDim process.id (.ready agenda)).run start := .start
  have resumes := resumes.answer .isCancelled rfl false rfl rfl
  have resumes := resumes.executor (.needsLease _ _) rfl (.ok false) mayFail rfl
  have resumes := resumes.executor (.execute _ _ _ _) rfl
    (.ok ⟨false, .done, some [scheduled.type], none, none⟩) mayFail rfl
  have resumes := resumes.answer (.stageUpdates _) rfl () ⟨fun _ => now, rfl⟩ rfl
  have resumes := resumes.answer (.stageStep _ _) rfl scheduled.id ⟨now, rfl⟩ rfl
  have resumes := resumes.answer (.note _) rfl () rfl rfl
  have second : Yielded .stepless registry process.id .setupDim start .saveRequested
      (.ready ⟨[(scheduled.type, [scheduled.id])], [scheduled.type, step.type], [], [step.type]⟩)
      _ := .next first dropped resumes
  refine ⟨start, _, start.commit ⟨[process], [finish.apply now step, scheduled]⟩, _, keyed, rfl,
    second, ?_, rfl⟩
  have nothing : ∀ change ∈ ([] : Batch), change.concernsProcess := by simp
  refine .saved (.refl _ _) nothing ⟨rfl, fun _ => ?_⟩ rfl
  constructor <;> decide

/-- The agenda lists the step that has been scheduled, and so does the store. -/
theorem agenda_mirrors_scheduled_step :
    ∃ (halt : Halt) (handled : Scene),
      halt.agenda.pending = [(.createServicemanagerBindings, [.ofNat 3])] ∧
        halt.agenda.Mirrors (handled.rows.owned (.ofNat 1)) := by
  obtain ⟨start, scene, handled, halt, keyed, unstaged, yielded, handles, pending⟩ :=
    exists_yielded
  have simulates := (agenda_mirrors_store trivial keyed unstaged yielded).2
  exact ⟨halt, handled, pending, simulates handled handles⟩

end Drain

end Workflow
