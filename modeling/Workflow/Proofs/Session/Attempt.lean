import Workflow.Proofs.Attempt.Alone
import Workflow.Proofs.Lease.Race
import Workflow.Proofs.Session.World
import Workflow.Session.Work

/-!
# Sessions as scenes

A session that keeps its rows in memory answers the requests of a program as a scene
does, whatever the faults and whatever the time, as long as its executors play their
scripts without any deeds of others.  An attempt in such a session therefore is an
attempt that is left alone.
-/

namespace Workflow

/-- Executors stage nothing of their own. -/
def Habits.idle : Habits where
  mayStage _ := False
  mayFail _ := True
  newIds := False
  guarded := False
  raises := @silent.raises
  insertsNew impossible := impossible.elim
  newIds_of_guarded impossible := impossible
  concernsProcess impossible := impossible.elim

namespace Scene

variable {habits : Habits} {scene : Scene} {operation : LeaseOp}

theorem answers_lease_of_ok {process : Process} {batch : Batch}
    (performed : operation.perform scene.held = .ok (process, batch)) :
    scene.Answers habits (.lease operation) (.ok (!batch.isEmpty))
      ((scene.hold process).stage batch) := by
  simp [Answers, performed]

theorem answers_lease_of_error {failure : Failure}
    (refused : operation.perform scene.held = .error failure) :
    scene.Answers habits (.lease operation) (.error failure) scene := by
  simp [Answers, refused]

theorem stage_nil : scene.stage [] = scene := by
  rw [stage, List.append_nil]

theorem commits_of_unstaged (unstaged : scene.staged = []) :
    scene.Commits habits scene.rows := by
  constructor
  · rw [unstaged]
    rfl
  · intro _
    rw [unstaged]
    exact Batch.isFresh_of_insertless rfl rfl

end Scene

namespace Session

variable {doer : Doer}

namespace Script

variable {script : Script} {event : Event} {interlude : Interlude} {process : Uuid}
  {type : StepType} {types : List StepType}

/-- A script without any deeds of others. -/
structure IsSolitary (script : Script) : Prop where
  preparation : script.preparation.interlude.orders = []
  outcomes : ∀ type outcomes, script.outcomes.lookup type = some outcomes →
    ∀ outcome ∈ outcomes, outcome.interlude.orders = []

theorem isQuiet_playInterlude (solitary : interlude.orders = []) :
    Act.IsQuiet (playInterlude doer event interlude) := by
  have ended : ∀ outcome : Except Failure Unit, Act.IsQuiet (do
      Act.sleep (interlude.delay.getD 0)
      return outcome : Act (Except Failure Unit)) :=
    fun outcome => (Act.isQuiet_sleep _).bind fun _ => .pure outcome
  unfold playInterlude
  rw [solitary]
  apply (Act.isQuiet_record event).bind
  intro _
  cases interlude.failure with
  | none =>
      cases interlude.cancels with
      | false => exact ended (.ok ())
      | true => exact Act.isQuiet_cancel.bind fun _ => ended (.ok ())
  | some failure =>
      cases interlude.cancels with
      | false => exact ended (.error failure)
      | true => exact Act.isQuiet_cancel.bind fun _ => ended (.error failure)

theorem take_run (type : StepType) (world : World) :
    world.Alike ((script.take type).run world).2 ∧
      ((script.take type).run world).1 = (script.outcomes.lookup type).bind fun outcomes =>
        outcomes[min ((world.taken.lookup (script.name, type)).getD 0) (outcomes.length - 1)]? := by
  unfold take
  cases script.outcomes.lookup type with
  | none => exact ⟨⟨rfl, rfl, rfl⟩, rfl⟩
  | some outcomes => exact ⟨⟨rfl, rfl, rfl⟩, rfl⟩

theorem orders_of_take (solitary : script.IsSolitary) (type : StepType) (world : World)
    {outcome : StepScript} (taken : ((script.take type).run world).1 = some outcome) :
    outcome.interlude.orders = [] := by
  rw [(take_run type world).2] at taken
  obtain ⟨outcomes, found, isOutcome⟩ := Option.bind_eq_some_iff.mp taken
  exact solitary.outcomes type outcomes found outcome (List.mem_of_getElem? isOutcome)

theorem isQuiet_runStep (solitary : script.IsSolitary) :
    Act.IsQuiet (script.runStep doer process type types) := by
  let possible : Option StepScript → Prop :=
    fun taken => ∀ outcome, taken = some outcome → outcome.interlude.orders = []
  have valued : ∀ world, possible ((script.take type).run world).1 :=
    fun world _ taken => orders_of_take solitary type world taken
  unfold runStep
  apply Act.IsQuiet.bind_of_value (fun world => (take_run type world).1) valued
  intro taken silent
  cases taken with
  | none => exact .pure _
  | some outcome =>
      apply Act.isQuiet_now.bind
      intro now
      exact (isQuiet_playInterlude (silent outcome rfl)).bind fun _ => .pure _

theorem isQuiet_execute (solitary : script.IsSolitary) :
    Act.IsQuiet (script.execute doer process type types) := by
  have runs := @isQuiet_runStep doer script process type types solitary
  unfold execute
  cases script.kind with
  | direct => exact runs
  | handlers =>
      simp only [Handlers.execute]
      cases script.handlers.find? type with
      | none => exact .pure _
      | some _ =>
          apply runs.bind
          intro result
          cases result with
          | ok result => exact .pure _
          | error failure =>
              simp only
              cases Handlers.afterFailure process type failure with
              | error failure => exact .pure _
              | ok outcome => exact .bind (Act.isQuiet_note _) fun _ => .pure _

theorem isQuiet_prepare (solitary : script.IsSolitary) :
    Act.IsQuiet (script.prepare doer process types) := by
  unfold prepare
  cases script.kind with
  | direct | handlers =>
      apply Act.isQuiet_now.bind
      intro now
      exact (isQuiet_playInterlude solitary.preparation).bind fun _ => .pure _

end Script

namespace Post

variable {post : Post} {running : Running} {world after : World} {scene : Scene}
  {habits : Habits} {id : Uuid}

/-- Neither executors nor consumers let others do anything. -/
structure IsSolitary (post : Post) : Prop where
  scripts : ∀ script ∈ post.scripts, script.IsSolitary
  consult : ∀ result count, Act.IsQuiet (post.consult result count)

theorem IsSolitary.script (solitary : post.IsSolitary) {type : ProcessType} {script : Script}
    (found : post.script? type = some script) : script.IsSolitary :=
  solitary.scripts script (List.mem_of_find?_eq_some found)

/-- The participant of a post holds and has staged what belongs to a scene, and the
store keeps the rows of this scene. -/
structure Sees (post : Post) (running : Running) (world : World) (scene : Scene) : Prop where
  store : world.store = .rows scene.rows
  inPlace : running.place < world.objects.size
  held : world.copy running.place = scene.held
  staged : (world.participant post.participant).staged = scene.staged

theorem Sees.of_alike (sees : post.Sees running world scene) (alike : world.Alike after) :
    post.Sees running after scene where
  store := alike.store.trans sees.store
  inPlace := by
    rw [alike.objects]
    exact sees.inPlace
  held := (World.copy_congr alike.objects running.place).trans sees.held
  staged := by
    rw [alike.participant_eq]
    exact sees.staged

theorem Sees.withParticipant {participant : Participant}
    (sees : post.Sees running world scene) (named : participant.name = post.participant) :
    post.Sees running (world.withParticipant participant)
      { scene with staged := participant.staged } where
  store := by simpa using sees.store
  inPlace := by simpa using sees.inPlace
  held := by simpa using sees.held
  staged := by rw [World.participant_withParticipant named]

theorem Sees.of_staged_eq {participant : Participant} (sees : post.Sees running world scene)
    (named : participant.name = post.participant)
    (sameStaged : participant.staged = (world.participant post.participant).staged) :
    post.Sees running (world.withParticipant participant) scene := by
  have changed := sees.withParticipant named
  rw [sameStaged, sees.staged] at changed
  exact changed

theorem Sees.stage (sees : post.Sees running world scene) (batch : Batch) :
    post.Sees running ((Act.stage post.participant batch).run world).2 (scene.stage batch) := by
  have changed := @Sees.withParticipant post running world scene
    { world.participant post.participant with
      staged := (world.participant post.participant).staged ++ batch } sees
    World.participant_name
  rw [Act.stage_run]
  simpa only [Scene.stage, sees.staged] using changed

theorem Sees.clear (sees : post.Sees running world scene) :
    post.Sees running ((Act.clear post.participant).run world).2 scene.discard := by
  obtain ⟨noted, alike, cleared | ⟨cleared, unstaged⟩⟩ := @Act.clear_run post.participant world
  · rw [cleared]
    exact (sees.of_alike alike).withParticipant World.participant_name
  · rw [cleared]
    have still := sees.of_alike alike
    have empty : scene.staged = [] := still.staged.symm.trans unstaged
    have same : scene.discard = scene := by
      rw [Scene.discard, ← empty]
    rw [same]
    exact still

theorem Sees.setObject (sees : post.Sees running world scene) (process : Process) :
    post.Sees running ((Act.setObject running.place process).run world).2
      (scene.hold process) where
  store := sees.store
  inPlace := by
    change running.place < (world.objects.modify running.place _).size
    simpa using sees.inPlace
  held := World.copy_setObject sees.inPlace
  staged := sees.staged

/-- The clock and the record of the saves are no part of the session. -/
theorem Sees.congr {other : Scene} (sees : post.Sees running world scene)
    (sameHeld : other.held = scene.held) (sameStaged : other.staged = scene.staged)
    (sameRows : other.rows = scene.rows) : post.Sees running world other where
  store := sameRows ▸ sees.store
  inPlace := sees.inPlace
  held := sees.held.trans sameHeld.symm
  staged := sees.staged.trans sameStaged.symm

theorem Sees.access {α : Type} {access : Store.Access α} {outcome : Except Failure α}
    (sees : post.Sees running world scene)
    (answered : access.run.run (.rows scene.rows) = (outcome, .rows scene.rows)) :
    ((Act.access access).run world).1 = outcome ∧
      post.Sees running ((Act.access access).run world).2 scene := by
  rw [← sees.store] at answered
  rw [Act.access_run answered]
  exact ⟨rfl, sees.store, sees.inPlace, sees.held, sees.staged⟩

/-- What holds of every failure and of what an action does holds of a call. -/
theorem Sees.call {α : Type} {method : Method} {action : Act (Except Failure α)}
    {holds : Except Failure α → World → Prop} (sees : post.Sees running world scene)
    (failed : ∀ failure called, post.Sees running called scene → holds (.error failure) called)
    (acted : ∀ called, post.Sees running called scene →
      holds (action.run called).1 (action.run called).2) :
    holds ((Act.call post.participant method action).run world).1
      ((Act.call post.participant method action).run world).2 := by
  obtain ⟨participant, named, sameStaged, ⟨failure, isFailure⟩ | acts⟩ :=
    @Act.call_run post.participant world α method action
  · rw [isFailure]
    exact failed failure _ (sees.of_staged_eq named sameStaged)
  · rw [acts]
    exact acted _ (sees.of_staged_eq named sameStaged)

/-! ### Answers -/

/-- What a session does is an answer of the scene. -/
def Simulates (habits : Habits) (post : Post) (scene : Scene) (request : Request)
    (served : (request.Reply × Running) × World) : Prop :=
  ∃ next, scene.Answers habits request served.1.1 next ∧ post.Sees served.1.2 served.2 next

theorem Sees.scripted {α : Type} {asks : Script → Act (Except Failure α)}
    (sees : post.Sees running world scene) (solitary : post.IsSolitary) (executor : ProcessType)
    (quiet : ∀ script : Script, script.IsSolitary → Act.IsQuiet (asks script)) :
    let asked : StateT Running Act (Except Failure α) :=
      match post.script? executor with
      | none => return .error (.unregisteredType executor)
      | some script => return ← asks script
    let served := (asked.run running).run world
    post.Sees served.1.2 served.2 scene := by
  cases found : post.script? executor with
  | none => exact sees
  | some script => exact sees.of_alike (quiet script (solitary.script found) world)

/-- What a save asks of the store if it does not fail before. -/
def saving (name : String) : Act (Except Failure Unit) := do
  let participant ← Act.participant name
  if participant.staged.isEmpty then return .ok ()
  else
    Act.setParticipant { participant with staged := [] }
    Act.note (.saving participant.staged.length)
    Act.access (Store.commit participant.staged)

/-- What is staged is gone before the store is asked to commit it; the store is not
asked if nothing is staged. -/
theorem saving_run (sees : post.Sees running world scene) :
    (scene.staged = [] ∧ (saving post.participant).run world = (.ok (), world)) ∨
      ∃ cleared : World, post.Sees running cleared scene.discard ∧
        (saving post.participant).run world =
          (Act.access (Store.commit scene.staged)).run cleared := by
  let emptied : Participant := { world.participant post.participant with staged := [] }
  have unfolded : (saving post.participant).run world =
      (if (world.participant post.participant).staged.isEmpty then pure (.ok ()) else do
        Act.setParticipant emptied
        Act.note (.saving (world.participant post.participant).staged.length)
        Act.access (Store.commit (world.participant post.participant).staged)
          : Act (Except Failure Unit)) world := rfl
  rw [unfolded, sees.staged]
  cases unstaged : scene.staged with
  | nil => exact .inl ⟨rfl, rfl⟩
  | cons change batch =>
      have cleared : post.Sees running (world.withParticipant emptied) scene.discard :=
        sees.withParticipant World.participant_name
      exact .inr ⟨_, cleared.of_alike (Act.isQuiet_note _ _), rfl⟩

/-- A save that reaches the store commits what is staged or leaves the rows as they
are. -/
theorem saving_simulates (sees : post.Sees running world scene)
    (fresh : habits.newIds → Batch.IsFresh scene.rows scene.staged) :
    post.Simulates habits scene .save
      ((((saving post.participant).run world).1, running),
        ((saving post.participant).run world).2) := by
  obtain ⟨unstaged, run⟩ | ⟨cleared, sees, run⟩ := saving_run sees
  · rw [run]
    exact ⟨scene.commit scene.rows, ⟨_, Scene.commits_of_unstaged unstaged, rfl⟩,
      sees.congr rfl unstaged.symm rfl⟩
  cases committed : scene.rows.commit scene.staged with
  | ok after =>
      have answered : (Store.commit scene.staged).run.run cleared.store =
          (.ok (), .rows after) := by
        rw [sees.store]
        apply (Store.commit_rows scene.rows scene.staged).trans
        rw [Rows.save, committed]
      rw [run, Act.access_run answered]
      exact ⟨scene.commit after, ⟨after, ⟨committed, fresh⟩, rfl⟩, rfl, sees.inPlace, sees.held,
        sees.staged⟩
  | error failure =>
      have answered : (Store.commit scene.staged).run.run cleared.store =
          (.error failure, .rows scene.rows) := by
        rw [sees.store]
        apply (Store.commit_rows scene.rows scene.staged).trans
        rw [Rows.save, committed]
      rw [run, Act.access_run answered]
      exact ⟨scene.fail failure [], ⟨[], .inl rfl, rfl⟩, rfl, sees.inPlace, sees.held,
        sees.staged⟩

theorem save_simulates (sees : post.Sees running world scene)
    (fresh : habits.newIds → Batch.IsFresh scene.rows scene.staged) :
    post.Simulates habits scene .save (((post.serve doer .save).run running).run world) := by
  refine @Sees.call post running world scene Unit .save (saving post.participant)
    (fun reply after => post.Simulates habits scene .save ((reply, running), after)) sees ?_ ?_
  · intro failure called sees
    exact ⟨scene.fail failure scene.staged, ⟨_, .inr rfl, rfl⟩, sees.congr rfl rfl rfl⟩
  · intro called sees
    exact saving_simulates sees fresh

theorem hold_simulates (sees : post.Sees running world scene) (process : Process) :
    post.Simulates habits scene (.hold process)
      (((post.serve doer (.hold process)).run running).run world) := by
  let held : World := { world with objects := world.objects.push (process.withSteps []) }
  have served : ((post.serve doer (.hold process)).run running).run world =
      (((), { running with place := world.objects.size }), held) := rfl
  rw [served]
  refine ⟨_, rfl, sees.store, by simp [held], ?_, sees.staged⟩
  change (held.objects.getD world.objects.size _).toProcess = process
  simp [held, Array.getD_eq_getD_getElem?, Process.withSteps]

theorem lease_simulates (sees : post.Sees running world scene) (operation : LeaseOp) :
    post.Simulates habits scene (.lease operation)
      (((post.serve doer (.lease operation)).run running).run world) := by
  have served : ((post.serve doer (.lease operation)).run running).run world =
      ((((Act.performLease post.participant running.place operation).run world).1, running),
        ((Act.performLease post.participant running.place operation).run world).2) := rfl
  have copied : ((Act.object running.place).run world).1.toProcess = scene.held := sees.held
  rw [served, Act.performLease_run, copied]
  cases performed : operation.perform scene.held with
  | error failure => exact ⟨scene, Scene.answers_lease_of_error performed, sees⟩
  | ok result =>
      obtain ⟨process, batch⟩ := result
      exact ⟨_, Scene.answers_lease_of_ok performed, (sees.setObject process).stage batch⟩

theorem pendingSteps_simulates (mayFail : ∀ failure, habits.mayFail failure)
    (sees : post.Sees running world scene) (process : Uuid) :
    post.Simulates habits scene (.pendingSteps process)
      (((post.serve doer (.pendingSteps process)).run running).run world) := by
  refine @Sees.call post running world scene (List PendingStep) .pendingSteps
    (Act.access (Store.pendingSteps process))
    (fun reply after =>
      post.Simulates habits scene (.pendingSteps process) ((reply, running), after))
    sees ?_ ?_
  · intro failure called sees
    refine ⟨scene, ⟨fun _ _ => mayFail _, ?_, rfl⟩, sees⟩
    intro _ impossible
    cases impossible
  · intro called sees
    obtain ⟨answered, still⟩ := @Sees.access post running called scene _
      (Store.pendingSteps process) (.ok (scene.rows.pendingSteps process)) sees rfl
    refine ⟨scene, ⟨fun _ _ => mayFail _, ?_, rfl⟩, still⟩
    intro steps replied
    exact Except.ok.inj (replied.symm.trans answered)

theorem stepTypes_simulates (mayFail : ∀ failure, habits.mayFail failure)
    (sees : post.Sees running world scene) (process : Uuid) :
    post.Simulates habits scene (.stepTypes process)
      (((post.serve doer (.stepTypes process)).run running).run world) := by
  obtain ⟨answered, still⟩ := @Sees.access post running world scene _
    (Store.stepTypes process) (.ok (scene.rows.stepTypes process)) sees rfl
  refine ⟨scene, ⟨fun _ _ => mayFail _, ?_, rfl⟩, still⟩
  intro types replied
  exact Except.ok.inj (replied.symm.trans answered)

theorem discover_simulates (sees : post.Sees running world scene) (query : Eligible) :
    post.Simulates habits scene (.discover query)
      (((post.serve doer (.discover query)).run running).run world) := by
  let looked : World := { world with
    discoveries := (post.participant, world.seconds) :: world.discoveries }
  have looking : post.Sees running looked scene := sees.of_alike ⟨rfl, rfl, rfl⟩
  refine @Sees.call post running looked scene Nat .discover
    (fun world => (Paging.limitOf world.pageSize, world))
    (fun reply after => post.Simulates habits scene (.discover query) ((reply, running), after))
    looking ?_ ?_
  · intro failure called sees
    exact ⟨scene, rfl, sees⟩
  · intro called sees
    exact ⟨scene, rfl, sees⟩

/-- **Sessions are scenes.**  Every request is answered as in a scene. -/
theorem serve_simulates (mayFail : ∀ failure, habits.mayFail failure)
    (solitary : post.IsSolitary) (sees : post.Sees running world scene)
    (fresh : habits.newIds → Batch.IsFresh scene.rows scene.staged) (request : Request) :
    post.Simulates habits scene request
      (((post.serve doer request).run running).run world) := by
  cases request with
  | note notice => exact ⟨scene, rfl, sees.of_alike (Act.isQuiet_note notice world)⟩
  | now => exact ⟨_, rfl, sees.congr rfl rfl rfl⟩
  | isCancelled => exact ⟨scene, rfl, sees⟩
  | held => exact ⟨scene, ⟨sees.held, rfl⟩, sees⟩
  | hold process => exact hold_simulates sees process
  | lease operation => exact lease_simulates sees operation
  | pendingSteps process => exact pendingSteps_simulates mayFail sees process
  | stepTypes process => exact stepTypes_simulates mayFail sees process
  | stageUpdates updates =>
      have timed := sees.of_alike (Act.isQuiet_readings updates.length world)
      exact ⟨_, ⟨_, rfl⟩, timed.stage _⟩
  | stageStep type process =>
      have named := sees.of_alike (Act.isQuiet_nextId world)
      have timed := named.of_alike (Act.isQuiet_now _)
      exact ⟨_, ⟨_, rfl⟩, timed.stage _⟩
  | save => exact save_simulates sees fresh
  | discard => exact ⟨_, rfl, sees.clear⟩
  | prepare executor process types =>
      refine ⟨scene, ⟨fun _ _ => mayFail _, [], by simp, Scene.stage_nil.symm⟩, ?_⟩
      exact sees.scripted solitary executor fun _ => Script.isQuiet_prepare
  | needsLease executor type =>
      exact ⟨_, ⟨fun _ _ => mayFail _, [], by simp, rfl⟩, Scene.stage_nil ▸ sees⟩
  | execute executor process type types =>
      refine ⟨scene, ⟨fun _ _ => mayFail _, [], by simp, Scene.stage_nil.symm⟩, ?_⟩
      exact sees.scripted solitary executor fun _ => Script.isQuiet_execute
  | discover query => exact discover_simulates sees query
  | eligiblePage query after limit =>
      obtain ⟨_, still⟩ := @Sees.access post running world scene _
        (Store.eligiblePage query after limit)
        (.ok (scene.rows.eligiblePage query after limit)) sees rfl
      exact ⟨scene, rfl, still⟩
  | consult result =>
      have still :=
        sees.of_alike (solitary.consult result (result :: running.results).length world)
      exact ⟨scene, rfl, still.store, still.inPlace, still.held, still.staged⟩

/-- Every program that runs in a session completes while nobody else writes anything. -/
theorem run_completes {α : Type} (solitary : post.IsSolitary)
    (sees : post.Sees running world scene) (program : Program α) :
    let ran := ((program.run (post.serve doer)).run running).run world
    ∃ final, program.Completes .idle id scene ran.1.1 final ∧
      post.Sees ran.1.2 ran.2 final := by
  induction program generalizing running world scene with
  | done value => exact ⟨scene, .done value scene, sees⟩
  | ask request rest induction =>
      obtain ⟨next, answers, sees⟩ : post.Simulates .idle scene request
          (((post.serve doer request).run running).run world) :=
        serve_simulates (fun _ => trivial) solitary sees False.elim
          request
      obtain ⟨final, completes, sees⟩ := induction _ sees
      exact ⟨final, .ask request (.refl _ _) _ answers completes, sees⟩

end Post

/-- An attempt in a session is an attempt that nobody disturbs. -/
theorem Staffing.attempt_completes {staffing : Staffing} {participant : String} {place : Nat}
    {world : World} {scene : Scene} (id : Uuid)
    (solitary : ∀ script ∈ staffing.scripts, script.IsSolitary)
    (sees : (staffing.post participant true).Sees ⟨place, []⟩ world scene) :
    let ran := (staffing.attempt doer participant place).run world
    ∃ final, (staffing.registry.attempt staffing.term).run.Completes .idle id scene ran.1 final ∧
      ran.2.store = .rows final.rows := by
  have postSolitary : (staffing.post participant true).IsSolitary :=
    ⟨solitary, fun _ _ => .pure _⟩
  obtain ⟨final, completes, sees⟩ := Post.run_completes postSolitary sees
    (staffing.registry.attempt staffing.term).run
  exact ⟨final, completes, sees.store⟩

end Session

end Workflow
