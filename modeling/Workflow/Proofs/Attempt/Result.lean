import Workflow.Proofs.Attempt.Account
import Workflow.Proofs.Drain.Effect

/-!
# What a committed result leaves behind

Let nobody else write the process, and let an attempt run a step and commit the result.
Then the rows of the process are what the result makes of the rows that were there when
the step was run, row by row.  A step that is still pending stays so in the store exactly
if the result does not skip its own type.
-/

namespace Workflow

namespace Attempt

variable {habits : Habits} {id : Uuid} {start before after : Scene} {registry : Registry}
  {term : LeaseTerm} {type : StepType} {result : StepResult}

/-- An attempt runs a step of a type and commits its result: up to the save nothing more is asked
of an executor, and nothing is dropped. -/
inductive Commits (habits : Habits) (id : Uuid) (registry : Registry) (term : LeaseTerm)
    (start : Scene) (type : StepType) (result : StepResult) (before after : Scene) : Prop where
  | saved {earlier between later : List Exchange} {rest : Program (Except Failure Unit)}
      {executor : ProcessType} {owner : Uuid} {types : List StepType} {told saving scene : Scene}
      (reaches : (registry.attempt term).run.Reaches habits id start
        (earlier ++ ⟨before, .execute executor owner type types, .ok result, told⟩ ::
          (between ++ ⟨saving, .save, .ok (), after⟩ :: later)) rest scene)
      (undropped : ∀ exchange ∈ between,
        exchange.request.isForExecutor = false ∧ exchange.request ≠ .discard)

/-- The first save after a result, with nothing asked of an executor and nothing dropped in
between, commits the result as a whole. -/
theorem applies_of_saved (newIds : habits.newIds) (begins : start.Beginning id)
    (commits : Commits habits id registry term start type result before after) :
    (∃ oldest, Steps.IsOldest type (before.rows.owned id) oldest) ∧
      (Outcome.ran type result).Applies id (before.rows.owned id) (after.rows.owned id) ∧
      ((after.rows.owned id).map Step.id).Nodup := by
  obtain ⟨reaches, undropped⟩ := commits
  rename_i earlier between later rest executor owner types told saving scene
  let ran : Exchange := ⟨before, .execute executor owner type types, .ok result, told⟩
  obtain ⟨_, _, reached, undisturbed, _⟩ := reaches.exists_of_split
  have obeys := reached.obeys (registry.attempt_obeys newIds term begins)
  have mayRun := (obeys ⟨before, earlier⟩ ⟨rfl, undisturbed⟩).1
  have rewound : earlier ++ ran :: (between ++ ⟨saving, .save, .ok (), after⟩ :: later) =
      (earlier ++ ran :: between) ++ ⟨saving, .save, .ok (), after⟩ :: later := by simp
  rw [rewound] at reaches
  obtain ⟨_, _, reached, undisturbed, answers⟩ := reaches.exists_of_split
  have obeys := reached.obeys_asking (registry.attempt_obeys_strictly newIds term begins)
  have maySave := (obeys ⟨saving, earlier ++ ran :: between⟩ ⟨rfl, undisturbed⟩).1
  have retains : Passage.Retains ⟨saving, earlier ++ ran :: between⟩ :=
    ⟨earlier, ran, between, rfl, rfl, fun exchange member => (undropped exchange member).2⟩
  have silent : ∀ exchange ∈ between, exchange.outcome? = none := fun exchange member =>
    Request.outcome?_eq_none (undropped exchange member).1
  obtain ⟨rows, commits, (same : after = saving.commit rows)⟩ := answers
  have committed : after.rows.owned id = Passage.draft id ⟨saving, earlier ++ ran :: between⟩ := by
    rw [same]
    exact Rows.owned_commit_eq maySave.accounted.keyed (commits.2 newIds) commits.1
  have keyed : after.rows.Keyed := by
    rw [same]
    exact Rows.keyed_commit maySave.accounted.keyed commits.1
  obtain ⟨step, member, isDue⟩ := mayRun.due type rfl
  refine ⟨Steps.exists_isOldest member isDue, ?_, keyed.nodup_owned id⟩
  rw [committed]
  exact (maySave.whole rfl retains).applies rfl silent

/-- A run that has not saved the result of a step yet, though nothing more has been asked of an
executor since, and nothing dropped. -/
def Unsaved (habits : Habits) (id : Uuid) (registry : Registry) (term : LeaseTerm) (start : Scene)
    (type : StepType) (result : StepResult) (before : Scene)
    (left : Program (Except Failure Unit)) (scene : Scene) : Prop :=
  ∃ (earlier between : List Exchange) (executor : ProcessType) (owner : Uuid)
    (types : List StepType) (told : Scene),
    (registry.attempt term).run.Reaches habits id start
      (earlier ++ ⟨before, .execute executor owner type types, .ok result, told⟩ :: between) left
      scene ∧
    ∀ exchange ∈ between, exchange.request.isForExecutor = false ∧ exchange.request ≠ .discard

namespace Unsaved

variable {left : Program (Except Failure Unit)} {scene next : Scene} {log : List Exchange}
  {executor : ProcessType} {owner : Uuid} {types : List StepType}

theorem ran {rest : Except Failure StepResult → Program (Except Failure Unit)}
    (run : (registry.attempt term).run.Reaches habits id start log left scene)
    (asks : left = .ask (.execute executor owner type types) rest)
    (mayFail : ∀ failure, habits.mayFail failure) :
    Unsaved habits id registry term start type result scene (rest (.ok result)) scene :=
  ⟨log, [], executor, owner, types, scene, run.executor _ asks (.ok result) mayFail rfl, by simp⟩

theorem answer (unsaved : Unsaved habits id registry term start type result before left scene)
    (request : Request) {rest : request.Reply → Program (Except Failure Unit)}
    (asks : left = .ask request rest) (reply : request.Reply)
    (answers : scene.Answers habits request reply next) (other : request.isForExecutor = false)
    (keeps : request ≠ .discard) :
    Unsaved habits id registry term start type result before (rest reply) next := by
  obtain ⟨earlier, between, executor, owner, types, told, run, undropped⟩ := unsaved
  have run := run.answer request asks reply answers other
  rw [List.append_assoc, List.cons_append] at run
  exact ⟨earlier, _, executor, owner, types, told, run,
    List.forall_mem_append.mpr ⟨undropped, List.forall_mem_singleton.mpr ⟨other, keeps⟩⟩⟩

theorem save {rest : Except Failure Unit → Program (Except Failure Unit)}
    (unsaved : Unsaved habits id registry term start type result before left scene)
    (asks : left = .ask .save rest) (saved : scene.Answers habits .save (.ok ()) after) :
    Commits habits id registry term start type result before after ∧
      ∃ log, (registry.attempt term).run.Reaches habits id start log (rest (.ok ())) after := by
  obtain ⟨earlier, between, executor, owner, types, told, run, undropped⟩ := unsaved
  have run := run.answer .save asks (.ok ()) saved rfl
  rw [List.append_assoc, List.cons_append] at run
  exact ⟨.saved run undropped, _, run⟩

end Unsaved

/-- What a drain does with the result of a step, once this has been worked out. -/
def workedOut (executor : ProcessType) (process : Uuid) (term : LeaseTerm) (type : StepType)
    (result : StepResult) (settled : Agenda × List (Uuid × StepUpdate)) : Action Unit := do
  Drain.stageUpdates settled.2
  let created ← Drain.stageSteps process (settled.1.unknown (result.schedule.getD []))
  Action.note (.stepFinished type process result.status)
  let modified := result.modified || !settled.2.isEmpty || !created.isEmpty
  if ← settle term (.ofModified modified) then
    if result.status = .todo then Action.note (.stepStillPending type process)
    else Drain.runQueue executor process (settle term) (settled.1.addSteps created)

/-! ### Results whose lists overlap -/

namespace Overlap

def executors : Registry :=
  ⟨[⟨.setupDim, [.createSubaccount, .assignEntitlements]⟩]⟩

def fresh (id : Nat) (type : StepType) (status : StepStatus) : Step :=
  .fresh (.ofNat id) type status (.ofNat 1) ⟨0, 0⟩

/-- Of two types with two pending steps each, the first one can be run; a third type is done. -/
def steps : List Step := [
  fresh 2 .createSubaccount .todo,
  fresh 3 .createSubaccount .todo,
  fresh 4 .createServicemanagerBindings .todo,
  fresh 5 .createServicemanagerBindings .todo,
  fresh 6 .createServiceInstance .done]

/-- The result skips the type of its own step and twice a type of which two steps are pending.  It
schedules one type twice and two types that the process has. -/
def finishes : StepResult where
  modified := true
  status := .done
  schedule := some [.assignEntitlements, .assignEntitlements, .createServicemanagerBindings,
    .createServiceInstance]
  skip := some [.createServicemanagerBindings, .createServicemanagerBindings, .createSubaccount]
  message := some "created"

def scheduled : Step := fresh 7 .assignEntitlements .todo

/-- The step is still pending, but its own type is skipped. -/
def retries : StepResult where
  modified := true
  status := .todo
  schedule := none
  skip := some [.assignEntitlements]
  message := none

/-- What the first result makes of the steps. -/
def resolved : List Step := [
  (fresh 2 .createSubaccount .todo).given ⟨1, 0⟩ .done (some "created"),
  (fresh 3 .createSubaccount .todo).given ⟨2, 0⟩ .duplicate (some "created"),
  (fresh 4 .createServicemanagerBindings .todo).given ⟨3, 0⟩ .skipped none,
  (fresh 5 .createServicemanagerBindings .todo).given ⟨4, 0⟩ .duplicate none,
  fresh 6 .createServiceInstance .done]

def updates : List (Uuid × StepUpdate) := [
  (.ofNat 2, .resolve .done (some "created")),
  (.ofNat 3, .resolve .duplicate (some "created")),
  (.ofNat 4, .resolve .skipped none),
  (.ofNat 5, .resolve .duplicate none)]

/-- The process under a version to come, leased as before. -/
def raised (version : Int) : Process :=
  ⟨.ofNat 1, .setupDim, version, some ⟨5, 0⟩⟩

/-- A microsecond passes between any two readings. -/
def clock : Readings := fun reading => ⟨reading + 1, 0⟩

def updating : Scene :=
  (Scene.leased steps).stage (Change.ofUpdates clock updates)

def extending : Scene :=
  updating.stage [.insertStep scheduled]

/-- All that is staged for the first result. -/
def saving : Scene :=
  (extending.hold (raised 2)).stage [.updateProcess (.ofNat 1) 1 ⟨2, .keep⟩]

/-- The first result has been saved. -/
def going : Scene :=
  saving.commit ⟨[raised 2], resolved ++ [scheduled]⟩

def updatingAgain : Scene :=
  going.stage [.updateStep scheduled.id (.resolve .skipped none) ⟨0, 0⟩]

def savingAgain : Scene :=
  (updatingAgain.hold (raised 3)).stage [.updateProcess (.ofNat 1) 2 ⟨3, .keep⟩]

/-- The second result has been saved as well. -/
def gone : Scene :=
  savingAgain.commit ⟨[raised 3], resolved ++ [scheduled.given ⟨0, 0⟩ .skipped none]⟩

theorem finished :
    Commits .silent (.ofNat 1) executors (.ok 5) (.opening steps) .createSubaccount finishes
        (.leased steps) going ∧
      ∃ log, (executors.attempt (.ok 5)).run.Reaches .silent (.ofNat 1) (.opening steps) log
        (goesOnWith (.fresh (.ofNat 1) .setupDim) (Drain.runQueue .setupDim (.ofNat 1)
          (settle (.ok 5)) ⟨[(.assignEntitlements, [scheduled.id])],
            [.assignEntitlements, .createSubaccount, .createServicemanagerBindings,
              .createServiceInstance],
            [.assignEntitlements], [.createSubaccount, .assignEntitlements]⟩)).run going := by
  have mayFail : ∀ failure, Habits.silent.mayFail failure := fun _ => trivial
  let loaded : Agenda := ⟨
    [(.createSubaccount, [.ofNat 2, .ofNat 3]),
      (.createServicemanagerBindings, [.ofNat 4, .ofNat 5])],
    [.createSubaccount, .createServicemanagerBindings, .createServiceInstance],
    [.createSubaccount], [.createSubaccount, .assignEntitlements]⟩
  obtain ⟨_, -, run⟩ := exists_prepared_run [.createSubaccount, .assignEntitlements] steps
    (steps.take 4) loaded rfl (by decide) (by decide)
  have run := run.answer .isCancelled (by rw [Drain.runQueue]; rfl) false rfl rfl
  have run := run.executor (.needsLease _ _) rfl (.ok false) mayFail rfl
  let agenda : Agenda := { loaded with queue := [] }
  have worked : agenda.afterResult .createSubaccount finishes =
      ({ agenda with pending := [] }, updates) := by decide
  have staged : (Scene.leased steps).Answers .silent (.stageUpdates updates) () updating :=
    ⟨clock, rfl⟩
  have inserted : updating.Answers .silent (.stageStep scheduled.type (.ofNat 1)) scheduled.id
      extending := ⟨⟨0, 0⟩, rfl⟩
  have raises : extending.Answers .silent (.lease .raise) (.ok true) saving := ⟨rfl, rfl⟩
  have fresh : Batch.IsFresh saving.rows saving.staged := by constructor <;> decide
  have saved : saving.Answers .silent .save (.ok ()) going := ⟨_, ⟨rfl, fun _ => fresh⟩, rfl⟩
  have unsaved : Unsaved .silent (.ofNat 1) executors (.ok 5) (.opening steps) .createSubaccount
      finishes (.leased steps) (goesOnWith (.fresh (.ofNat 1) .setupDim)
        (workedOut .setupDim (.ofNat 1) (.ok 5) .createSubaccount finishes
          (agenda.afterResult .createSubaccount finishes))).run (.leased steps) :=
    .ran run rfl mayFail
  rw [worked] at unsaved
  have unsaved := unsaved.answer (.stageUpdates _) rfl () staged rfl Request.noConfusion
  have unsaved := unsaved.answer (.stageStep _ _) rfl scheduled.id inserted rfl Request.noConfusion
  have unsaved := unsaved.answer (.note _) rfl () rfl rfl Request.noConfusion
  have unsaved := unsaved.answer (.lease .raise) rfl (.ok true) raises rfl Request.noConfusion
  obtain ⟨committed, _, run⟩ := unsaved.save rfl saved
  have run := run.answer .discard rfl () rfl rfl
  exact ⟨committed, _, run⟩

theorem retried :
    Commits .silent (.ofNat 1) executors (.ok 5) (.opening steps) .assignEntitlements retries
      going gone := by
  have mayFail : ∀ failure, Habits.silent.mayFail failure := fun _ => trivial
  obtain ⟨_, _, run⟩ := finished
  have run := run.answer .isCancelled (by rw [Drain.runQueue]; rfl) false rfl rfl
  have run := run.executor (.needsLease _ _) rfl (.ok false) mayFail rfl
  have staged : going.Answers .silent
      (.stageUpdates [(scheduled.id, .resolve .skipped none)]) () updatingAgain :=
    ⟨fun _ => ⟨0, 0⟩, rfl⟩
  have raises : updatingAgain.Answers .silent (.lease .raise) (.ok true) savingAgain :=
    ⟨rfl, rfl⟩
  have saved : savingAgain.Answers .silent .save (.ok ()) gone :=
    ⟨_, ⟨rfl, fun _ => Batch.isFresh_of_insertless rfl rfl⟩, rfl⟩
  have unsaved : Unsaved .silent (.ofNat 1) executors (.ok 5) (.opening steps) .assignEntitlements
      retries going _ going := .ran run rfl mayFail
  have unsaved := unsaved.answer (.stageUpdates _) rfl () staged rfl Request.noConfusion
  have unsaved := unsaved.answer (.note _) rfl () rfl rfl Request.noConfusion
  have unsaved := unsaved.answer (.lease .raise) rfl (.ok true) raises rfl Request.noConfusion
  exact (unsaved.save rfl saved).1

end Overlap

/-- An executor finishes a step with a message.  Its result skips the type of the step itself, and
twice a type of which two steps are pending, and it schedules one type twice and two that the
process has.  The step that has been scheduled is then run.  It is still pending, but the result
skips its type.  Both results are committed. -/
theorem exists_committed_results :
    ∃ (start first second third : Scene) (finishes retries : StepResult),
      start.Beginning (.ofNat 1) ∧
      Commits .silent (.ofNat 1) ⟨[⟨.setupDim, [.createSubaccount, .assignEntitlements]⟩]⟩ (.ok 5)
        start .createSubaccount finishes first second ∧
      Commits .silent (.ofNat 1) ⟨[⟨.setupDim, [.createSubaccount, .assignEntitlements]⟩]⟩ (.ok 5)
        start .assignEntitlements retries second third ∧
      finishes = ⟨true, .done,
        some [.assignEntitlements, .assignEntitlements, .createServicemanagerBindings,
          .createServiceInstance],
        some [.createServicemanagerBindings, .createServicemanagerBindings, .createSubaccount],
        some "created"⟩ ∧
      retries = ⟨true, .todo, none, some [.assignEntitlements], none⟩ ∧
      (first.rows.owned (.ofNat 1)).map Step.status =
        [some .todo, some .todo, some .todo, some .todo, some .done] ∧
      (second.rows.owned (.ofNat 1)).map Step.status =
        [some .done, some .duplicate, some .skipped, some .duplicate, some .done, some .todo] ∧
      (third.rows.owned (.ofNat 1)).map Step.status =
        [some .done, some .duplicate, some .skipped, some .duplicate, some .done,
          some .skipped] :=
  ⟨.opening Overlap.steps, .leased Overlap.steps, Overlap.going, Overlap.gone, Overlap.finishes,
    Overlap.retries, Scene.beginning_opening (by decide), Overlap.finished.1, Overlap.retried, rfl,
    rfl, rfl, rfl, rfl⟩

/-- **What a committed result leaves behind.**  Let nobody else write the process.  The type that
has been run had pending rows, and after the commit the rows of the process are what the result
makes of those that were there, row by row.  A result by which its step is still pending does
not skip its own type. -/
theorem effect_of_committed_result (newIds : habits.newIds) (begins : start.Beginning id)
    (commits : Commits habits id registry term start type result before after)
    (apart : result.status = .todo → type ∉ result.skip.getD []) :
    (∃ oldest, Steps.IsOldest type (before.rows.owned id) oldest) ∧
      result.Effect id type (before.rows.owned id) (after.rows.owned id) := by
  obtain ⟨isOldest, applies, unique⟩ := applies_of_saved newIds begins commits
  exact ⟨isOldest, StepResult.effect_of_applies applies unique apart⟩

/-- Of five rows four are concerned by the result, and a sixth one is added. -/
theorem effect_of_overlapping_lists :
    ∃ (first second : Scene) (result : StepResult),
      result.skip = some [.createServicemanagerBindings, .createServicemanagerBindings,
        .createSubaccount] ∧
      (∃ oldest, Steps.IsOldest .createSubaccount (first.rows.owned (.ofNat 1)) oldest) ∧
      result.Effect (.ofNat 1) .createSubaccount (first.rows.owned (.ofNat 1))
        (second.rows.owned (.ofNat 1)) ∧
      (second.rows.owned (.ofNat 1)).map Step.status =
        [some .done, some .duplicate, some .skipped, some .duplicate, some .done, some .todo] := by
  obtain ⟨start, first, second, _, result, _, begins, commits, _, rfl, _, _, statuses, _⟩ :=
    exists_committed_results
  obtain ⟨isOldest, effect⟩ := effect_of_committed_result trivial begins commits (by simp)
  exact ⟨first, second, _, rfl, isOldest, effect, statuses⟩

/-- **A step that is still pending** stays pending exactly if the result does not skip its own
type; otherwise it has been skipped. -/
theorem still_pending_iff (newIds : habits.newIds) (begins : start.Beginning id)
    (commits : Commits habits id registry term start type result before after)
    (isTodo : result.status = .todo) :
    ∃ oldest final, Steps.IsOldest type (before.rows.owned id) oldest ∧
      (after.rows.owned id).filter (fun row => row.id == oldest.id) = [final] ∧
      final.type = type ∧ (final.isPending ↔ type ∉ result.skip.getD []) ∧
      (type ∈ result.skip.getD [] → final.status = some .skipped) := by
  obtain ⟨⟨oldest, isOldest⟩, applies, unique⟩ := applies_of_saved newIds begins commits
  obtain ⟨final, alone, isType, status⟩ := StepResult.exists_final applies unique isTodo isOldest
  refine ⟨oldest, final, isOldest, alone, isType, ?_, fun skipped => ?_⟩
  · rw [Step.isPending, status]
    by_cases skipped : type ∈ result.skip.getD [] <;> simp [skipped]
  · rw [status, if_pos skipped]

/-- A step that is still pending can be skipped by its own result. -/
theorem not_forall_still_pending :
    ¬∀ (start before after : Scene) (result : StepResult),
      start.Beginning (.ofNat 1) →
      Commits .silent (.ofNat 1) ⟨[⟨.setupDim, [.createSubaccount, .assignEntitlements]⟩]⟩ (.ok 5)
        start .assignEntitlements result before after →
      result.status = .todo →
      ∀ oldest, Steps.IsOldest .assignEntitlements (before.rows.owned (.ofNat 1)) oldest →
        ∃ final ∈ after.rows.owned (.ofNat 1), final.id = oldest.id ∧ final.isPending := by
  intro keeps
  obtain ⟨start, _, before, after, _, result, begins, _, commits, _, rfl, _, _, statuses⟩ :=
    exists_committed_results
  obtain ⟨⟨oldest, isOldest⟩, _⟩ := applies_of_saved trivial begins commits
  obtain ⟨final, member, _, pending⟩ :=
    keeps start before after _ begins commits rfl oldest isOldest
  have isTodo : some StepStatus.todo ∈ (after.rows.owned (.ofNat 1)).map Step.status :=
    List.mem_map.mpr ⟨final, member, by simpa [Step.isPending] using pending⟩
  rw [statuses] at isTodo
  simp at isTodo

/-- The step that is still pending has been skipped, since its result says so. -/
theorem skipped_by_own_result :
    ∃ (before after : Scene) (result : StepResult) (oldest final : Step),
      result.status = .todo ∧ .assignEntitlements ∈ result.skip.getD [] ∧
      Steps.IsOldest .assignEntitlements (before.rows.owned (.ofNat 1)) oldest ∧
      (after.rows.owned (.ofNat 1)).filter (fun row => row.id == oldest.id) = [final] ∧
      final.status = some .skipped := by
  obtain ⟨start, _, before, after, _, result, begins, _, commits, _, rfl, _⟩ :=
    exists_committed_results
  obtain ⟨oldest, final, isOldest, alone, _, _, skipped⟩ :=
    still_pending_iff trivial begins commits rfl
  exact ⟨before, after, ⟨true, .todo, none, some [.assignEntitlements], none⟩, oldest, final, rfl,
    List.mem_singleton_self _, isOldest, alone, skipped (List.mem_singleton_self _)⟩

end Attempt

end Workflow
