import Workflow.Attempt
import Workflow.Proofs.Drain.Generator
import Workflow.Proofs.Drain.Verdict
import Workflow.Proofs.Rows.Commit

/-!
# A worker on its own

Nobody disturbs a worker at its bench: its store commits whatever the rows accept, new
identifiers come from a supply, the clock shows given times, and the executor gives every
step one result.  What the worker does can then be computed, request by request.
-/

namespace Workflow

/-- Runs a step and commits what its result says, as an attempt does. -/
def Attempt.commitStep (term : LeaseTerm) (executor : ProcessType) (process : Uuid)
    (type : StepType) (agenda : Agenda) : Action Bool := do
  let ran ← Drain.runStep executor process type agenda
  Attempt.settle term ran.1

/-- The rows, the process that the worker holds, what it has staged, the identifiers that
come next, and what the clock shows at the next readings. -/
structure Bench where
  rows : Rows
  held : Process
  staged : Batch
  ids : List Uuid
  clock : Readings

theorem Program.run_bind {m : Type → Type} [Monad m] [LawfulMonad m] {α β : Type}
    (handler : (request : Request) → m request.Reply) (program : Program α)
    (next : α → Program β) :
    (program.bind next).run handler = program.run handler >>= fun value =>
      (next value).run handler := by
  induction program with
  | done value => exact (LawfulMonad.pure_bind value fun value => (next value).run handler).symm
  | ask request rest induction =>
      simp only [bind, run, induction, LawfulMonad.bind_assoc]

namespace Bench

def stage (bench : Bench) (batch : Batch) : Bench :=
  { bench with staged := bench.staged ++ batch }

/-- The bench after some readings of the clock. -/
def tick (bench : Bench) (count : Nat) : Bench :=
  { bench with clock := bench.clock.after count }

/-- Commits what is staged if the rows accept it; nothing is staged afterwards. -/
def save (bench : Bench) : Except Failure Unit × Bench :=
  match bench.rows.commit bench.staged with
  | .ok rows => (.ok (), { bench with rows, staged := [] })
  | .error failure => (.error failure, { bench with staged := [] })

/-- The reply to a request, and the bench afterwards. -/
def answer (result : StepResult) (bench : Bench) :
    (request : Request) → request.Reply × Bench
  | .note _ => ((), bench)
  | .now => (bench.clock 0, bench.tick 1)
  | .isCancelled => (false, bench)
  | .held => (bench.held, bench)
  | .hold process => ((), { bench with held := process })
  | .lease operation =>
    match operation.perform bench.held with
    | .ok (process, batch) => (.ok (!batch.isEmpty), { bench.stage batch with held := process })
    | .error failure => (.error failure, bench)
  | .pendingSteps process => (.ok (bench.rows.pendingSteps process), bench)
  | .stepTypes process => (.ok (bench.rows.stepTypes process), bench)
  | .stageUpdates updates =>
    ((), (bench.tick updates.length).stage (Change.ofUpdates bench.clock updates))
  | .stageStep type process =>
    let id := bench.ids.headD (.ofNat 0)
    (id, { (bench.tick 1).stage [.insertStep (.fresh id type .todo process (bench.clock 0))] with
      ids := bench.ids.tail })
  | .save => bench.save
  | .discard => ((), { bench with staged := [] })
  | .prepare _ _ _ => (.ok ⟨false, none⟩, bench)
  | .needsLease _ _ => (.ok false, bench)
  | .execute _ _ _ _ => (.ok result, bench)
  | .discover _ => (.ok 1, bench)
  | .eligiblePage query after limit => (.ok (bench.rows.eligiblePage query after limit), bench)
  | .consult _ => (.ok true, bench)

/-- How an action ends, and the bench afterwards. -/
def finish {α : Type} (result : StepResult) (bench : Bench) (action : Action α) :
    Except Failure α × Bench :=
  (action.run.run (m := StateM Bench) fun request bench => bench.answer result request).run bench

variable {α β : Type} {result : StepResult} {bench later : Bench} {process : Uuid}
  {types : List StepType}

@[simp] theorem finish_pure (value : α) : bench.finish result (pure value) = (.ok value, bench) :=
  rfl

theorem finish_bind {action : Action α} {next : α → Action β} {value : α}
    (finished : bench.finish result action = (.ok value, later)) :
    bench.finish result (action >>= next) = later.finish result (next value) := by
  have first := congrArg (fun ended : Except Failure α × Bench =>
    ((ExceptT.bindCont next ended.1).run (m := StateM Bench)
      fun request bench => bench.answer result request).run ended.2) finished
  refine Eq.trans ?_ first
  exact congrArg (fun act : StateM Bench _ => act.run bench) (Program.run_bind _ action.run _)

theorem finish_ask_bind (request : Request) (next : request.Reply → Action β) :
    bench.finish result (Action.ask request >>= next) =
      (bench.answer result request).2.finish result (next (bench.answer result request).1) :=
  rfl

theorem finish_ofExcept_bind (value : α) (next : α → Action β) :
    bench.finish result (Action.ofExcept (.ok value) >>= next) =
      bench.finish result (next value) :=
  rfl

theorem finish_save {after : Rows} (committed : bench.rows.commit bench.staged = .ok after) :
    bench.finish result Action.save = (.ok (), { bench with rows := after, staged := [] }) := by
  have answered : bench.answer result .save =
      (.ok (), { bench with rows := after, staged := [] }) := by
    simp only [answer, save, committed]
  rw [Action.save, finish_ask_bind, answered]
  rfl

theorem finish_settle (term : LeaseTerm) {after : Rows}
    (committed : bench.rows.commit (bench.staged ++
      [bench.held.versionChange bench.held.raiseVersion]) = .ok after) :
    bench.finish result (Attempt.settle term .saveRequested) =
      (.ok true, { bench with rows := after, held := bench.held.raiseVersion, staged := [] }) := by
  let raised : Bench :=
    { bench.stage [bench.held.versionChange bench.held.raiseVersion] with
      held := bench.held.raiseVersion }
  have saved : raised.finish result Action.save =
      (.ok (), { raised with rows := after, staged := [] }) := finish_save committed
  have commits : bench.finish result (Attempt.settle.commit term .saveRequested) =
      (.ok (), { raised with rows := after, staged := [] }) := saved
  exact finish_bind commits

/-- A step is staged for each type, under the next identifier. -/
theorem finish_stageSteps (enough : types.length ≤ bench.ids.length) :
    ∃ (added : List Step) (clock : Readings),
      added.map Step.undated = Steps.scheduled process (types.zip bench.ids) ∧
        bench.finish result (Drain.stageSteps process types) =
          (.ok (types.zip bench.ids), { bench.stage (added.map .insertStep) with
            ids := bench.ids.drop types.length, clock }) := by
  induction types generalizing bench with
  | nil =>
      refine ⟨[], bench.clock, rfl, ?_⟩
      rw [stage, List.map_nil, List.append_nil]
      rfl
  | cons type types induction =>
      cases supply : bench.ids with
      | nil => simp [supply] at enough
      | cons id ids =>
          let step := Step.fresh id type .todo process (bench.clock 0)
          let next : Bench := { (bench.tick 1).stage [.insertStep step] with ids }
          have answered : bench.answer result (.stageStep type process) = (id, next) := by
            simp only [answer, supply]
            rfl
          obtain ⟨added, clock, undated, others⟩ := @induction next (by simpa [supply] using enough)
          refine ⟨step :: added, clock, ?_, ?_⟩
          · rw [List.map_cons, undated]
            rfl
          · rw [Drain.stageSteps, finish_ask_bind, answered, finish_bind others]
            simp [next, stage, tick]

/-- A step whose result changes stored steps is run, and all that its result says is
committed at once. -/
theorem finish_commitStep {executor : ProcessType} {type : StepType} {agenda : Agenda}
    {term : LeaseTerm} (unstaged : bench.staged = [])
    (changes : (agenda.afterResult type result).2 ≠ [])
    (enough : ((agenda.afterResult type result).1.unknown (result.schedule.getD [])).length ≤
      bench.ids.length) :
    ∃ (clock : Readings) (added : List Step),
      added.map Step.undated = Steps.scheduled process
        (((agenda.afterResult type result).1.unknown (result.schedule.getD [])).zip bench.ids) ∧
      ∀ after, bench.rows.commit (Change.ofUpdates clock (agenda.afterResult type result).2 ++
          added.map .insertStep ++ [bench.held.versionChange bench.held.raiseVersion]) =
            .ok after →
        ∃ later, bench.finish result (Attempt.commitStep term executor process type agenda) =
          (.ok true, later) ∧ later.rows = after := by
  let settled := agenda.afterResult type result
  let updated := (bench.tick settled.2.length).stage (Change.ofUpdates bench.clock settled.2)
  have updates : bench.finish result (Drain.stageUpdates settled.2) = (.ok (), updated) := by
    rw [Drain.stageUpdates, if_neg (by simpa using changes)]
    rfl
  obtain ⟨added, clock, undated, created⟩ :=
    @finish_stageSteps result updated process (settled.1.unknown (result.schedule.getD [])) enough
  refine ⟨bench.clock, added, undated, ?_⟩
  intro after committed
  have modified : ∀ created : List (StepType × Uuid),
      (result.modified || !(agenda.afterResult type result).2.isEmpty || !created.isEmpty) =
        true := by
    simp [changes]
  let written : Bench := { updated.stage (added.map .insertStep) with
    ids := updated.ids.drop (settled.1.unknown (result.schedule.getD [])).length, clock }
  have ran : ∃ status next, bench.finish result (Drain.runStep executor process type agenda) =
      (.ok (.saveRequested, status, next), written) := by
    refine ⟨result.status, settled.1.addSteps
      ((settled.1.unknown (result.schedule.getD [])).zip updated.ids), ?_⟩
    rw [Drain.runStep, finish_ask_bind]
    refine (finish_ofExcept_bind result _).trans ?_
    refine (finish_bind updates).trans ((finish_bind created).trans ?_)
    simp only [modified]
    rfl
  obtain ⟨status, next, ran⟩ := ran
  have staged : written.staged = Change.ofUpdates bench.clock settled.2 ++
      added.map .insertStep := by
    simp [written, updated, stage, tick, unstaged]
  have settles := @finish_settle result written term after (by rwa [staged])
  exact ⟨_, (finish_bind ran).trans settles, rfl⟩

end Bench
end Workflow
