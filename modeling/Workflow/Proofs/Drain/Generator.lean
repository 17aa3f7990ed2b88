import Workflow.Drain

/-!
# The drain as a generator

A drain yields a result after every unit of work and waits until somebody has dealt
with it.  Between two results it keeps nothing but its agenda and where it stands.
`begin` runs up to the first result and `resume` from one result to the next.  A drain
is the repetition of both, whatever its consumer does.
-/

namespace Workflow

namespace Drain

/-- Where a drain stands after it has yielded a result. -/
inductive Halt where
  /-- The queue comes next. -/
  | ready (agenda : Agenda)
  /-- The lease was to be renewed, and a step comes next. -/
  | renewed (type : StepType) (agenda : Agenda)
  /-- A step is still pending, and the end comes next. -/
  | pending (type : StepType) (agenda : Agenda)

namespace Halt

def agenda : Halt → Agenda
  | ready agenda | renewed _ agenda | pending _ agenda => agenda

/-- The halt after a step has ended with a status. -/
def afterStep (type : StepType) (status : StepStatus) (agenda : Agenda) : Halt :=
  if status = .todo then pending type agenda else ready agenda

/-- How much there is still to do. -/
def rank : Halt → Nat
  | ready agenda => 2 * agenda.measure
  | renewed _ agenda => 2 * agenda.measure + 1
  | pending _ _ => 0

theorem rank_afterStep_le {type : StepType} {status : StepStatus} {agenda : Agenda} :
    (afterStep type status agenda).rank ≤ 2 * agenda.measure := by
  rw [afterStep]
  split
  · exact Nat.zero_le _
  · exact Nat.le_refl _

end Halt

variable (executor : ProcessType) (process : Uuid)

/-- Runs a step and stages what its result says: the result to be yielded, how the step
ended, and the agenda afterwards. -/
def runStep (type : StepType) (agenda : Agenda) :
    Action (DrainResult × StepStatus × Agenda) := do
  let result ← Action.ofExcept (← Action.ask (.execute executor process type agenda.types))
  let settled := agenda.afterResult type result
  stageUpdates settled.2
  let created ← stageSteps process (settled.1.unknown (result.schedule.getD []))
  Action.note (.stepFinished type process result.status)
  let modified := result.modified || !settled.2.isEmpty || !created.isEmpty
  return (.ofModified modified, result.status, settled.1.addSteps created)

/-- Runs a step up to the result that it yields. -/
def yieldStep (type : StepType) (agenda : Agenda) : Action (Option (DrainResult × Halt)) := do
  let (result, status, next) ← runStep executor process type agenda
  return some (result, .afterStep type status next)

/-- Runs from one result to the next, or to the end. -/
def resume : Halt → Action (Option (DrainResult × Halt))
  | .ready agenda => do
    if ← Action.ask .isCancelled then
      Action.note (.drainCancelled process)
      return none
    else
      match agenda.next? with
      | none => return none
      | some (type, rest) =>
        if ← Action.ofExcept (← Action.ask (.needsLease executor type)) then
          return some (.leaseRequested, .renewed type rest)
        else yieldStep executor process type rest
  | .renewed type agenda => yieldStep executor process type agenda
  | .pending type _ => do
    Action.note (.stepStillPending type process)
    return none

variable (consume : Consumer)

/-- What a drain does with the result of a step and after it. -/
def afterStep (type : StepType) (ran : DrainResult × StepStatus × Agenda) : Action Unit := do
  if ← consume ran.1 then
    if ran.2.1 = .todo then Action.note (.stepStillPending type process)
    else runQueue executor process consume ran.2.2

/-- What a drain does after a result has been dealt with. -/
def goOn : Halt → Action Unit
  | .ready agenda => runQueue executor process consume agenda
  | .renewed type agenda => do
    afterStep executor process consume type (← runStep executor process type agenda)
  | .pending type _ => Action.note (.stepStillPending type process)

/-- Has dealt with what was yielded, if anything was, and goes on. -/
def proceed : Option (DrainResult × Halt) → Action Unit
  | none => return ()
  | some (result, halt) => do
    if ← consume result then goOn executor process consume halt

variable {executor process consume}

theorem afterStep_eq (type : StepType) (ran : DrainResult × StepStatus × Agenda) :
    afterStep executor process consume type ran =
      proceed executor process consume (some (ran.1, .afterStep type ran.2.1 ran.2.2)) := by
  obtain ⟨result, status, agenda⟩ := ran
  rw [afterStep, proceed]
  by_cases again : status = .todo <;> simp [again, Halt.afterStep, goOn]

theorem yieldStep_bind (type : StepType) (agenda : Agenda) :
    yieldStep executor process type agenda >>= proceed executor process consume =
      goOn executor process consume (.renewed type agenda) := by
  rw [yieldStep, bind_assoc, goOn]
  congr 1
  funext ran
  rw [pure_bind, afterStep_eq]

/-- **A drain is its generator.**  To go on is to run up to the next result, to have it
dealt with, and to go on. -/
theorem goOn_eq (halt : Halt) :
    goOn executor process consume halt =
      resume executor process halt >>= proceed executor process consume := by
  cases halt with
  | pending type agenda =>
      rw [goOn, resume, bind_assoc]
      simp only [pure_bind, proceed]
      exact (bind_pure (Action.note (.stepStillPending type process))).symm
  | renewed type agenda => exact (yieldStep_bind type agenda).symm
  | ready agenda =>
      rw [goOn, runQueue, resume, bind_assoc]
      congr 1
      funext cancelled
      cases cancelled with
      | true =>
          simp only [if_true, bind_assoc, pure_bind, proceed]
          exact (bind_pure (Action.note (.drainCancelled process))).symm
      | false =>
          simp only [Bool.false_eq_true, if_false]
          split
          · rename_i nothing
            simp only [nothing, pure_bind, proceed]
          · rename_i type rest found
            rw [renewIfNeeded]
            simp only [found, bind_assoc]
            congr 1
            funext reply
            congr 1
            funext needed
            cases needed with
            | true =>
                simp only [if_true, pure_bind, proceed, goOn, runStep, bind_assoc]
                rfl
            | false =>
                simp only [Bool.false_eq_true, if_false, if_true, pure_bind, yieldStep_bind, goOn,
                  runStep, bind_assoc]
                rfl

end Drain

/-- Runs up to the first result of a drain. -/
def Registry.begin (registry : Registry) (process : Uuid) (type : ProcessType) :
    Action (DrainResult × Drain.Halt) := do
  match registry.find? type with
  | none => throw (.unregisteredType type)
  | some registration =>
    let steps ← Action.ofExcept (← Action.ask (.pendingSteps process))
    let types ← Action.ofExcept (← Action.ask (.stepTypes process))
    let agenda := Agenda.load registration.executable steps types
    let preparation ← Action.ofExcept (← Action.ask (.prepare type process agenda.types))
    let created ← Drain.stageSteps process (agenda.unknown (preparation.schedule.getD []))
    let modified := preparation.modified || !created.isEmpty
    return (.ofModified modified, .ready (agenda.addSteps created))

/-- **A drain begins with its generator.** -/
theorem Registry.drain_eq (registry : Registry) (process : Uuid) (type : ProcessType)
    (consume : Drain.Consumer) :
    registry.drain process type consume =
      (registry.begin process type >>= fun yielded =>
        Drain.proceed type process consume (some yielded)) := by
  rw [Registry.drain, Registry.begin]
  cases registry.find? type with
  | none => rfl
  | some registration => simp only [bind_assoc, pure_bind, Drain.proceed, Drain.goOn]

end Workflow
