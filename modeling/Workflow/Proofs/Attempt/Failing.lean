import Workflow.Proofs.Attempt.History
import Workflow.Proofs.Drain.Generator

/-!
# What follows a failing executor

When an executor fails, nothing more of the drain is done: the failure is passed on
at once, and the attempt goes over to its recovery.  A queue prepares nothing.
-/

namespace Workflow

open Workflow.Action Workflow.Drain

/-- The failure of an executor. -/
def Request.failure? : (request : Request) → request.Reply → Option Failure
  | prepare _ _ _, .error failure => some failure
  | needsLease _ _, .error failure => some failure
  | execute _ _ _ _, .error failure => some failure
  | _, _ => none

namespace Request

variable {request : Request} {reply : request.Reply} {failure : Failure}

theorem isForExecutor_of_failure? (fails : request.failure? reply = some failure) :
    request.isForExecutor := by
  cases request <;> first | rfl | cases fails

end Request

namespace Program

variable {α β : Type} {program : Program α} {next : α → Program β}
  {allowed others : Request → Prop} {handled : Failure → Program α → Prop}
  {final : Failure → Program β → Prop}

/-- A program that asks no other requests than these, and that goes on as given after a
failure of an executor. -/
def HandsOver (allowed : Request → Prop) (handled : Failure → Program α → Prop) :
    Program α → Prop
  | done _ => True
  | ask request rest =>
    allowed request ∧
      (∀ reply failure, request.failure? reply = some failure → handled failure (rest reply)) ∧
      ∀ reply, (rest reply).HandsOver allowed handled

theorem handsOver_of_asks
    (asks : program.Asks fun request => allowed request ∧ request.isForExecutor = false) :
    program.HandsOver allowed handled := by
  induction program with
  | done value => trivial
  | ask request rest induction =>
      obtain ⟨⟨isAllowed, other⟩, asks⟩ := asks
      refine ⟨isAllowed, ?_, fun reply => induction reply (asks reply)⟩
      intro reply failure fails
      have isFor := Request.isForExecutor_of_failure? fails
      simp [other] at isFor

theorem HandsOver.asks (handsOver : program.HandsOver allowed handled) :
    program.Asks allowed := by
  induction program with
  | done value => trivial
  | ask request rest induction =>
      exact ⟨handsOver.1, fun reply => induction reply (handsOver.2.2 reply)⟩

theorem HandsOver.imp (handsOver : program.HandsOver allowed handled)
    (implies : ∀ request, allowed request → others request) :
    program.HandsOver others handled := by
  induction program with
  | done value => trivial
  | ask request rest induction =>
      obtain ⟨isAllowed, failing, later⟩ := handsOver
      exact ⟨implies request isAllowed, failing, fun reply => induction reply (later reply)⟩

theorem HandsOver.bind (handsOver : program.HandsOver allowed handled)
    (following : ∀ value, (next value).HandsOver allowed final)
    (carries : ∀ failure rest, handled failure rest → final failure (rest.bind next)) :
    (program.bind next).HandsOver allowed final := by
  induction program with
  | done value => exact following value
  | ask request rest induction =>
      obtain ⟨isAllowed, failing, later⟩ := handsOver
      refine ⟨isAllowed, fun reply failure fails => ?_,
        fun reply => induction reply (later reply)⟩
      exact carries failure _ (failing reply failure fails)

theorem Reaches.handsOver {habits : Habits} {id : Uuid} {start scene : Scene}
    {log : List Exchange} {rest : Program α}
    (reaches : program.Reaches habits id start log rest scene)
    (handsOver : program.HandsOver allowed handled) : rest.HandsOver allowed handled := by
  induction reaches with
  | start => exact handsOver
  | step _ _ _ _ induction => exact induction.2.2 _

end Program

namespace Action

variable {α β : Type} {request : Request} {allowed others : Request → Prop}

/-- An action that asks no other requests than these, and that ends at once when an
executor fails. -/
def PassesOn (allowed : Request → Prop) (action : Action α) : Prop :=
  action.run.HandsOver allowed fun failure rest => rest = .done (.error failure)

theorem passesOn_of_asks {action : Action α}
    (asks : Asks (fun request => allowed request ∧ request.isForExecutor = false) action) :
    PassesOn allowed action :=
  Program.handsOver_of_asks asks

theorem PassesOn.asks {action : Action α} (passesOn : PassesOn allowed action) :
    Asks allowed action :=
  Program.HandsOver.asks passesOn

theorem PassesOn.imp {action : Action α} (passesOn : PassesOn allowed action)
    (implies : ∀ request, allowed request → others request) : PassesOn others action :=
  Program.HandsOver.imp passesOn implies

theorem PassesOn.bind {action : Action α} {next : α → Action β}
    (passesOn : PassesOn allowed action) (following : ∀ value, PassesOn allowed (next value)) :
    PassesOn allowed (action >>= next) := by
  refine Program.HandsOver.bind passesOn ?_ ?_
  · intro outcome
    cases outcome with
    | ok value => exact following value
    | error failure => trivial
  · rintro failure _ rfl
    rfl

theorem passesOn_ask_bind {next : request.Reply → Action β} (isAllowed : allowed request)
    (throws : ∀ reply failure, request.failure? reply = some failure →
      next reply = throw failure)
    (following : ∀ reply, PassesOn allowed (next reply)) :
    PassesOn allowed (ask request >>= next) := by
  refine ⟨isAllowed, ?_, following⟩
  intro reply failure fails
  change (next reply).run = _
  rw [throws reply failure fails]
  rfl

end Action

namespace Drain

variable {executor : ProcessType} {process : Uuid} {consume : Consumer} {agenda : Agenda}
  {allowed : Request → Prop}

theorem stageSteps_asks {types : List StepType}
    (isAllowed : ∀ type, allowed (.stageStep type process)) :
    Asks allowed (stageSteps process types) := by
  induction types with
  | nil => exact asks_pure
  | cons type types induction =>
      exact Asks.bind (asks_ask (isAllowed type)) fun _ => Asks.bind induction fun _ => asks_pure

theorem stageUpdates_asks {updates : List (Uuid × StepUpdate)}
    (isAllowed : allowed (.stageUpdates updates)) : Asks allowed (stageUpdates updates) := by
  rw [stageUpdates]
  split
  · exact asks_pure
  · exact asks_ask isAllowed

theorem renewIfNeeded_passesOn {type : StepType}
    (isAllowed : allowed (.needsLease executor type))
    (consumes : ∀ result, PassesOn allowed (consume result)) :
    PassesOn allowed (renewIfNeeded executor type consume) := by
  refine passesOn_ask_bind isAllowed ?_ ?_
  · rintro (_ | _) _ ⟨⟩
    rfl
  · intro reply
    refine PassesOn.bind (passesOn_of_asks asks_ofExcept) fun needed => ?_
    split
    · exact consumes .leaseRequested
    · exact passesOn_of_asks asks_pure

theorem runQueue_passesOn
    (consumes : ∀ result, PassesOn (fun request => request.isOfQueue) (consume result)) :
    PassesOn (fun request => request.isOfQueue)
      (runQueue executor process consume agenda) := by
  induction size : agenda.measure using Nat.strongRecOn generalizing agenda with
  | ind size induction =>
      subst size
      rw [runQueue]
      refine PassesOn.bind (passesOn_of_asks (asks_ask ⟨rfl, rfl⟩)) fun cancelled => ?_
      split
      · exact passesOn_of_asks (asks_note ⟨rfl, rfl⟩)
      split
      · exact passesOn_of_asks asks_pure
      rename_i type rest found
      refine PassesOn.bind (renewIfNeeded_passesOn rfl consumes) fun goesOn => ?_
      split
      · refine passesOn_ask_bind rfl ?_ ?_
        · rintro (_ | _) _ ⟨⟩
          rfl
        intro reply
        refine PassesOn.bind (passesOn_of_asks asks_ofExcept) fun result => ?_
        refine PassesOn.bind (passesOn_of_asks (stageUpdates_asks ⟨rfl, rfl⟩)) fun _ => ?_
        refine PassesOn.bind (passesOn_of_asks (stageSteps_asks fun _ => ⟨rfl, rfl⟩))
          fun created => ?_
        refine PassesOn.bind (passesOn_of_asks (asks_note ⟨rfl, rfl⟩)) fun _ => ?_
        refine PassesOn.bind (consumes _) fun goesOn => ?_
        split
        · split
          · exact passesOn_of_asks (asks_note ⟨rfl, rfl⟩)
          · refine induction _ ?_ rfl
            apply Nat.lt_of_le_of_lt (Agenda.measure_addSteps_le _ _)
            apply Nat.lt_of_le_of_lt (Agenda.measure_afterResult_le _ _ _)
            exact Agenda.measure_of_next? found
        · exact passesOn_of_asks asks_pure
      · exact passesOn_of_asks asks_pure

end Drain

theorem Registry.drain_passesOn {registry : Registry} {process : Uuid} {type : ProcessType}
    {consume : Consumer}
    (consumes : ∀ result, PassesOn (fun request => request.isOfQueue) (consume result)) :
    PassesOn (fun request => request.isOfCycle = false)
      (registry.drain process type consume) := by
  rw [Registry.drain]
  split
  · exact passesOn_of_asks asks_throw
  refine PassesOn.bind (passesOn_of_asks (asks_ask ⟨rfl, rfl⟩)) fun _ => ?_
  refine PassesOn.bind (passesOn_of_asks asks_ofExcept) fun steps => ?_
  refine PassesOn.bind (passesOn_of_asks (asks_ask ⟨rfl, rfl⟩)) fun _ => ?_
  refine PassesOn.bind (passesOn_of_asks asks_ofExcept) fun types => ?_
  refine passesOn_ask_bind rfl ?_ ?_
  · rintro (_ | _) _ ⟨⟩
    rfl
  intro reply
  refine PassesOn.bind (passesOn_of_asks asks_ofExcept) fun preparation => ?_
  refine PassesOn.bind (passesOn_of_asks (stageSteps_asks fun _ => ⟨rfl, rfl⟩))
    fun created => ?_
  refine PassesOn.bind ((consumes _).imp fun _ => Request.isOfCycle_of_isOfQueue) fun goesOn => ?_
  split
  · exact (runQueue_passesOn consumes).imp fun _ => Request.isOfCycle_of_isOfQueue
  · exact passesOn_of_asks asks_pure

namespace Attempt

variable {registry : Registry} {term : LeaseTerm} {process : Process}

theorem passesOn_of_clerical {α : Type} {action : Action α} {allowed : Request → Prop}
    (asks : Asks (fun request => request.isClerical) action)
    (allows : ∀ request : Request, request.isOfQueue → allowed request) :
    PassesOn allowed action :=
  passesOn_of_asks <| asks.imp fun request clerical =>
    ⟨allows request (Request.isOfQueue_of_isClerical clerical),
      Request.isForExecutor_of_isClerical clerical⟩

theorem settle_passesOn {result : DrainResult} :
    PassesOn (fun request => request.isOfQueue) (settle term result) :=
  passesOn_of_clerical settle_asks fun _ ofQueue => ofQueue

theorem work_passesOn :
    PassesOn (fun request => request.isOfCycle = false) (work registry term process) := by
  refine PassesOn.bind (passesOn_of_clerical acquire_asks
    fun _ => Request.isOfCycle_of_isOfQueue) fun isLeased => ?_
  split
  · refine PassesOn.bind (Registry.drain_passesOn fun _ => settle_passesOn) fun _ => ?_
    exact passesOn_of_clerical close_asks fun _ => Request.isOfCycle_of_isOfQueue
  · exact passesOn_of_asks asks_pure

end Attempt

/-- **A failing executor ends the work.**  Whatever is left of an attempt is its
recovery. -/
theorem Registry.attempt_handsOver {registry : Registry} {term : LeaseTerm} :
    (registry.attempt term).run.HandsOver (fun request => request.isOfCycle = false)
      fun failure rest =>
      ∃ process, rest = (Attempt.recover process failure).run := by
  rw [Registry.attempt]
  have silent : (ask .held).run.HandsOver (fun request => request.isOfCycle = false)
      fun _ _ => False :=
    Program.handsOver_of_asks (asks_ask ⟨rfl, rfl⟩)
  refine silent.bind ?_ fun _ _ impossible => impossible.elim
  intro held
  cases held with
  | error _ => trivial
  | ok process =>
      change ((outcome (Attempt.work registry term process) >>= _) : Action Unit).run.HandsOver
        _ _
      rw [run_outcome_bind]
      refine Program.HandsOver.bind Attempt.work_passesOn ?_ ?_
      · intro outcome
        cases outcome with
        | ok _ => trivial
        | error failure =>
            exact Program.handsOver_of_asks <| Attempt.recover_asks.imp fun _ clerical =>
              ⟨Request.isOfCycle_of_isOfQueue (Request.isOfQueue_of_isClerical clerical),
                Request.isForExecutor_of_isClerical clerical⟩
      · rintro failure _ rfl
        exact ⟨process, rfl⟩

end Workflow
