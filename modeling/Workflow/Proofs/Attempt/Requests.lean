import Workflow.Attempt
import Workflow.Proofs.Attempt.Rules

/-!
# What the parts of an attempt ask

Only a drain turns to executors and looks at steps.  The other parts of an attempt are
*clerical*: they change the lease, save, discard and report.
-/

namespace Workflow

open Workflow.Action

namespace Request

/-- The request is one to an executor. -/
def isForExecutor : Request → Bool
  | prepare _ _ _ | needsLease _ _ | execute _ _ _ _ => true
  | _ => false

def isPreparing : Request → Bool
  | prepare _ _ _ => true
  | _ => false

/-- The request is one of a cycle, which looks for processes and takes them up. -/
def isOfCycle : Request → Bool
  | hold _ | discover _ | eligiblePage _ _ _ => true
  | _ => false

/-- The request can be one of a drain that has loaded and prepared its process. -/
def isOfQueue : Request → Bool
  | pendingSteps _ | stepTypes _ | prepare _ _ _ => false
  | hold _ | discover _ | eligiblePage _ _ _ => false
  | _ => true

/-- The request concerns the lease at most, and saves nothing. -/
def isQuiet : Request → Bool
  | note _ | now | isCancelled | held | lease _ => true
  | _ => false

/-- The request concerns neither steps nor executors. -/
def isClerical : Request → Bool
  | save | discard => true
  | request => request.isQuiet

/-- The request concerns the lease at most, and does not report the end of a drain. -/
def isRoutine : Request → Bool
  | note (.drained _ _) => false
  | note _ | now | held | lease _ | save | discard => true
  | _ => false

theorem isClerical_of_isRoutine {request : Request} (routine : request.isRoutine) :
    request.isClerical := by
  cases request <;> first | rfl | cases routine

theorem isClerical_of_isQuiet {request : Request} (quiet : request.isQuiet) :
    request.isClerical := by
  cases request <;> first | rfl | cases quiet

theorem isForExecutor_of_isClerical {request : Request} (clerical : request.isClerical) :
    request.isForExecutor = false := by
  cases request <;> first | rfl | cases clerical

theorem isOfQueue_of_isClerical {request : Request} (clerical : request.isClerical) :
    request.isOfQueue := by
  cases request <;> first | rfl | cases clerical

theorem isPreparing_of_isOfQueue {request : Request} (ofQueue : request.isOfQueue) :
    request.isPreparing = false := by
  cases request <;> first | rfl | cases ofQueue

theorem isOfCycle_of_isOfQueue {request : Request} (ofQueue : request.isOfQueue) :
    request.isOfCycle = false := by
  cases request <;> first | rfl | cases ofQueue

end Request

namespace Action

variable {allowed : Request → Prop}

theorem asks_note {notice : Notice} (isAllowed : allowed (.note notice)) :
    Asks allowed (note notice) :=
  asks_ask isAllowed

theorem asks_discard (isAllowed : allowed .discard) : Asks allowed discard :=
  asks_ask isAllowed

theorem asks_save (isAllowed : allowed .save) : Asks allowed save :=
  Asks.bind (asks_ask isAllowed) fun _ => asks_ofExcept

theorem asks_lease {operation : LeaseOp} (isAllowed : allowed (.lease operation)) :
    Asks allowed (lease operation) :=
  Asks.bind (asks_ask isAllowed) fun _ => asks_ofExcept

end Action

namespace Attempt

variable {term : LeaseTerm} {process : Process} {failure : Failure}

theorem renew_quietly :
    Asks (fun request => request.isQuiet ∧ request.isRoutine) (renew term) := by
  refine Asks.bind (asks_ask ⟨rfl, rfl⟩) fun now => ?_
  refine Asks.bind asks_ofExcept fun expiry => ?_
  refine Asks.bind (asks_lease ⟨rfl, rfl⟩) fun _ => ?_
  exact Asks.bind (asks_ask ⟨rfl, rfl⟩) fun _ => asks_note ⟨rfl, rfl⟩

theorem acquire_routine : Asks (fun request => request.isRoutine) (acquire term) := by
  refine Asks.bind (asks_ask rfl) fun now => Asks.bind (asks_ask rfl) fun process => ?_
  split
  · exact Asks.bind (asks_note rfl) fun _ => asks_pure
  · refine Asks.bind asks_ofExcept fun expiry => Asks.bind (asks_lease rfl) fun _ => ?_
    refine Asks.bind (asks_note rfl) fun _ => Asks.outcome_bind (asks_save rfl) fun outcome => ?_
    cases outcome with
    | ok _ => exact Asks.bind (asks_discard rfl) fun _ => asks_pure
    | error failure =>
        dsimp only
        split
        · refine Asks.bind (asks_note rfl) fun _ => ?_
          exact Asks.bind (asks_discard rfl) fun _ => asks_pure
        · exact Asks.bind (asks_discard rfl) fun _ => asks_throw

theorem commit_routine {result : DrainResult} :
    Asks (fun request => request.isRoutine) (settle.commit term result) := by
  cases result with
  | saveRequested => exact Asks.bind (asks_lease rfl) fun _ => asks_save rfl
  | leaseRequested =>
      exact Asks.bind (renew_quietly.imp fun _ => And.right) fun _ => asks_save rfl
  | unmodified => exact asks_pure

theorem settle_routine {result : DrainResult} :
    Asks (fun request => request.isRoutine) (settle term result) :=
  Asks.bind commit_routine fun _ => Asks.bind (asks_discard rfl) fun _ => asks_pure

theorem releaseAfterFailure_routine :
    Asks (fun request => request.isRoutine) releaseAfterFailure := by
  refine Asks.bind (asks_lease rfl) fun released => ?_
  split
  · refine Asks.outcome_bind (asks_save rfl) fun outcome => ?_
    cases outcome with
    | ok _ => exact asks_discard rfl
    | error failure =>
        dsimp only
        split
        · exact Asks.bind (asks_discard rfl) fun _ => asks_throw
        · refine Asks.bind (asks_ask rfl) fun process => ?_
          exact Asks.bind (asks_note rfl) fun _ => asks_discard rfl
  · exact asks_pure

theorem recover_routine : Asks (fun request => request.isRoutine) (recover process failure) := by
  refine Asks.bind (asks_discard rfl) fun _ => ?_
  split
  · exact asks_note rfl
  · split
    · exact asks_throw
    · exact Asks.bind (asks_note rfl) fun _ => releaseAfterFailure_routine

theorem renew_asks : Asks (fun request => request.isQuiet) (renew term) :=
  renew_quietly.imp fun _ => And.left

theorem acquire_asks : Asks (fun request => request.isClerical) (acquire term) :=
  acquire_routine.imp fun _ => Request.isClerical_of_isRoutine

theorem settle_asks {result : DrainResult} :
    Asks (fun request => request.isClerical) (settle term result) :=
  settle_routine.imp fun _ => Request.isClerical_of_isRoutine

theorem recover_asks : Asks (fun request => request.isClerical) (recover process failure) :=
  recover_routine.imp fun _ => Request.isClerical_of_isRoutine

theorem close_asks : Asks (fun request => request.isClerical)
    (do
      if ← lease .release then
        save
      let drained ← ask .held
      note (.drained drained.id drained.version)) := by
  have reports : Asks (fun request => request.isClerical)
      (do
        let drained ← ask .held
        note (.drained drained.id drained.version)) :=
    Asks.bind (asks_ask rfl) fun _ => asks_note rfl
  refine Asks.bind (asks_lease rfl) fun released => ?_
  dsimp only
  split
  · exact Asks.bind (asks_save rfl) fun _ => reports
  · exact reports

end Attempt

end Workflow
