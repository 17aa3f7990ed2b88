import Workflow.Proofs.Attempt.Failing

/-!
# The order in which executors tell

An attempt has its process prepared before it runs any step, and it has it prepared
only once.  What executors have told is therefore a preparation and then the results
of steps, however far the attempt has come.
-/

namespace Workflow

open Workflow.Action

namespace Outcome

/-- A preparation comes first, if anything does, and all that follows are steps. -/
inductive InOrder : List Outcome → Prop where
  | nil : InOrder []
  | prepared (preparation : Preparation) : InOrder [prepared preparation]
  | ran {told : List Outcome} (type : StepType) (result : StepResult) (begun : told ≠ [])
      (earlier : InOrder told) : InOrder (told ++ [ran type result])

/-- Nobody tells anything between two requests. -/
def rules : Rules (List Outcome) where
  others told later := later = told
  mayAsk told _ := InOrder told
  answers told request reply next := next = told ++ (request.outcome? reply).toList

variable {assertion : List Outcome → Prop} {told next : List Outcome} {request : Request}
  {reply : request.Reply} {α : Type} {action : Action α}

theorem stable : rules.Stable assertion :=
  fun _ _ holds (same : _ = _) => same ▸ holds

theorem InOrder.answer (order : InOrder told) (begun : told ≠ [])
    (other : request.isPreparing = false) (answers : rules.answers told request reply next) :
    next ≠ [] ∧ InOrder next := by
  have extended : next = told ++ (request.outcome? reply).toList := answers
  subst extended
  refine ⟨by simp [begun], ?_⟩
  cases found : request.outcome? reply with
  | none => simpa using order
  | some outcome =>
      cases request with
      | prepare _ _ _ => cases other
      | execute executor process type types =>
          cases reply with
          | ok result =>
              cases found
              exact .ran type result begun order
          | error failure => cases found
      | _ => cases found

theorem answers_eq (other : request.isForExecutor = false)
    (answers : rules.answers told request reply next) : next = told := by
  have extended : next = told ++ (request.outcome? reply).toList := answers
  rw [extended, Request.outcome?_eq_none other]
  exact List.append_nil told

theorem asks_obeys_same (order : InOrder told)
    (asks : Asks (fun request => request.isForExecutor = false) action) :
    Obeys rules (fun _ after => after = told) (fun _ after => after = told) action told := by
  refine asks.obeys stable ?_ rfl
  rintro _ rfl request other
  exact ⟨order, fun reply next answers => answers_eq other answers⟩

/-- Once a process is prepared, whatever is told are the results of steps. -/
theorem asks_obeys_inOrder (order : InOrder told) (begun : told ≠ [])
    (asks : Asks (fun request => request.isPreparing = false) action) :
    Obeys rules (fun _ => InOrder) (fun _ => InOrder) action told := by
  have keeps := asks.obeys (@stable fun told => told ≠ [] ∧ InOrder told) ?_ ⟨begun, order⟩
  · exact (keeps.imp fun _ _ => And.right).imp_broken fun _ _ => And.right
  · intro told holds request other
    exact ⟨holds.2, fun reply next => holds.2.answer holds.1 other⟩

end Outcome

open Outcome

/-- The process is prepared before the queue is run. -/
theorem Registry.drain_tells {registry : Registry} {process : Uuid} {type : ProcessType}
    {consume : Drain.Consumer}
    (consumes : ∀ result, PassesOn (fun request => request.isOfQueue) (consume result)) :
    Obeys rules (fun _ => InOrder) (fun _ => InOrder) (registry.drain process type consume)
      [] := by
  have unknowing : ∀ {told : List Outcome}, told = [] → InOrder told := fun none => none ▸ .nil
  rw [Registry.drain]
  split
  · exact obeys_throw .nil
  refine obeys_ask_bind (@stable (· = [])) rfl (fun _ => unknowing) ?_
  intro told none _ next answers
  obtain rfl := (answers_eq rfl answers).trans none
  refine obeys_ofExcept_bind (fun steps _ => ?_) fun _ _ => .nil
  refine obeys_ask_bind (@stable (· = [])) rfl (fun _ => unknowing) ?_
  intro told none _ next answers
  obtain rfl := (answers_eq rfl answers).trans none
  refine obeys_ofExcept_bind (fun types _ => ?_) fun _ _ => .nil
  refine obeys_ask_bind (@stable (· = [])) rfl (fun _ => unknowing) ?_
  intro told none reply next answers
  cases none
  have told : next = (Request.outcome? _ reply).toList := answers
  cases reply with
  | error failure =>
      obtain rfl : next = [] := told
      exact obeys_throw .nil
  | ok preparation =>
      obtain rfl : next = [.prepared preparation] := told
      refine asks_obeys_inOrder (.prepared preparation) (by simp) ?_
      refine Asks.bind asks_ofExcept fun preparation => ?_
      refine Asks.bind (Drain.stageSteps_asks fun _ => rfl) fun created => ?_
      have unprepared : ∀ request : Request, request.isOfQueue → request.isPreparing = false :=
        fun _ => Request.isPreparing_of_isOfQueue
      refine Asks.bind ((consumes _).asks.imp unprepared) fun goesOn => ?_
      split
      · exact (Drain.runQueue_passesOn consumes).asks.imp unprepared
      · exact asks_pure

/-- **Executors tell in order.** -/
theorem Registry.attempt_tells (registry : Registry) (term : LeaseTerm) :
    Obeys rules (fun _ => InOrder) (fun _ => InOrder) (registry.attempt term) [] := by
  have clerical : ∀ {α : Type} {action : Action α} {told : List Outcome}, InOrder told →
      Asks (fun request => request.isClerical) action →
        Obeys rules (fun _ after => after = told) (fun _ after => after = told) action told :=
    fun order asks =>
      asks_obeys_same order (asks.imp fun _ => Request.isForExecutor_of_isClerical)
  have settled : ∀ {told : List Outcome} {action : Action Unit}, InOrder told →
      Asks (fun request => request.isClerical) action →
        Obeys rules (fun _ => InOrder) (fun _ => InOrder) action told := by
    intro told action order asks
    refine ((clerical order asks).imp ?_).imp_broken ?_ <;>
      exact fun _ _ same => same ▸ order
  have works : ∀ process, Obeys rules (fun _ => InOrder) (fun _ => InOrder)
      (Attempt.work registry term process) [] := by
    intro process
    refine ((clerical .nil Attempt.acquire_asks).imp_broken ?_).bind ?_
    · exact fun _ _ same => same ▸ .nil
    · rintro isLeased _ rfl
      split
      · refine (Registry.drain_tells fun _ => Attempt.settle_passesOn).bind ?_
        exact fun _ _ order => settled order Attempt.close_asks
      · exact obeys_pure .nil
  rw [Registry.attempt]
  refine obeys_ask_bind (@stable (· = [])) rfl (fun _ none => none ▸ .nil) ?_
  intro told none process next answers
  obtain rfl := (answers_eq rfl answers).trans none
  refine (works process).outcome_bind ?_ ?_
  · exact fun _ _ order => obeys_pure order
  · exact fun _ _ order => settled order Attempt.recover_asks

theorem Attempt.told_inOrder {habits : Habits} {id : Uuid} {start scene : Scene}
    {registry : Registry} {term : LeaseTerm} {log : List Exchange}
    {rest : Program (Except Failure Unit)}
    (reaches : (registry.attempt term).run.Reaches habits id start log rest scene) :
    InOrder (told log) := by
  have obeys := reaches.obeys_view (fun log _ => told log) (registry.attempt_tells term)
    (fun _ _ _ _ => rfl) fun _ _ _ _ _ => told_append_singleton
  cases rest with
  | done outcome => cases outcome <;> exact obeys
  | ask request rest => exact (obeys _ rfl).1

end Workflow
