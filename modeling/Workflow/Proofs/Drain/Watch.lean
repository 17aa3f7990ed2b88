import Workflow.Proofs.Attempt.Failing
import Workflow.Proofs.Drain.Ledger

/-!
# Watching a drain

Whoever watches a drain hears its conversation.  The agenda of the drain agrees with the
ledger of what has been said whenever a step is run, so the step is *due* by what the
drain has been told.

A *watch* says what else is certain in the course of a drain.  Each result of an executor
is owed until it has been dealt with, and the watch tells what holds while it is owed.
What an executor, the store and the consumer of the results do is checked one by one, and
the rest is a single walk along the drain, whatever is watched.
-/

namespace Workflow

open Workflow.Action

/-- The reply tells nothing of the steps of a process, nor whether the work was
cancelled. -/
def Request.isMute : Request → Bool
  | isCancelled | pendingSteps _ | stepTypes _ | prepare _ _ _ | needsLease _ _
  | execute _ _ _ _ => false
  | _ => true

/-- What a drain asks on its own, apart from running a step and from what its consumer
asks. -/
def Request.isInquiry : Request → Bool
  | note (.drained _ _) => false
  | note _ | isCancelled | pendingSteps _ | stepTypes _ | stageUpdates _ | stageStep _ _
  | prepare _ _ _ | needsLease _ _ => true
  | _ => false

/-- The failure of an executor, or of a question to the store. -/
def Turn.failure? : Turn → Option Failure
  | ⟨.pendingSteps _, .error failure⟩ | ⟨.stepTypes _, .error failure⟩
  | ⟨.prepare _ _ _, .error failure⟩ | ⟨.needsLease _ _, .error failure⟩
  | ⟨.execute _ _ _ _, .error failure⟩ => some failure
  | _ => none

/-- After such a turn no further step is started: the work was cancelled, or a step is
still pending after it has been run. -/
def Turn.isLast : Turn → Bool
  | ⟨.isCancelled, cancelled⟩ => cancelled
  | ⟨.execute _ _ _ _, .ok result⟩ => result.status == .todo
  | _ => false

namespace Ledger

variable {said turns : List Turn} {turn : Turn} {ledger : Ledger}

theorem record_of_isMute (mute : turn.request.isMute) : ledger.record turn = ledger := by
  obtain ⟨request, reply⟩ := turn
  cases request <;> first | rfl | cases mute

theorem due_of_not_isForExecutor (ledger : Ledger)
    (other : turn.request.isForExecutor = false) :
    ledger.due turn = .unmodified := by
  obtain ⟨request, reply⟩ := turn
  cases request <;> first | rfl | cases other

theorem of_append_of_isMute (mute : ∀ turn ∈ turns, turn.request.isMute) :
    of (said ++ turns) = of said := by
  rw [of, List.foldl_append, ← of]
  induction turns with
  | nil => rfl
  | cons turn turns induction =>
      rw [List.foldl_cons, record_of_isMute (mute turn List.mem_cons_self)]
      exact induction fun other member => mute other (List.mem_cons_of_mem turn member)

end Ledger

theorem Turn.isLast_of_isMute {turn : Turn} (mute : turn.request.isMute) :
    turn.isLast = false := by
  obtain ⟨request, reply⟩ := turn
  cases request <;> first | rfl | cases mute

namespace Drain

/-- What is certain of a step when it is run, by what has been said before. -/
structure IsDue (executor : ProcessType) (executable : List StepType) (said : List Turn)
    (type : StepType) (told : List StepType) (needed : Bool) (handled : List Turn) : Prop where
  /-- The executor is told which types are pending. -/
  told : ∀ other, other ∈ told ↔ other ∈ (Ledger.of said).pending
  candidate : type ∈ (Ledger.of said).candidates executable
  smallest : ∀ other ∈ (Ledger.of said).candidates executable, type.code ≤ other.code
  sound : (Ledger.of said).Sound
  goesOn : ∀ turn ∈ said, turn.isLast = false
  /-- Right before, the work was not cancelled, and the lease was renewed if the executor
  asked for it. -/
  asked : ∃ before, said = before ++ ⟨.isCancelled, false⟩ ::
    ⟨.needsLease executor type, .ok needed⟩ :: handled ∧
      (∀ turn ∈ handled, turn.request.isMute) ∧ (needed = false → handled = [])

/-- What somebody sees of a drain. -/
structure Watch (σ : Type) where
  rules : Rules σ
  /-- The conversation so far. -/
  said : σ → List Turn
  /-- What holds while a result has to be dealt with; after a modified result, for
  instance, a commit is owed. -/
  owes : DrainResult → σ → Prop
  broken : Failure → σ → Prop
  /-- What holds right after a request for a renewed lease has been dealt with in some
  turns. -/
  renewed : List Turn → σ → Prop

variable {σ : Type}

/-- An action that asks only what is mute and allowed says nothing that concerns a drain. -/
theorem mute_asks_obeys {α : Type} {mayAsk : List Turn → Request → Prop}
    {allowed : Request → Prop} {action : Action α} {said : List Turn} (asks : Asks allowed action)
    (isMute : ∀ request, allowed request → request.isMute)
    (allows : ∀ said request, allowed request → mayAsk said request) :
    Obeys (Turn.rules mayAsk)
      (fun _ next => ∃ handled, next = said ++ handled ∧ ∀ turn ∈ handled, turn.request.isMute)
      (fun _ _ => True) action said := by
  refine (asks.obeys Turn.stable ?_ ⟨[], by simp, by simp⟩).imp_broken fun _ _ _ => trivial
  rintro _ ⟨handled, rfl, mute⟩ request isAllowed
  refine ⟨allows _ request isAllowed, fun reply next answers => ?_⟩
  refine ⟨handled ++ [⟨request, reply⟩], ?_, ?_⟩
  · rw [← List.append_assoc]
    exact answers
  · exact List.forall_mem_append.mpr
      ⟨mute, List.forall_mem_singleton.mpr (isMute request isAllowed)⟩

/-- A drain that has come to this has no reason to go on: the work was cancelled, a step is
still pending after it has been run, or no type is left that can be run. -/
def IsSpent (executable : List StepType) (said : List Turn) : Prop :=
  (∃ turn ∈ said, turn.isLast) ∨ (Ledger.of said).candidates executable = ∅

/-- Where a drain stands between two results. -/
structure Watch.Stands (watch : Watch σ) (executable : List StepType) (agenda : Agenda)
    (state : σ) : Prop where
  agrees : agenda.Agrees executable (Ledger.of (watch.said state))
  sound : (Ledger.of (watch.said state)).Sound
  goesOn : ∀ turn ∈ watch.said state, turn.isLast = false

/-- What has to be checked of everybody that a drain deals with. -/
structure Watch.IsKept (watch : Watch σ) (executor : ProcessType) (executable : List StepType)
    (process : Uuid) (consume : Consumer) : Prop where
  others : ∀ {state later}, watch.rules.others state later → watch.said later = watch.said state
  stableOwes : ∀ result, watch.rules.Stable (watch.owes result)
  stableRenewed : ∀ handled, watch.rules.Stable (watch.renewed handled)
  answers : ∀ {state request reply next}, watch.rules.answers state request reply next →
    watch.said next = watch.said state ++ [⟨request, reply⟩]
  mayAsk : ∀ {result state request}, watch.owes result state → request.isInquiry →
    watch.rules.mayAsk state request
  mayExecute : ∀ {state type told needed handled}, watch.owes .unmodified state →
    IsDue executor executable (watch.said state) type told needed handled →
      (needed = true → watch.renewed handled state) →
        watch.rules.mayAsk state (.execute executor process type told)
  /-- Whoever is not an executor changes nothing that is owed. -/
  replies : ∀ {result state request reply next}, watch.owes result state → request.isInquiry →
    request.isForExecutor = false → Turn.failure? ⟨request, reply⟩ = none →
      watch.rules.answers state request reply next → watch.owes result next
  tells : ∀ {state request reply next}, watch.owes .unmodified state → request.isForExecutor →
    Turn.failure? ⟨request, reply⟩ = none → watch.rules.answers state request reply next →
      watch.owes ((Ledger.of (watch.said state)).due ⟨request, reply⟩) next
  fails : ∀ {failure state request reply next}, watch.owes .unmodified state →
    Turn.failure? ⟨request, reply⟩ = some failure →
      watch.rules.answers state request reply next → watch.broken failure next
  consumes : ∀ {result state}, watch.owes result state →
    Obeys watch.rules
      (fun _ next => watch.owes .unmodified next ∧ ∃ handled,
        watch.said next = watch.said state ++ handled ∧
          (∀ turn ∈ handled, turn.request.isMute) ∧
          (result = .leaseRequested → watch.renewed handled next))
      watch.broken (consume result) state

variable {watch : Watch σ} {executor : ProcessType} {executable : List StepType}
  {process : Uuid} {consume : Consumer} {agenda : Agenda} {state later next : σ}
  {result : DrainResult} {α : Type} {final : α → σ → Prop}

/-- A state in which no more has been said that concerns the drain. -/
def Watch.Follows (watch : Watch σ) (state later : σ) : Prop :=
  ∃ turns, watch.said later = watch.said state ++ turns ∧ ∀ turn ∈ turns, turn.request.isMute

theorem Watch.Follows.refl (watch : Watch σ) (state : σ) : watch.Follows state state :=
  ⟨[], by simp, by simp⟩

theorem Watch.Follows.trans (first : watch.Follows state later)
    (second : watch.Follows later next) : watch.Follows state next := by
  obtain ⟨turns, said, mute⟩ := first
  obtain ⟨more, saidMore, muteMore⟩ := second
  exact ⟨turns ++ more, by rw [saidMore, said, List.append_assoc],
    List.forall_mem_append.mpr ⟨mute, muteMore⟩⟩

theorem Watch.Follows.single {turn : Turn} (mute : turn.request.isMute)
    (said : watch.said later = watch.said state ++ [turn]) : watch.Follows state later :=
  ⟨[turn], said, fun _ member => List.mem_singleton.mp member ▸ mute⟩

theorem Watch.Follows.ledger_eq (follows : watch.Follows state later) :
    Ledger.of (watch.said later) = Ledger.of (watch.said state) := by
  obtain ⟨turns, said, mute⟩ := follows
  rw [said, Ledger.of_append_of_isMute mute]

theorem Watch.Follows.mem (follows : watch.Follows state later) {turn : Turn}
    (member : turn ∈ watch.said state) : turn ∈ watch.said later := by
  obtain ⟨turns, said, _⟩ := follows
  exact said ▸ List.mem_append_left turns member

theorem Watch.Follows.goesOn (follows : watch.Follows state later)
    (goesOn : ∀ turn ∈ watch.said state, turn.isLast = false) :
    ∀ turn ∈ watch.said later, turn.isLast = false := by
  obtain ⟨turns, said, mute⟩ := follows
  intro turn member
  rw [said] at member
  rcases List.mem_append.mp member with before | after
  · exact goesOn turn before
  · exact Turn.isLast_of_isMute (mute turn after)

namespace Watch.IsKept

variable {request : Request} {following : request.Reply → Action α}

theorem ask_bind (kept : watch.IsKept executor executable process consume)
    (owes : watch.owes result state) (inquiry : request.isInquiry)
    (other : request.isForExecutor = false)
    (replied : ∀ reply next, Turn.failure? ⟨request, reply⟩ = none →
      watch.said next = watch.said state ++ [⟨request, reply⟩] → watch.owes result next →
        Obeys watch.rules final watch.broken (following reply) next)
    (throws : ∀ reply failure, Turn.failure? ⟨request, reply⟩ = some failure →
      following reply = throw failure)
    (free : result = .unmodified ∨ ∀ reply, Turn.failure? ⟨request, reply⟩ = none) :
    Obeys watch.rules final watch.broken (ask request >>= following) state := by
  have stable : watch.rules.Stable fun later =>
      watch.owes result later ∧ watch.said later = watch.said state :=
    (kept.stableOwes result).and fun _ _ same others => (kept.others others).trans same
  refine obeys_ask_bind stable ⟨owes, rfl⟩ (fun _ holds => kept.mayAsk holds.1 inquiry) ?_
  intro later holds reply next answers
  have said := kept.answers answers
  rw [holds.2] at said
  cases fails : Turn.failure? ⟨request, reply⟩ with
  | none => exact replied reply next fails said (kept.replies holds.1 inquiry other fails answers)
  | some failure =>
      rcases free with rfl | never
      · rw [throws reply failure fails]
        exact obeys_throw (kept.fails holds.1 fails answers)
      · simp [never reply] at fails

theorem ask_mute_bind (kept : watch.IsKept executor executable process consume)
    (owes : watch.owes result state) (inquiry : request.isInquiry) (mute : request.isMute)
    (replied : ∀ reply next, watch.Follows state next → watch.owes result next →
      Obeys watch.rules final watch.broken (following reply) next) :
    Obeys watch.rules final watch.broken (ask request >>= following) state := by
  have never : ∀ reply, Turn.failure? ⟨request, reply⟩ = none := by
    intro reply
    cases request <;> first | rfl | cases mute
  have other : request.isForExecutor = false := by
    cases request <;> first | rfl | cases mute
  refine kept.ask_bind owes inquiry other ?_ ?_ (.inr never)
  · exact fun reply next _ said owes => replied reply next (.single mute said) owes
  · exact fun reply failure fails => by simp [never reply] at fails

theorem tell_bind (kept : watch.IsKept executor executable process consume)
    (assertion : σ → Prop) (stable : watch.rules.Stable assertion)
    (owes : watch.owes .unmodified state) (holds : assertion state)
    (isForExecutor : request.isForExecutor)
    (mayAsk : ∀ later, watch.said later = watch.said state → watch.owes .unmodified later →
      assertion later → watch.rules.mayAsk later request)
    (replied : ∀ reply next, Turn.failure? ⟨request, reply⟩ = none →
      watch.said next = watch.said state ++ [⟨request, reply⟩] →
        watch.owes ((Ledger.of (watch.said state)).due ⟨request, reply⟩) next →
          Obeys watch.rules final watch.broken (following reply) next)
    (throws : ∀ reply failure, Turn.failure? ⟨request, reply⟩ = some failure →
      following reply = throw failure) :
    Obeys watch.rules final watch.broken (ask request >>= following) state := by
  have stable : watch.rules.Stable fun later =>
      (watch.owes .unmodified later ∧ watch.said later = watch.said state) ∧ assertion later :=
    ((kept.stableOwes .unmodified).and fun _ _ same others =>
      (kept.others others).trans same).and stable
  refine obeys_ask_bind stable ⟨⟨owes, rfl⟩, holds⟩
    (fun later holds => mayAsk later holds.1.2 holds.1.1 holds.2) ?_
  intro later holds reply next answers
  obtain ⟨⟨owes, same⟩, _⟩ := holds
  have said := kept.answers answers
  cases fails : Turn.failure? ⟨request, reply⟩ with
  | none =>
      have told := kept.tells owes isForExecutor fails answers
      rw [same] at said told
      exact replied reply next fails said told
  | some failure =>
      rw [throws reply failure fails]
      exact obeys_throw (kept.fails owes fails answers)

/-- Steps are staged one by one, each of the type that was asked for. -/
theorem stageSteps_obeys (kept : watch.IsKept executor executable process consume)
    (types : List StepType) (owes : watch.owes result state) :
    Obeys watch.rules
      (fun created next => created.map Prod.fst = types ∧ watch.Follows state next ∧
        watch.owes result next)
      watch.broken (stageSteps process types) state := by
  induction types generalizing state with
  | nil => exact obeys_pure ⟨rfl, .refl watch state, owes⟩
  | cons type types induction =>
      refine kept.ask_mute_bind owes rfl rfl ?_
      intro step next follows owes
      refine (induction owes).bind ?_
      intro created last staged
      obtain ⟨sameTypes, followsOn, owes⟩ := staged
      exact obeys_pure ⟨congrArg (type :: ·) sameTypes, follows.trans followsOn, owes⟩

theorem stageUpdates_obeys (kept : watch.IsKept executor executable process consume)
    (updates : List (Uuid × StepUpdate)) (owes : watch.owes result state) :
    Obeys watch.rules (fun _ next => watch.Follows state next ∧ watch.owes result next)
      watch.broken (stageUpdates updates) state := by
  rw [stageUpdates]
  split
  · exact obeys_pure ⟨.refl watch state, owes⟩
  · rw [← bind_pure (ask _)]
    exact kept.ask_mute_bind owes rfl rfl fun _ _ follows owes => obeys_pure ⟨follows, owes⟩

end Watch.IsKept

/-! ### From one result to the next -/

/-- What is certain right before a step is run. -/
structure Watch.Awaits (watch : Watch σ) (executor : ProcessType) (executable : List StepType)
    (type : StepType) (agenda : Agenda) (needed : Bool) (handled : List Turn) (state : σ) :
    Prop where
  due : IsDue executor executable (watch.said state) type agenda.types needed handled
  agrees : agenda.Agrees executable ((Ledger.of (watch.said state)).run type)
  renewed : needed = true → watch.renewed handled state

/-- What is certain where a drain goes on. -/
def Watch.HaltsAt (watch : Watch σ) (executor : ProcessType) (executable : List StepType) :
    Halt → σ → Prop
  | .ready agenda, state => watch.Stands executable agenda state
  | .renewed type agenda, state =>
    ∃ handled, watch.Awaits executor executable type agenda true handled state
  | .pending _ _, state => ∃ turn ∈ watch.said state, turn.isLast

/-- A result is owed, and once it has been dealt with the drain can go on. -/
structure Watch.Yields (watch : Watch σ) (executor : ProcessType) (executable : List StepType)
    (result : DrainResult) (halt : Halt) (state : σ) : Prop where
  owes : watch.owes result state
  handled : ∀ handled next, watch.said next = watch.said state ++ handled →
    (∀ turn ∈ handled, turn.request.isMute) →
      (result = .leaseRequested → watch.renewed handled next) →
        watch.HaltsAt executor executable halt next

/-- A drain has yielded something and has less to do than before, or it has ended. -/
def Watch.Resumed (watch : Watch σ) (executor : ProcessType) (executable : List StepType)
    (rank : Nat) (yielded : Option (DrainResult × Halt)) (state : σ) : Prop :=
  match yielded with
  | none => watch.owes .unmodified state ∧ IsSpent executable (watch.said state)
  | some (result, halt) => watch.Yields executor executable result halt state ∧ halt.rank < rank

/-- Whoever deals with the results always wants the drain to go on. -/
def Watch.Urges (watch : Watch σ) (consume : Consumer) : Prop :=
  ∀ result state, watch.owes result state →
    Obeys watch.rules (fun goesOn _ => goesOn = true) watch.broken (consume result) state

/-- What is certain when a drain has ended. -/
structure Watch.Rests (watch : Watch σ) (executable : List StepType) (consume : Consumer)
    (state : σ) : Prop where
  owes : watch.owes .unmodified state
  spent : watch.Urges consume → IsSpent executable (watch.said state)

variable {type : StepType} {rest : Agenda} {needed : Bool} {handled : List Turn} {halt : Halt}

/-- Once the smallest type has been taken off the queue and the lease has been renewed, if
that was asked for, the step is due. -/
theorem Watch.Stands.awaits (stands : watch.Stands executable agenda state)
    (found : agenda.next? = some (type, rest))
    (said : watch.said next = watch.said state ++ ⟨.isCancelled, false⟩ ::
      ⟨.needsLease executor type, .ok needed⟩ :: handled)
    (mute : ∀ turn ∈ handled, turn.request.isMute) (unneeded : needed = false → handled = [])
    (renewed : needed = true → watch.renewed handled next) :
    watch.Awaits executor executable type rest needed handled next := by
  obtain ⟨candidate, smallest, agrees⟩ := stands.agrees.next? found
  obtain ⟨due, ledger⟩ : ∃ due, Ledger.of (watch.said next) =
      (Ledger.of (watch.said state)).count due := by
    have regrouped : watch.said next = (watch.said state ++ [⟨.isCancelled, false⟩]) ++
        [⟨.needsLease executor type, .ok needed⟩] ++ handled := by simp [said]
    rw [regrouped, Ledger.of_append_of_isMute mute, Ledger.of_append_singleton,
      Ledger.of_append_singleton]
    exact ⟨_, rfl⟩
  have agrees : rest.Agrees executable ((Ledger.of (watch.said next)).run type) := by
    rw [ledger, Ledger.run_count]
    exact agrees.count due
  refine ⟨⟨agrees.pending, ?_, ?_, ?_, ?_, ?_⟩, agrees, renewed⟩
  · rwa [ledger, Ledger.candidates_count]
  · rwa [ledger, Ledger.candidates_count]
  · rw [ledger]
    exact stands.sound.count due
  · intro turn member
    rw [said] at member
    simp only [List.mem_append, List.mem_cons] at member
    rcases member with before | rfl | rfl | later
    · exact stands.goesOn turn before
    · rfl
    · rfl
    · exact Turn.isLast_of_isMute (mute turn later)
  · exact ⟨watch.said state, said, mute, unneeded⟩

/-- When a step has been run and nothing more has been said that concerns the drain, the drain
stands where the status tells, with an agenda that agrees with the result. -/
theorem Watch.Awaits.haltsAt (awaits : watch.Awaits executor executable type rest needed handled
      state) {result : StepResult} {told : List StepType} {settled : Agenda}
    (said : watch.said next = watch.said state ++ [⟨.execute executor process type told,
      .ok result⟩])
    (agrees : settled.Agrees executable (((Ledger.of (watch.said state)).run type).settle type
      result))
    (follows : watch.Follows next later) :
    watch.HaltsAt executor executable (.afterStep type result.status settled) later := by
  rw [Halt.afterStep]
  split
  · rename_i again
    refine ⟨_, follows.mem (said ▸ List.mem_append_right _ List.mem_cons_self), ?_⟩
    simpa [Turn.isLast] using again
  · rename_i ended
    have sound := awaits.due.sound.run awaits.due.candidate
    have ledger := follows.ledger_eq
    rw [said, Ledger.of_append_singleton] at ledger
    refine ⟨?_, ?_, follows.goesOn fun turn member => ?_⟩
    · rw [ledger]
      exact agrees.count _
    · rw [ledger]
      exact (sound.settle type result).count _
    · rw [said] at member
      rcases List.mem_append.mp member with before | last
      · exact awaits.due.goesOn turn before
      · rw [List.mem_singleton.mp last]
        simpa [Turn.isLast] using ended

namespace Watch.IsKept

/-- A step is run, and its result is staged and yielded. -/
theorem yieldStep_obeys (kept : watch.IsKept executor executable process consume)
    (awaits : watch.Awaits executor executable type rest needed handled state)
    (owes : watch.owes .unmodified state) {rank : Nat} (higher : 2 * rest.measure < rank) :
    Obeys watch.rules (watch.Resumed executor executable rank) watch.broken
      (yieldStep executor process type rest) state := by
  rw [yieldStep, runStep, bind_assoc]
  refine kept.tell_bind _ (kept.stableRenewed handled).imp owes awaits.renewed rfl ?_ ?_ ?_
  · intro later same owes renewed
    exact kept.mayExecute owes (same ▸ awaits.due) renewed
  · intro reply ran fails saidRan owes
    cases reply with
    | error failure => cases fails
    | ok result =>
        change Obeys _ _ _ (stageUpdates _ >>= _ >>= _) ran
        rw [bind_assoc]
        refine (kept.stageUpdates_obeys _ owes).bind ?_
        rintro _ staged ⟨follows, owes⟩
        rw [bind_assoc]
        refine (kept.stageSteps_obeys _ owes).bind ?_
        rintro created added ⟨scheduled, followsOn, owes⟩
        rw [bind_assoc]
        refine kept.ask_mute_bind owes rfl rfl ?_
        intro _ noted followsNote owes
        have sound := awaits.due.sound.run awaits.due.candidate
        obtain ⟨settled, changed⟩ := awaits.agrees.applyResult sound result scheduled
        rw [Bool.or_assoc, changed]
        refine obeys_pure ⟨⟨owes, ?_⟩, ?_⟩
        · intro handled last said mute _
          exact awaits.haltsAt saidRan settled
            (((follows.trans followsOn).trans followsNote).trans ⟨handled, said, mute⟩)
        · refine Nat.lt_of_le_of_lt (Halt.rank_afterStep_le) (Nat.lt_of_le_of_lt ?_ higher)
          exact Nat.mul_le_mul_left 2 (Nat.le_trans (Agenda.measure_addSteps_le _ _)
            (Agenda.measure_afterResult_le rest type result))
  · rintro (_ | _) _ ⟨⟩
    rfl

theorem renewOrYield_obeys (kept : watch.IsKept executor executable process consume)
    (stands : watch.Stands executable agenda state) (found : agenda.next? = some (type, rest))
    (said : watch.said next = watch.said state ++ [⟨.isCancelled, false⟩])
    (owes : watch.owes .unmodified next) :
    Obeys watch.rules (watch.Resumed executor executable (Halt.ready agenda).rank) watch.broken
      (do
        if ← Action.ofExcept (← Action.ask (.needsLease executor type)) then
          return some (.leaseRequested, .renewed type rest)
        else yieldStep executor process type rest)
      next := by
  have smaller := Agenda.measure_of_next? found
  refine kept.tell_bind (fun _ => True) (fun _ _ _ _ => trivial) owes trivial rfl
    (fun _ _ owes _ => kept.mayAsk owes rfl) ?_ ?_
  · intro reply told fails saidTold owes
    rw [said, List.append_assoc] at saidTold
    cases reply with
    | error failure => cases fails
    | ok needed =>
        cases needed with
        | false =>
            have awaits : watch.Awaits executor executable type rest false [] told :=
              stands.awaits found saidTold (by simp) (fun _ => rfl) (by simp)
            refine kept.yieldStep_obeys awaits owes ?_
            simp only [Halt.rank]
            omega
        | true =>
            refine obeys_pure ⟨⟨owes, ?_⟩, ?_⟩
            · intro handled last saidLast mute renewed
              have said : watch.said last = watch.said state ++ ⟨.isCancelled, false⟩ ::
                  ⟨.needsLease executor type, .ok true⟩ :: handled := by
                rw [saidLast, saidTold, List.append_assoc]
                rfl
              exact ⟨handled, stands.awaits found said mute (by simp) fun _ => renewed rfl⟩
            · simp only [Halt.rank]
              omega
  · rintro (_ | _) _ ⟨⟩
    rfl

theorem resume_obeys (kept : watch.IsKept executor executable process consume)
    (halts : watch.HaltsAt executor executable halt state) (owes : watch.owes .unmodified state) :
    Obeys watch.rules (watch.Resumed executor executable halt.rank) watch.broken
      (resume executor process halt) state := by
  cases halt with
  | pending type agenda =>
      obtain ⟨turn, member, isLast⟩ := halts
      rw [resume]
      refine kept.ask_mute_bind owes rfl rfl fun _ _ follows owes => obeys_pure ⟨owes, ?_⟩
      exact .inl ⟨turn, follows.mem member, isLast⟩
  | renewed type agenda =>
      obtain ⟨handled, awaits⟩ := halts
      exact kept.yieldStep_obeys awaits owes (Nat.lt_succ_self _)
  | ready agenda =>
      have stands : watch.Stands executable agenda state := halts
      rw [resume]
      refine kept.ask_bind owes rfl rfl ?_ (fun _ _ fails => by cases fails) (.inl rfl)
      intro cancelled asked _ saidAsked owes
      cases cancelled with
      | true =>
          rw [if_pos rfl]
          refine kept.ask_mute_bind owes rfl rfl fun _ _ follows owes => obeys_pure ⟨owes, ?_⟩
          exact .inl ⟨_, follows.mem (saidAsked ▸ List.mem_append_right _ List.mem_cons_self), rfl⟩
      | false =>
          rw [if_neg (by simp)]
          split
          · rename_i nothing
            refine obeys_pure ⟨owes, .inr ?_⟩
            rw [saidAsked, Ledger.of_append_singleton]
            exact stands.agrees.candidates_eq_empty nothing
          · rename_i type rest found
            exact kept.renewOrYield_obeys stands found saidAsked owes

/-- A result is dealt with, and whoever has dealt with it may be known to go on. -/
theorem consumes_rests (kept : watch.IsKept executor executable process consume)
    (owes : watch.owes result state) :
    Obeys watch.rules
      (fun goesOn next => (watch.owes .unmodified next ∧ ∃ handled,
        watch.said next = watch.said state ++ handled ∧
          (∀ turn ∈ handled, turn.request.isMute) ∧
          (result = .leaseRequested → watch.renewed handled next)) ∧
        (watch.Urges consume → goesOn = true))
      watch.broken (consume result) state := by
  refine (kept.consumes owes).and ?_
  by_cases urges : watch.Urges consume
  · exact (urges result state owes).imp fun _ _ goesOn _ => goesOn
  · exact (kept.consumes owes).imp fun _ _ _ also => absurd also urges

theorem goOn_obeys (kept : watch.IsKept executor executable process consume)
    (halts : watch.HaltsAt executor executable halt state) (owes : watch.owes .unmodified state) :
    Obeys watch.rules (fun _ => watch.Rests executable consume) watch.broken
      (goOn executor process consume halt) state := by
  induction size : halt.rank using Nat.strongRecOn generalizing halt state with
  | ind size induction =>
      subst size
      rw [goOn_eq]
      refine (kept.resume_obeys halts owes).bind ?_
      intro yielded next resumed
      match yielded, resumed with
      | none, ⟨owes, spent⟩ => exact obeys_pure ⟨owes, fun _ => spent⟩
      | some (result, later), ⟨yields, lower⟩ =>
          refine (kept.consumes_rests yields.owes).bind ?_
          rintro goesOn last ⟨⟨owes, handled, said, mute, renewed⟩, urged⟩
          cases goesOn with
          | false => exact obeys_pure ⟨owes, fun urges => by cases urged urges⟩
          | true => exact induction _ lower (yields.handled handled last said mute renewed) owes rfl

end Watch.IsKept

/-- Nothing has been said yet that concerns the drain. -/
def Watch.Begins (watch : Watch σ) (state : σ) : Prop :=
  ∀ turn ∈ watch.said state, turn.request.isMute

theorem Watch.Begins.ledger_eq (begins : watch.Begins state) :
    Ledger.of (watch.said state) = .empty := by
  have account := @Ledger.of_append_of_isMute [] _ begins
  rwa [List.nil_append] at account

end Drain

open Drain

theorem Registry.begin_watched {σ : Type} {watch : Watch σ} {registry : Registry}
    {process : Uuid} {type : ProcessType} {consume : Consumer} {state : σ}
    {registration : Registration} (found : registry.find? type = some registration)
    (kept : watch.IsKept type registration.executable process consume)
    (begins : watch.Begins state) (owes : watch.owes .unmodified state) :
    Obeys watch.rules (fun yielded => watch.Yields type registration.executable yielded.1 yielded.2)
      watch.broken (registry.begin process type) state := by
  rw [Registry.begin]
  simp only [found]
  refine kept.ask_bind owes rfl rfl ?_ (by rintro (_ | _) _ ⟨⟩; rfl) (.inl rfl)
  rintro (_ | steps) loaded fails saidLoaded owes
  · cases fails
  refine kept.ask_bind owes rfl rfl ?_ (by rintro (_ | _) _ ⟨⟩; rfl) (.inl rfl)
  rintro (_ | types) listed fails saidListed owes
  · cases fails
  have ledger : Ledger.of (watch.said listed) =
      (Ledger.empty.load (steps.map PendingStep.type)).learn types := by
    rw [saidListed, saidLoaded, Ledger.of_append_singleton, Ledger.of_append_singleton,
      begins.ledger_eq]
    rfl
  have agrees : (Agenda.load registration.executable steps types).Agrees
      registration.executable (Ledger.of (watch.said listed)) :=
    ledger ▸ Agenda.agrees_load _ steps types
  have sound : (Ledger.of (watch.said listed)).Sound := ledger ▸ Ledger.sound_load _ types
  refine kept.tell_bind (fun _ => True) (fun _ _ _ _ => trivial) owes trivial rfl
    (fun _ _ owes _ => kept.mayAsk owes rfl) ?_ (by rintro (_ | _) _ ⟨⟩; rfl)
  rintro (_ | preparation) told fails saidTold owes
  · cases fails
  refine (kept.stageSteps_obeys _ owes).bind ?_
  rintro created staged ⟨scheduled, follows, owes⟩
  obtain ⟨sameSchedule, nothing⟩ := agrees.unknown (preparation.schedule.getD [])
  have changed : (!created.isEmpty) = decide
      ((Ledger.of (watch.said listed)).lacking (preparation.schedule.getD [])).Nonempty := by
    rw [Bool.eq_iff_iff, Bool.not_eq_true', List.isEmpty_eq_false_iff, decide_eq_true_eq, Ne,
      ← List.map_eq_nil_iff (f := Prod.fst), scheduled, nothing, not_not]
  rw [changed]
  refine obeys_pure ⟨owes, ?_⟩
  intro handled last said mute _
  have follows : watch.Follows told last := follows.trans ⟨handled, said, mute⟩
  have account := follows.ledger_eq
  rw [saidTold, Ledger.of_append_singleton] at account
  refine ⟨?_, ?_, follows.goesOn fun turn member => ?_⟩
  · rw [account]
    have added := agrees.addSteps sound created
    rw [scheduled, sameSchedule] at added
    exact added.count _
  · rw [account]
    exact (sound.schedule _).count _
  · rw [saidTold, saidListed, saidLoaded] at member
    simp only [List.mem_append, List.mem_singleton] at member
    rcases member with ((before | rfl) | rfl) | rfl
    · exact Turn.isLast_of_isMute (begins turn before)
    · rfl
    · rfl
    · rfl

/-- **A watched drain.**  Every step that is run is due by what has been said before.  When
the drain ends nothing is owed, and there is a reason for it to end unless its consumer wants
no more. -/
theorem Registry.drain_rests {σ : Type} {watch : Watch σ} {registry : Registry}
    {process : Uuid} {type : ProcessType} {consume : Consumer} {state : σ}
    (kept : ∀ registration, registry.find? type = some registration →
      watch.IsKept type registration.executable process consume)
    (unregistered : registry.find? type = none → watch.broken (.unregisteredType type) state)
    (begins : watch.Begins state) (owes : watch.owes .unmodified state) :
    Obeys watch.rules
      (fun _ state => ∃ registration, registry.find? type = some registration ∧
        watch.Rests registration.executable consume state)
      watch.broken (registry.drain process type consume) state := by
  rw [Registry.drain_eq]
  cases found : registry.find? type with
  | none =>
      rw [Registry.begin]
      simp only [found]
      exact obeys_throw (unregistered found)
  | some registration =>
      have kept := kept registration found
      refine (Registry.begin_watched found kept begins owes).bind ?_
      rintro ⟨result, halt⟩ yielded yields
      refine (kept.consumes_rests yields.owes).bind ?_
      rintro goesOn last ⟨⟨owes, handled, said, mute, renewed⟩, urged⟩
      cases goesOn with
      | false => exact obeys_pure ⟨registration, rfl, owes, fun urges => by cases urged urges⟩
      | true =>
          refine (kept.goOn_obeys (yields.handled handled last said mute renewed) owes).imp ?_
          exact fun _ _ rests => ⟨registration, rfl, rests⟩

theorem Registry.drain_watched {σ : Type} {watch : Watch σ} {registry : Registry}
    {process : Uuid} {type : ProcessType} {consume : Consumer} {state : σ}
    (kept : ∀ registration, registry.find? type = some registration →
      watch.IsKept type registration.executable process consume)
    (unregistered : registry.find? type = none → watch.broken (.unregisteredType type) state)
    (begins : watch.Begins state) (owes : watch.owes .unmodified state) :
    Obeys watch.rules (fun _ => watch.owes .unmodified) watch.broken
      (registry.drain process type consume) state :=
  (drain_rests kept unregistered begins owes).imp fun _ _ ⟨_, _, rests⟩ => rests.owes

end Workflow
