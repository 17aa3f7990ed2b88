import Workflow.Program

/-!
# Programs under rules

Rules tell what others may do between the requests of a program, what the program may
ask, and how it can be answered.  A program *obeys* them with a promise if it only
asks what it may and keeps the promise when it ends, whatever happens in between.
Programs are put together from requests, and so are the proofs that they obey.
-/

namespace Workflow

/-- Rules over states of the surroundings. -/
structure Rules (σ : Type) where
  /-- What others may do between two requests. -/
  others : σ → σ → Prop
  mayAsk : σ → Request → Prop
  /-- How a request can be answered, and the state afterwards. -/
  answers : σ → (request : Request) → request.Reply → σ → Prop

/-- Others cannot destroy an assertion. -/
def Rules.Stable {σ : Type} (rules : Rules σ) (assertion : σ → Prop) : Prop :=
  ∀ state later, assertion state → rules.others state later → assertion later

theorem Rules.Stable.and {σ : Type} {rules : Rules σ} {first second : σ → Prop}
    (firstStable : rules.Stable first) (secondStable : rules.Stable second) :
    rules.Stable fun state => first state ∧ second state :=
  fun _ _ holds others => ⟨firstStable _ _ holds.1 others, secondStable _ _ holds.2 others⟩

theorem Rules.Stable.imp {σ : Type} {rules : Rules σ} {premise : Prop} {assertion : σ → Prop}
    (stable : rules.Stable assertion) : rules.Stable fun state => premise → assertion state :=
  fun _ _ holds others premise => stable _ _ (holds premise) others

namespace Program

variable {σ α β : Type} {rules : Rules σ} {post : α → σ → Prop} {state later : σ}

/-- A program that asks only what it may, and ends as promised. -/
def Obeys (rules : Rules σ) (post : α → σ → Prop) : Program α → σ → Prop
  | done value, state => post value state
  | ask request rest, state =>
    ∀ later, rules.others state later →
      rules.mayAsk later request ∧
        ∀ reply next, rules.answers later request reply next → (rest reply).Obeys rules post next

theorem Obeys.bind {program : Program α} {next : α → Program β} {final : β → σ → Prop}
    (obeys : program.Obeys rules post state)
    (following : ∀ value state, post value state → (next value).Obeys rules final state) :
    (program.bind next).Obeys rules final state := by
  induction program generalizing state with
  | done value => exact following value state obeys
  | ask request rest induction =>
      intro later others
      obtain ⟨allowed, answered⟩ := obeys later others
      exact ⟨allowed, fun reply next answer => induction reply (answered reply next answer)⟩

theorem Obeys.imp {program : Program α} {weaker : α → σ → Prop}
    (obeys : program.Obeys rules post state)
    (implies : ∀ value state, post value state → weaker value state) :
    program.Obeys rules weaker state := by
  induction program generalizing state with
  | done value => exact implies value state obeys
  | ask request rest induction =>
      intro later others
      obtain ⟨allowed, answered⟩ := obeys later others
      exact ⟨allowed, fun reply next answer => induction reply (answered reply next answer)⟩

theorem Obeys.and {program : Program α} {also : α → σ → Prop}
    (obeys : program.Obeys rules post state) (other : program.Obeys rules also state) :
    program.Obeys rules (fun value state => post value state ∧ also value state) state := by
  induction program generalizing state with
  | done value => exact ⟨obeys, other⟩
  | ask request rest induction =>
      intro later waited
      obtain ⟨allowed, answered⟩ := obeys later waited
      exact ⟨allowed, fun reply next answer =>
        induction reply (answered reply next answer) ((other later waited).2 reply next answer)⟩

theorem Obeys.lenient {program : Program α} {lenient : Rules σ}
    (obeys : program.Obeys rules post state)
    (others : ∀ state later, lenient.others state later → rules.others state later)
    (mayAsk : ∀ state request, rules.mayAsk state request → lenient.mayAsk state request)
    (answers : ∀ state request reply next, lenient.answers state request reply next →
      rules.answers state request reply next) :
    program.Obeys lenient post state := by
  induction program generalizing state with
  | done value => exact obeys
  | ask request rest induction =>
      intro later waited
      obtain ⟨allowed, answered⟩ := obeys later (others _ _ waited)
      exact ⟨mayAsk _ _ allowed, fun reply next answer =>
        induction reply (answered reply next (answers _ _ _ _ answer))⟩

/-! ### Programs that ask certain requests only -/

/-- A program that asks no other requests than these. -/
def Asks (allowed : Request → Prop) : Program α → Prop
  | done _ => True
  | ask request rest => allowed request ∧ ∀ reply, (rest reply).Asks allowed

variable {allowed : Request → Prop}

theorem Asks.obeys_strict {program : Program α} {strict : Rules σ} (asks : program.Asks allowed)
    (obeys : program.Obeys rules post state)
    (others : ∀ state later, strict.others state later → rules.others state later)
    (mayAsk : ∀ state request, allowed request → rules.mayAsk state request →
      strict.mayAsk state request)
    (answers : ∀ state request reply next, strict.answers state request reply next →
      rules.answers state request reply next) :
    program.Obeys strict post state := by
  induction program generalizing state with
  | done value => exact obeys
  | ask request rest induction =>
      intro later waited
      obtain ⟨allowed, answered⟩ := obeys later (others _ _ waited)
      exact ⟨mayAsk _ _ asks.1 allowed, fun reply next answer =>
        induction reply (asks.2 reply) (answered reply next (answers _ _ _ _ answer))⟩

theorem Asks.bind {program : Program α} {next : α → Program β} (asks : program.Asks allowed)
    (following : ∀ value, (next value).Asks allowed) : (program.bind next).Asks allowed := by
  induction program with
  | done value => exact following value
  | ask request rest induction => exact ⟨asks.1, fun reply => induction reply (asks.2 reply)⟩

theorem Asks.imp {program : Program α} {others : Request → Prop} (asks : program.Asks allowed)
    (implies : ∀ request, allowed request → others request) : program.Asks others := by
  induction program with
  | done value => trivial
  | ask request rest induction =>
      exact ⟨implies request asks.1, fun reply => induction reply (asks.2 reply)⟩

/-- What no request of a program destroys still holds when the program ends. -/
theorem Asks.obeys {program : Program α} {assertion : σ → Prop} (asks : program.Asks allowed)
    (stable : rules.Stable assertion)
    (kept : ∀ state, assertion state → ∀ request, allowed request →
      rules.mayAsk state request ∧
        ∀ reply next, rules.answers state request reply next → assertion next)
    (holds : assertion state) : program.Obeys rules (fun _ => assertion) state := by
  induction program generalizing state with
  | done value => exact holds
  | ask request rest induction =>
      intro later others
      obtain ⟨mayAsk, answered⟩ := kept later (stable _ _ holds others) request asks.1
      exact ⟨mayAsk, fun reply next answer =>
        induction reply (asks.2 reply) (answered reply next answer)⟩

end Program

namespace Action

variable {σ α β : Type} {rules : Rules σ} {state : σ} {post : α → σ → Prop}
  {final : β → σ → Prop} {broken : Failure → σ → Prop} {assertion : σ → Prop}

/-- An action that obeys rules and ends with a value or a failure as promised. -/
def Obeys (rules : Rules σ) (post : α → σ → Prop) (broken : Failure → σ → Prop)
    (action : Action α) (state : σ) : Prop :=
  action.run.Obeys rules
    (fun outcome state =>
      match outcome with
      | .ok value => post value state
      | .error failure => broken failure state)
    state

theorem obeys_pure {value : α} (holds : post value state) :
    Obeys rules post broken (pure value) state :=
  holds

theorem obeys_throw {failure : Failure} (holds : broken failure state) :
    Obeys rules post broken (throw failure) state :=
  holds

theorem Obeys.bind {action : Action α} {next : α → Action β}
    (obeys : Obeys rules post broken action state)
    (following : ∀ value state, post value state →
      Obeys rules final broken (next value) state) :
    Obeys rules final broken (action >>= next) state := by
  apply Program.Obeys.bind obeys
  intro outcome state holds
  cases outcome with
  | ok value => exact following value state holds
  | error failure => exact holds

theorem Obeys.imp {action : Action α} {weaker : α → σ → Prop}
    (obeys : Obeys rules post broken action state)
    (implies : ∀ value state, post value state → weaker value state) :
    Obeys rules weaker broken action state := by
  apply Program.Obeys.imp obeys
  intro outcome state holds
  cases outcome with
  | ok value => exact implies value state holds
  | error failure => exact holds

theorem Obeys.imp_broken {action : Action α} {weaker : Failure → σ → Prop}
    (obeys : Obeys rules post broken action state)
    (implies : ∀ failure state, broken failure state → weaker failure state) :
    Obeys rules post weaker action state := by
  apply Program.Obeys.imp obeys
  intro outcome state holds
  cases outcome with
  | ok value => exact holds
  | error failure => exact implies failure state holds

theorem Obeys.and {action : Action α} {also : α → σ → Prop}
    (obeys : Obeys rules post broken action state) (other : Obeys rules also broken action state) :
    Obeys rules (fun value state => post value state ∧ also value state) broken action state := by
  apply Program.Obeys.imp (Program.Obeys.and obeys other)
  intro outcome state holds
  cases outcome with
  | ok value => exact holds
  | error failure => exact holds.1

/-- To look at the outcome of an action and go on is to run the action first. -/
theorem run_outcome_bind (action : Action α) (next : Except Failure α → Action β) :
    (outcome action >>= next).run = action.run.bind fun outcome => (next outcome).run := by
  change (action.run.bind fun outcome => Program.done (Except.ok outcome)).bind
    (ExceptT.bindCont next) = _
  rw [Program.bind_assoc]
  rfl

theorem Obeys.outcome_bind {action : Action α} {next : Except Failure α → Action β}
    {middle : Failure → σ → Prop}
    (obeys : Obeys rules post middle action state)
    (succeeded : ∀ value state, post value state →
      Obeys rules final broken (next (.ok value)) state)
    (failed : ∀ failure state, middle failure state →
      Obeys rules final broken (next (.error failure)) state) :
    Obeys rules final broken (outcome action >>= next) state := by
  rw [Obeys, run_outcome_bind]
  apply Program.Obeys.bind obeys
  intro outcome state holds
  cases outcome with
  | ok value => exact succeeded value state holds
  | error failure => exact failed failure state holds

theorem obeys_ofExcept_bind {outcome : Except Failure α} {next : α → Action β}
    (succeeded : ∀ value, outcome = .ok value → Obeys rules final broken (next value) state)
    (failed : ∀ failure, outcome = .error failure → broken failure state) :
    Obeys rules final broken (ofExcept outcome >>= next) state := by
  cases outcome with
  | ok value => exact succeeded value rfl
  | error failure => exact failed failure rfl

theorem obeys_ask_bind {request : Request} {next : request.Reply → Action β}
    (stable : rules.Stable assertion) (holds : assertion state)
    (mayAsk : ∀ state, assertion state → rules.mayAsk state request)
    (answered : ∀ state, assertion state → ∀ reply after,
      rules.answers state request reply after → Obeys rules final broken (next reply) after) :
    Obeys rules final broken (ask request >>= next) state := by
  intro later others
  have now := stable _ _ holds others
  exact ⟨mayAsk later now, fun reply after answer => answered later now reply after answer⟩

theorem obeys_ask {request : Request} {post : request.Reply → σ → Prop}
    (stable : rules.Stable assertion) (holds : assertion state)
    (mayAsk : ∀ state, assertion state → rules.mayAsk state request)
    (answered : ∀ state, assertion state → ∀ reply after,
      rules.answers state request reply after → post reply after) :
    Obeys rules post broken (ask request) state := by
  intro later others
  have now := stable _ _ holds others
  exact ⟨mayAsk later now, fun reply after answer => answered later now reply after answer⟩

/-! ### Actions that ask certain requests only -/

/-- An action that asks no other requests than these. -/
def Asks (allowed : Request → Prop) (action : Action α) : Prop :=
  action.run.Asks allowed

variable {allowed : Request → Prop}

theorem asks_pure {value : α} : Asks allowed (pure value) :=
  trivial

theorem asks_throw {failure : Failure} : Asks allowed (throw failure : Action α) :=
  trivial

theorem asks_ofExcept {outcome : Except Failure α} : Asks allowed (ofExcept outcome) :=
  trivial

theorem Asks.imp {action : Action α} {others : Request → Prop} (asks : Asks allowed action)
    (implies : ∀ request, allowed request → others request) : Asks others action :=
  Program.Asks.imp asks implies

theorem asks_ask {request : Request} (isAllowed : allowed request) :
    Asks allowed (ask request) :=
  ⟨isAllowed, fun _ => trivial⟩

theorem Asks.bind {action : Action α} {next : α → Action β} (asks : Asks allowed action)
    (following : ∀ value, Asks allowed (next value)) : Asks allowed (action >>= next) := by
  apply Program.Asks.bind asks
  intro outcome
  cases outcome with
  | ok value => exact following value
  | error failure => trivial

theorem Asks.outcome_bind {action : Action α} {next : Except Failure α → Action β}
    (asks : Asks allowed action) (following : ∀ outcome, Asks allowed (next outcome)) :
    Asks allowed (outcome action >>= next) := by
  rw [Asks, run_outcome_bind]
  exact Program.Asks.bind asks following

theorem Asks.obeys {action : Action α} (asks : Asks allowed action)
    (stable : rules.Stable assertion)
    (kept : ∀ state, assertion state → ∀ request, allowed request →
      rules.mayAsk state request ∧
        ∀ reply next, rules.answers state request reply next → assertion next)
    (holds : assertion state) :
    Obeys rules (fun _ => assertion) (fun _ => assertion) action state := by
  apply Program.Obeys.imp (Program.Asks.obeys asks stable kept holds)
  intro outcome state holds
  cases outcome <;> exact holds

end Action

end Workflow
