import Workflow.Proofs.Attempt.Drain
import Workflow.Proofs.Drain.Watch

/-!
# The sequence of steps in a drain

A drain runs each type at most once, always the smallest one that is pending, can be run
and has not been.  It never runs a type that it has skipped, and it starts no further step
once a step is still pending or the work has been cancelled.  All of this holds whatever
the store, the executor and the consumer of the results reply, and the conversation has an
end that is known in advance.
-/

namespace Workflow

open Workflow.Action

/-- The type of the step that is run. -/
def Turn.runs? : Turn → Option StepType
  | ⟨.execute _ _ type _, _⟩ => some type
  | _ => none

/-- The result that is left to whoever has started the drain. -/
def Turn.result? : Turn → Option DrainResult
  | ⟨.consult result, _⟩ => some result
  | _ => none

namespace Ledger

variable {ledger : Ledger} {turn : Turn} {said : List Turn}

theorem ran_record : (ledger.record turn).ran = ledger.ran ++ turn.runs?.toList := by
  have counted : ∀ (ledger : Ledger) (due : DrainResult), (ledger.count due).ran = ledger.ran := by
    intro ledger due
    cases due <;> rfl
  rw [record, counted]
  obtain ⟨request, reply⟩ := turn
  cases request with
  | pendingSteps _ | stepTypes _ | prepare _ _ _ =>
      cases reply <;> exact (List.append_nil _).symm
  | execute _ _ type _ => cases reply <;> rfl
  | _ => exact (List.append_nil _).symm

theorem ran_of : (of said).ran = said.filterMap Turn.runs? := by
  induction said using List.reverseRecOn with
  | nil => rfl
  | append_singleton said turn induction =>
      rw [of_append_singleton, ran_record, induction, List.filterMap_append]
      cases found : turn.runs? <;> simp [found]

end Ledger

namespace Drain

/-! ### The watch over a conversation -/

/-- What a drain may ask in a conversation: whatever it likes, but a step that it runs is
due. -/
def MayAsk (executor : ProcessType) (executable : List StepType) (process : Uuid)
    (said : List Turn) : Request → Prop
  | .execute runner owner type told =>
    runner = executor ∧ owner = process ∧
      ∃ needed handled, IsDue executor executable said type told needed handled
  | _ => True

/-- Nothing is known but what has been said. -/
def hearing (executor : ProcessType) (executable : List StepType) (process : Uuid) :
    Watch (List Turn) where
  rules := Turn.rules (MayAsk executor executable process)
  said := id
  owes _ _ := True
  broken _ _ := True
  renewed _ _ := True

variable {executor : ProcessType} {executable : List StepType} {process : Uuid}
  {consume : Consumer} {agenda : Agenda} {limit : Nat}

theorem mayAsk_of_isMute {said : List Turn} {request : Request} (mute : request.isMute) :
    MayAsk executor executable process said request := by
  cases request <;> first | exact trivial | cases mute

theorem mayAsk_of_isInquiry {said : List Turn} {request : Request}
    (inquiry : request.isInquiry) : MayAsk executor executable process said request := by
  cases request <;> first | exact trivial | cases inquiry

theorem hearing_isKept
    (consumes : ∀ result, Asks (fun request => request.isMute) (consume result)) :
    (hearing executor executable process).IsKept executor executable process consume where
  others same := same
  stableOwes _ := Turn.stable
  stableRenewed _ := Turn.stable
  answers answered := answered
  mayAsk _ inquiry := mayAsk_of_isInquiry inquiry
  mayExecute _ isDue _ := ⟨rfl, rfl, _, _, isDue⟩
  replies _ _ _ _ _ := trivial
  tells _ _ _ _ := trivial
  fails _ _ _ := trivial
  consumes _ := by
    refine (mute_asks_obeys (consumes _) (fun _ mute => mute)
      fun _ _ => mayAsk_of_isMute).imp ?_
    rintro _ next ⟨handled, said, mute⟩
    exact ⟨trivial, handled, said, mute, fun _ => trivial⟩

/-! ### How long a conversation can be -/

/-- The most requests between two steps, given how many the consumer needs for a result. -/
def roundLimit (limit : Nat) : Nat :=
  5 + StepType.members.length + 2 * limit

/-- The most requests of a whole drain. -/
def turnLimit (limit : Nat) : Nat :=
  3 + StepType.members.length + limit + (roundLimit limit * (3 * StepType.members.length) + 2)

theorem length_le_of_nodup {types : List StepType} (nodup : types.Nodup) :
    types.length ≤ StepType.members.length :=
  (nodup.subperm fun type _ => type.mem_members).length_le

theorem stageSteps_within {types : List StepType} (nodup : types.Nodup) :
    Within StepType.members.length (stageSteps process types) := by
  have each : ∀ types, Within types.length (stageSteps process types) := by
    intro types
    induction types with
    | nil => exact within_pure
    | cons type types induction =>
        have staged : Within (1 + (types.length + 0)) (stageSteps process (type :: types)) :=
          within_ask.bind fun _ => induction.bind fun _ => within_pure
        exact staged.mono (by simp; omega)
  exact (each types).mono (length_le_of_nodup nodup)

theorem stageUpdates_within {updates : List (Uuid × StepUpdate)} :
    Within 1 (stageUpdates updates) := by
  rw [stageUpdates]
  split
  · exact within_pure
  · exact within_ask

theorem renewIfNeeded_within {type : StepType}
    (consumes : ∀ result, Within limit (consume result)) :
    Within (1 + limit) (renewIfNeeded executor type consume) := by
  refine within_ask.bind fun reply => Within.ofExcept_bind fun needed => ?_
  cases needed with
  | true => exact consumes .leaseRequested
  | false => exact within_pure

theorem runQueue_within (consumes : ∀ result, Within limit (consume result)) :
    Within (roundLimit limit * agenda.measure + 2)
      (runQueue executor process consume agenda) := by
  induction size : agenda.measure using Nat.strongRecOn generalizing agenda with
  | ind size induction =>
      subst size
      rw [runQueue]
      have total : 1 + (roundLimit limit * agenda.measure + 1) =
          roundLimit limit * agenda.measure + 2 := by omega
      rw [← total]
      refine within_ask.bind fun cancelled => ?_
      cases cancelled with
      | true => exact within_ask.mono (Nat.le_add_left _ _)
      | false =>
          rw [if_neg (by simp)]
          split
          · exact within_pure
          rename_i type rest found
          -- The rest of the queue needs less than before, by more than one round.
          have lower := Agenda.measure_of_next? found
          have round : roundLimit limit * rest.measure + roundLimit limit ≤
              roundLimit limit * agenda.measure := by
            rw [← Nat.mul_succ]
            exact Nat.mul_le_mul_left _ lower
          have later : ∀ (next : Agenda), next.measure ≤ rest.measure →
              Within (roundLimit limit * rest.measure + 2)
                (runQueue executor process consume next) := fun next le =>
            (induction next.measure (Nat.lt_of_le_of_lt le lower) rfl).mono
              (Nat.add_le_add_right (Nat.mul_le_mul_left _ le) 2)
          have enough : 1 + limit + (1 + (1 + (StepType.members.length +
              (1 + (limit + (roundLimit limit * rest.measure + 2)))))) ≤
                roundLimit limit * agenda.measure + 1 := by
            have size : roundLimit limit = 5 + StepType.members.length + 2 * limit := rfl
            omega
          refine Within.mono ?_ enough
          refine (renewIfNeeded_within consumes).bind fun goesOn => ?_
          split
          · refine within_ask.bind fun reply => Within.ofExcept_bind fun result => ?_
            refine stageUpdates_within.bind fun _ => ?_
            refine (stageSteps_within Agenda.nodup_unknown).bind fun created => ?_
            refine within_ask.bind fun _ => (consumes _).bind fun goesOn => ?_
            split
            · split
              · exact within_ask.mono (Nat.le_add_left 1 _)
              · exact later _ (Nat.le_trans (Agenda.measure_addSteps_le _ _)
                  (Agenda.measure_afterResult_le rest type result))
            · exact within_pure
          · exact within_pure

theorem measure_load_le (executable : List StepType) (steps : List PendingStep)
    (types : List StepType) :
    (Agenda.load executable steps types).measure ≤ 3 * StepType.members.length := by
  have unknown : Agenda.unknownCount (Agenda.load executable steps types).known ≤
      StepType.members.length := List.length_filter_le _ _
  have queued : (Agenda.load executable steps types).queue.length ≤ StepType.members.length :=
    length_le_of_nodup ((Agenda.types_load executable steps types).1.filter _)
  rw [Agenda.measure]
  omega

theorem drain_within {registry : Registry} {type : ProcessType}
    (consumes : ∀ result, Within limit (consume result)) :
    Within (turnLimit limit) (registry.drain process type consume) := by
  rw [Registry.drain]
  split
  · exact within_throw
  have total : 1 + (1 + (1 + (StepType.members.length + (limit +
      (roundLimit limit * (3 * StepType.members.length) + 2))))) = turnLimit limit := by
    rw [turnLimit]
    omega
  rw [← total]
  refine within_ask.bind fun _ => Within.ofExcept_bind fun steps => ?_
  refine within_ask.bind fun _ => Within.ofExcept_bind fun types => ?_
  refine within_ask.bind fun _ => Within.ofExcept_bind fun preparation => ?_
  refine (stageSteps_within Agenda.nodup_unknown).bind fun created => ?_
  refine (consumes _).bind fun goesOn => ?_
  split
  · refine (runQueue_within consumes).mono (Nat.add_le_add_right (Nat.mul_le_mul_left _ ?_) 2)
    exact Nat.le_trans (Agenda.measure_addSteps_le _ _) (measure_load_le _ steps types)
  · exact within_pure

/-! ### The sequence -/

theorem nodup_runs {said : List Turn}
    (fresh : ∀ earlier turn after, said = earlier ++ turn :: after →
      ∀ type, turn.runs? = some type → type ∉ earlier.filterMap Turn.runs?) :
    (said.filterMap Turn.runs?).Nodup := by
  induction said using List.reverseRecOn with
  | nil => exact List.nodup_nil
  | append_singleton said last induction =>
      have earlier := induction fun earlier turn after whole =>
        fresh earlier turn (after ++ [last]) (by simp [whole])
      rw [List.filterMap_append, List.nodup_append]
      refine ⟨earlier, ?_, ?_⟩
      · cases found : last.runs? <;> simp [found]
      · intro type ran other isLast same
        have runs : last.runs? = some type := by simpa [same] using isLast
        exact fresh said last [] rfl type runs ran

theorem isDue_of_converses {registry : Registry} {type : ProcessType} {said : List Turn}
    {rest : Program (Except Failure Unit)}
    (consumes : ∀ result, Asks (fun request => request.isMute) (consume result))
    (converses : (registry.drain process type consume).run.Converses said rest)
    {earlier after : List Turn} {runner : ProcessType} {owner : Uuid} {step : StepType}
    {told : List StepType} {reply : Except Failure StepResult}
    (whole : said = earlier ++ ⟨.execute runner owner step told, reply⟩ :: after) :
    runner = type ∧ owner = process ∧ ∃ registration, registry.find? type = some registration ∧
      ∃ needed handled, IsDue type registration.executable earlier step told needed handled := by
  cases found : registry.find? type with
  | none =>
      rw [Registry.drain] at converses
      simp only [found] at converses
      have silent : said.length ≤ 0 := converses.length_le Program.within_done
      simp [whole] at silent
  | some registration =>
      have kept := @hearing_isKept type registration.executable process consume consumes
      have obeys := @Registry.drain_watched _ (hearing type registration.executable process)
        registry process type consume []
        (fun _ same => by
          obtain rfl := Option.some.inj (found.symm.trans same)
          exact kept)
        (fun _ => trivial) (fun _ member => by cases member) trivial
      obtain ⟨sameRunner, sameOwner, needed, handled, isDue⟩ :=
        converses.mayAsk obeys earlier _ after whole
      exact ⟨sameRunner, sameOwner, registration, rfl, needed, handled, isDue⟩

/-- **The sequence of steps in a drain.**  Let the consumer of the results ask nothing that
concerns the drain.  Whatever everybody replies, no type is run twice, so there are no more
steps than types, and the conversation ends.  The executor is told which types are pending,
and it runs the smallest of those that it can run and has not run.  This type was pending at
the beginning or has been scheduled since, and it has not been skipped.  No step has been
left pending before, and when all earlier results had been dealt with the work was not
cancelled. -/
theorem runs_in_order_at_most_once {registry : Registry} {type : ProcessType}
    {said : List Turn} {rest : Program (Except Failure Unit)}
    (consumes : ∀ result, Asks (fun request => request.isMute) (consume result))
    (converses : (registry.drain process type consume).run.Converses said rest) :
    (said.filterMap Turn.runs?).Nodup ∧
      (said.filterMap Turn.runs?).length ≤ StepType.members.length ∧
      (∀ limit, (∀ result, Within limit (consume result)) → said.length ≤ turnLimit limit) ∧
      ∀ earlier runner owner step told reply after,
        said = earlier ++ ⟨.execute runner owner step told, reply⟩ :: after →
          runner = type ∧ owner = process ∧
            (∀ other, other ∈ told ↔ other ∈ (Ledger.of earlier).pending) ∧
            ∃ registration, registry.find? type = some registration ∧
              step ∈ (Ledger.of earlier).candidates registration.executable ∧
              (∀ other ∈ (Ledger.of earlier).candidates registration.executable,
                step.code ≤ other.code) ∧
              (step ∈ (Ledger.of earlier).loaded ∨ step ∈ (Ledger.of earlier).scheduled) ∧
              step ∉ (Ledger.of earlier).skipped ∧
              (∀ turn ∈ earlier, turn.isLast = false) ∧
              ∃ before needed handled, earlier = before ++ ⟨.isCancelled, false⟩ ::
                ⟨.needsLease type step, .ok needed⟩ :: handled ∧
                  (∀ turn ∈ handled, turn.request.isMute) ∧ (needed = false → handled = []) := by
  have due := @isDue_of_converses process consume registry type said rest consumes converses
  have runs : (said.filterMap Turn.runs?).Nodup := by
    refine nodup_runs fun earlier turn after whole step runs => ?_
    obtain ⟨request, reply⟩ := turn
    cases request with
    | execute runner owner other told =>
        obtain rfl : other = step := Option.some.inj runs
        obtain ⟨_, _, registration, _, _, _, isDue⟩ := due whole
        rw [← Ledger.ran_of]
        exact (Ledger.mem_candidates.mp isDue.candidate).2.2
    | _ => cases runs
  refine ⟨runs, length_le_of_nodup runs, ?_, ?_⟩
  · intro limit withinLimit
    exact converses.length_le (drain_within withinLimit)
  · intro earlier runner owner step told reply after whole
    obtain ⟨sameRunner, sameOwner, registration, found, needed, handled, isDue⟩ := due whole
    have pending := (Ledger.mem_candidates.mp isDue.candidate).1
    obtain ⟨before, asked, mute, unneeded⟩ := isDue.asked
    refine ⟨sameRunner, sameOwner, isDue.told, registration, found, isDue.candidate,
      isDue.smallest, isDue.sound.origin step pending, isDue.sound.unskipped step pending,
      isDue.goesOn, before, needed, handled, asked, mute, unneeded⟩

/-! ### The results -/

/-- The results so far and the one that is owed are those that the ledger counts. -/
structure Counts (result : DrainResult) (said : List Turn) : Prop where
  renewals : (said.filterMap Turn.result?).count .leaseRequested + result.renewals =
    (Ledger.of said).renewals
  saves : (said.filterMap Turn.result?).count .saveRequested + result.saves =
    (Ledger.of said).saves

/-- Whoever has started the drain hears its results. -/
def counting : Watch (List Turn) where
  rules := Turn.rules fun said request =>
    match request with
    | .execute _ _ _ _ => Counts .unmodified said
    | _ => True
  said := id
  owes := Counts
  broken _ _ := True
  renewed _ _ := True

namespace Counts

variable {said : List Turn} {turn : Turn} {result : DrainResult}

theorem tell (counts : Counts .unmodified said) (silent : turn.result? = none) :
    Counts ((Ledger.of said).due turn) (said ++ [turn]) := by
  obtain ⟨renewals, saves⟩ := counts
  constructor
  · rw [Ledger.of_append_singleton, Ledger.renewals_record, ← renewals]
    simp [silent, DrainResult.renewals]
  · rw [Ledger.of_append_singleton, Ledger.saves_record, ← saves]
    simp [silent, DrainResult.saves]

theorem hear (counts : Counts result said) (silent : turn.result? = none)
    (other : turn.request.isForExecutor = false) : Counts result (said ++ [turn]) := by
  have uncounted := Ledger.due_of_not_isForExecutor (Ledger.of said) other
  constructor
  · rw [Ledger.of_append_singleton, Ledger.renewals_record, uncounted, ← counts.renewals]
    simp [silent, DrainResult.renewals]
  · rw [Ledger.of_append_singleton, Ledger.saves_record, uncounted, ← counts.saves]
    simp [silent, DrainResult.saves]

theorem consult (counts : Counts result said) (reply : Except Failure Bool) :
    Counts .unmodified (said ++ [⟨.consult result, reply⟩]) := by
  have ledger : Ledger.of (said ++ [⟨.consult result, reply⟩]) = Ledger.of said := by
    rw [Ledger.of_append_singleton, Ledger.record_of_isMute rfl]
  obtain ⟨renewals, saves⟩ := counts
  constructor
  · rw [ledger, ← renewals]
    cases result <;> simp [Turn.result?, DrainResult.renewals]
  · rw [ledger, ← saves]
    cases result <;> simp [Turn.result?, DrainResult.saves]

end Counts

theorem counting_isKept : counting.IsKept executor executable process consult where
  others same := same
  stableOwes _ := Turn.stable
  stableRenewed _ := Turn.stable
  answers answered := answered
  mayAsk {_ _ request} _ inquiry := by
    cases request <;> trivial
  mayExecute owes _ _ := owes
  replies {_ _ request _ _} owes inquiry other _ answered := by
    subst answered
    refine owes.hear ?_ other
    cases request <;> first | rfl | cases inquiry
  tells {_ request _ _} owes isForExecutor _ answered := by
    subst answered
    refine owes.tell ?_
    cases request <;> first | rfl | cases isForExecutor
  fails _ _ _ := trivial
  consumes {result said} owes := by
    have stable : counting.rules.Stable fun later => later = said := Turn.stable
    rw [Drain.consult]
    refine obeys_ask_bind stable rfl (fun _ _ => trivial) ?_
    rintro _ rfl reply next answered
    subst answered
    have counts := owes.consult reply
    cases reply with
    | error failure => exact obeys_throw trivial
    | ok goesOn => exact obeys_pure ⟨counts, [_], rfl, by simp [Request.isMute], fun _ => trivial⟩

/-- **The ledger counts the results.**  Whenever a step is run, the results that asked for a
renewed lease, or for a commit, are as many as the ledger has counted, and so they are when
the drain has ended. -/
theorem results_counted {registry : Registry} {type : ProcessType} {said : List Turn}
    {rest : Program (Except Failure Unit)}
    (converses : (registry.drain process type consult).run.Converses said rest) :
    (∀ earlier turn after, said = earlier ++ turn :: after → turn.runs?.isSome →
      Counts .unmodified earlier) ∧ (rest = .done (.ok ()) → Counts .unmodified said) := by
  have obeys : Obeys counting.rules (fun _ => Counts .unmodified) (fun _ _ => True)
      (registry.drain process type consult) [] :=
    Registry.drain_watched (fun _ _ => counting_isKept) (fun _ => trivial)
      (fun _ member => by cases member) ⟨rfl, rfl⟩
  constructor
  · rintro earlier ⟨request, reply⟩ after whole isRun
    have mayAsk := converses.mayAsk obeys earlier _ after whole
    cases request with
    | execute _ _ _ _ => exact mayAsk
    | _ => cases isRun
  · rintro rfl
    exact (converses.leads _).obeys obeys

theorem consult_asks {result : DrainResult} :
    Asks (fun request => request.isMute) (consult result) :=
  Asks.bind (asks_ask rfl) fun _ => asks_ofExcept

theorem consult_within {result : DrainResult} : Within 1 (consult result) :=
  within_ask.bind fun _ => @within_ofExcept _ 0 _

/-- A process has pending steps of two types.  Its preparation schedules a smaller one, and
the step of this type skips the next and asks for itself again. -/
theorem exists_conversation :
    ∃ (said : List Turn) (outcome : Except Failure Unit),
      (Registry.drain ⟨[⟨.setupDim, [.createSubaccount, .createServicemanagerBindings,
        .assignEntitlements]⟩]⟩ (.ofNat 1) .setupDim consult).run.Converses said
          (.done outcome) ∧
      said.filterMap Turn.runs? = [.createSubaccount, .assignEntitlements] := by
  let process := Uuid.ofNat 1
  let registry : Registry := ⟨[⟨.setupDim, [.createSubaccount, .createServicemanagerBindings,
    .assignEntitlements]⟩]⟩
  have talk : (registry.drain process .setupDim consult).run.Converses []
      (registry.drain process .setupDim consult).run := .start
  have talk := talk.answer (.pendingSteps process) rfl
    (.ok [⟨.ofNat 2, .createServicemanagerBindings⟩, ⟨.ofNat 3, .assignEntitlements⟩])
  have talk := talk.answer (.stepTypes process) rfl
    (.ok [.createServicemanagerBindings, .assignEntitlements])
  have talk := talk.answer (.prepare .setupDim process _) rfl
    (.ok ⟨false, some [.createSubaccount]⟩)
  have talk := talk.answer (.stageStep .createSubaccount process) rfl (.ofNat 4)
  have talk := talk.answer (.consult .saveRequested) rfl (.ok true)
  -- The smallest type is run, although it came last.
  have talk := talk.answer .isCancelled (by rw [runQueue]; rfl) false
  have talk := talk.answer (.needsLease .setupDim .createSubaccount) rfl (.ok true)
  have talk := talk.answer (.consult .leaseRequested) rfl (.ok true)
  have talk := talk.answer (.execute .setupDim process .createSubaccount _) rfl
    (.ok ⟨false, .done, some [.createSubaccount], some [.createServicemanagerBindings], none⟩)
  have talk := talk.answer (.stageUpdates _) rfl ()
  have talk := talk.answer (.note _) rfl ()
  have talk := talk.answer (.consult .saveRequested) rfl (.ok true)
  -- The other one has been skipped.
  have talk := talk.answer .isCancelled (by rw [runQueue]; rfl) false
  have talk := talk.answer (.needsLease .setupDim .assignEntitlements) rfl (.ok false)
  have talk := talk.answer (.execute .setupDim process .assignEntitlements _) rfl
    (.ok ⟨false, .todo, none, none, none⟩)
  have talk := talk.answer (.note _) rfl ()
  have talk := talk.answer (.consult .unmodified) rfl (.ok true)
  have talk := talk.answer (.note _) rfl ()
  refine ⟨_, _, talk, ?_⟩
  simp only [List.nil_append, List.filterMap_append, List.filterMap_cons, List.filterMap_nil,
    Turn.runs?]
  rfl

/-- The drain runs the type that was scheduled last and then the one that was not skipped,
each of them once, and it has long come to its end. -/
theorem runs_scheduled_type_first :
    ∃ said : List Turn, said.filterMap Turn.runs? = [.createSubaccount, .assignEntitlements] ∧
      (said.filterMap Turn.runs?).Nodup ∧ said.length ≤ turnLimit 1 ∧
      ∃ earlier, StepType.assignEntitlements ∉ (Ledger.of earlier).skipped ∧
        ∀ turn ∈ earlier, turn.isLast = false := by
  obtain ⟨said, outcome, talk, runs⟩ := exists_conversation
  obtain ⟨once, _, ends, due⟩ := runs_in_order_at_most_once (fun _ => consult_asks) talk
  have isRun : StepType.assignEntitlements ∈ said.filterMap Turn.runs? := by simp [runs]
  obtain ⟨⟨request, reply⟩, heard, isLast⟩ := List.mem_filterMap.mp isRun
  obtain ⟨earlier, after, whole⟩ := List.append_of_mem heard
  cases request with
  | execute runner owner type told =>
      obtain rfl : type = .assignEntitlements := Option.some.inj isLast
      obtain ⟨_, _, _, _, _, _, _, _, unskipped, goesOn, _⟩ :=
        due earlier runner owner _ told reply after whole
      exact ⟨said, runs, once, ends 1 fun _ => consult_within, earlier, unskipped, goesOn⟩
  | _ => cases isLast

end Drain

end Workflow
