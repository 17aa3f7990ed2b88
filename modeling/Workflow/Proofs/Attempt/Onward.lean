import Workflow.Proofs.Attempt.Conflict

/-!
# What follows a failed step

A drain ends early only if the work is cancelled or a step is still pending after it has been
run.  Any other status of a step is as good as the next: after a step that has failed the drain
goes on with the smallest type that is left, as it does after one that is done.  It ends once
there is no such type.
-/

namespace Workflow

open Workflow.Action Workflow.Drain

/-- The turn that an exchange is. -/
def Exchange.turn (exchange : Exchange) : Turn :=
  ⟨exchange.request, exchange.reply⟩

theorem Exchange.said_append_cons {earlier after : List Exchange} {exchange : Exchange} :
    said (earlier ++ exchange :: after) = said earlier ++ exchange.turn :: said after := by
  rw [said, List.map_append, List.map_cons]
  rfl

theorem Exchange.exists_mem_said {log : List Exchange} {chosen : Turn → Prop} :
    (∃ turn ∈ said log, chosen turn) ↔ ∃ exchange ∈ log, chosen exchange.turn := by
  simp only [said, List.mem_map, exists_exists_and_eq_and]
  rfl

/-- Nothing has been run. -/
def Turn.Unrun (said : List Turn) : Prop :=
  ∀ turn ∈ said, turn.runs? = none

/-- It is reported that the drain has come to its end. -/
def Turn.isDrained : Turn → Bool
  | ⟨.note (.drained _ _), _⟩ => true
  | _ => false

variable {said earlier between after turns : List Turn} {turn ran : Turn} {α : Type}
  {action : Action α} {registry : Registry} {term : LeaseTerm} {executable : List StepType}

theorem Turn.Unrun.say (unrun : Unrun said) (other : turn.runs? = none) :
    Unrun (said ++ [turn]) :=
  List.forall_mem_append.mpr ⟨unrun, List.forall_mem_singleton.mpr other⟩

theorem Turn.exists_first_run (runs : ∃ turn ∈ said, turn.runs?.isSome) :
    ∃ between turn later, said = between ++ turn :: later ∧ Unrun between ∧ turn.runs?.isSome := by
  induction said with
  | nil => simp at runs
  | cons first said induction =>
      by_cases isRun : first.runs?.isSome
      · exact ⟨[], first, said, rfl, by simp [Unrun], isRun⟩
      · have others : ∃ turn ∈ said, turn.runs?.isSome := by simpa [isRun] using runs
        obtain ⟨between, turn, later, rfl, unrun, runs⟩ := induction others
        refine ⟨first :: between, turn, later, rfl, ?_, runs⟩
        intro each member
        rcases List.mem_cons.mp member with rfl | member
        · simpa using isRun
        · exact unrun each member

theorem Ledger.candidates_append (unrun : Turn.Unrun turns)
    (ofQueue : ∀ turn ∈ turns, turn.request.isOfQueue) :
    (of (said ++ turns)).candidates executable = (of said).candidates executable := by
  induction turns using List.reverseRecOn with
  | nil => rw [List.append_nil]
  | append_singleton turns last induction =>
      have inQueue := ofQueue last (List.mem_append_right _ List.mem_cons_self)
      have isQuiet := unrun last (List.mem_append_right _ List.mem_cons_self)
      have unheard : ∀ ledger : Ledger, ledger.hear last = ledger := by
        intro ledger
        obtain ⟨request, reply⟩ := last
        cases request with
        | pendingSteps _ | stepTypes _ | prepare _ _ _ => cases inQueue
        | execute _ _ _ _ => cases isQuiet
        | _ => rfl
      rw [← List.append_assoc, of_append_singleton, record, candidates_count, unheard]
      exact induction (fun turn member => unrun turn (List.mem_append_left _ member))
        fun turn member => ofQueue turn (List.mem_append_left _ member)

/-! ### Loading -/

namespace Loading

/-- A process is loaded and prepared only before anything is run. -/
def rules : Rules (List Turn) :=
  Turn.rules fun said request => request.isOfQueue = false → Turn.Unrun said

theorem clerical_obeys (unrun : Turn.Unrun said)
    (asks : Asks (fun request => request.isClerical) action) :
    Obeys rules (fun _ => Turn.Unrun) (fun _ => Turn.Unrun) action said := by
  refine asks.obeys Turn.stable ?_ unrun
  intro said unrun request clerical
  refine ⟨fun _ => unrun, ?_⟩
  rintro reply _ rfl
  exact unrun.say (by cases request <;> first | rfl | cases clerical)

theorem queue_obeys (asks : Asks (fun request => request.isOfQueue) action) :
    Obeys rules (fun _ _ => True) (fun _ _ => True) action said := by
  have stable : rules.Stable fun _ => True := Turn.stable
  refine asks.obeys stable ?_ trivial
  intro said _ request ofQueue
  exact ⟨fun loads => by simp [ofQueue] at loads, fun _ _ _ => trivial⟩

theorem drain_obeys {process : Uuid} {type : ProcessType} (unrun : Turn.Unrun said) :
    Obeys rules (fun _ _ => True) (fun _ _ => True)
      (registry.drain process type (Attempt.settle term)) said := by
  rw [Registry.drain]
  split
  · exact obeys_throw trivial
  refine obeys_ask_bind Turn.stable unrun (fun _ unrun _ => unrun) ?_
  rintro said unrun reply _ rfl
  refine obeys_ofExcept_bind (fun steps _ => ?_) fun _ _ => trivial
  refine obeys_ask_bind Turn.stable (unrun.say rfl) (fun _ unrun _ => unrun) ?_
  rintro said unrun reply _ rfl
  refine obeys_ofExcept_bind (fun types _ => ?_) fun _ _ => trivial
  refine obeys_ask_bind Turn.stable (unrun.say rfl) (fun _ unrun _ => unrun) ?_
  rintro said unrun reply _ rfl
  have settles := fun result =>
    (@Attempt.settle_passesOn term result).asks
  refine queue_obeys <| Asks.bind asks_ofExcept fun preparation => ?_
  refine Asks.bind (Drain.stageSteps_asks fun _ => rfl) fun created => ?_
  refine Asks.bind (settles _) fun goesOn => ?_
  split
  · exact (Drain.runQueue_passesOn fun _ => Attempt.settle_passesOn).asks
  · exact asks_pure

end Loading

open Loading in
/-- An attempt loads its process before it runs anything. -/
theorem Registry.attempt_obeys_loading (registry : Registry) (term : LeaseTerm) :
    Obeys Loading.rules (fun _ _ => True) (fun _ _ => True) (registry.attempt term) [] := by
  have ofQueue : ∀ request : Request, request.isClerical → request.isOfQueue :=
    fun _ => Request.isOfQueue_of_isClerical
  rw [Registry.attempt]
  refine obeys_ask_bind Turn.stable (fun _ member => by cases member) (fun _ unrun _ => unrun) ?_
  rintro said unrun process _ rfl
  have works : Obeys Loading.rules (fun _ _ => True) (fun _ _ => True)
      (Attempt.work registry term process) (said ++ [⟨.held, process⟩]) := by
    refine ((clerical_obeys (unrun.say rfl) Attempt.acquire_asks).imp_broken
      fun _ _ _ => trivial).bind ?_
    intro isLeased said unrun
    split
    · exact (drain_obeys unrun).bind fun _ _ _ => queue_obeys (Attempt.close_asks.imp ofQueue)
    · exact obeys_pure trivial
  refine works.outcome_bind (fun _ _ _ => obeys_pure trivial) fun _ _ _ => ?_
  exact queue_obeys (Attempt.recover_asks.imp ofQueue)

/-- Whatever is asked after a step has been run is asked in the queue. -/
theorem Registry.isOfQueue_of_ran {rest : Program (Except Failure Unit)}
    (converses : (registry.attempt term).run.Converses said rest)
    (whole : said = earlier ++ ran :: after) (isRun : ran.runs?.isSome) :
    ∀ turn ∈ after, turn.request.isOfQueue := by
  intro turn member
  obtain ⟨between, later, rfl⟩ := List.append_of_mem member
  have mayAsk := converses.mayAsk (registry.attempt_obeys_loading term)
    (earlier ++ ran :: between) turn later (by simp [whole])
  cases ofQueue : turn.request.isOfQueue with
  | true => rfl
  | false =>
      have unrun := mayAsk ofQueue ran (List.mem_append_right _ List.mem_cons_self)
      simp [unrun] at isRun

/-! ### Ending -/

namespace Onward

/-- What an attempt may ask: a step that is run is due, and a drain whose end is reported had
no reason to go on. -/
def MayAsk (registry : Registry) (said : List Turn) : Request → Prop
  | .execute runner owner type told =>
    ∃ process registration, said.head? = some ⟨.held, process⟩ ∧
      registry.find? process.type = some registration ∧
        runner = process.type ∧ owner = process.id ∧ ∃ needed handled,
          IsDue process.type registration.executable said type told needed handled
  | .note (.drained _ _) =>
    ∃ process registration, said.head? = some ⟨.held, process⟩ ∧
      registry.find? process.type = some registration ∧ IsSpent registration.executable said
  | _ => True

/-- The attempt has begun with a process. -/
def watch (registry : Registry) (process : Process) : Watch (List Turn) where
  rules := Turn.rules (MayAsk registry)
  said := id
  owes _ said := said.head? = some ⟨.held, process⟩
  broken _ _ := True
  renewed _ _ := True

variable {process : Process} {registration : Registration} {result : DrainResult}

theorem head?_append (begins : said.head? = some turn) : (said ++ turns).head? = some turn := by
  rw [List.head?_append, begins]
  rfl

theorem isSpent_append (spent : IsSpent executable said)
    (mute : ∀ turn ∈ turns, turn.request.isMute) : IsSpent executable (said ++ turns) := by
  rw [IsSpent, Ledger.of_append_of_isMute mute]
  exact spent.imp_left fun ⟨turn, member, isLast⟩ =>
    ⟨turn, List.mem_append_left turns member, isLast⟩

theorem eq_of_begins {other : Process} (begins : said.head? = some ⟨.held, process⟩)
    (also : said.head? = some ⟨.held, other⟩) : other = process := by
  rw [begins] at also
  cases also
  rfl

/-- Whatever is run is the smallest candidate. -/
theorem smallest_of_runs {type : StepType} (begins : said.head? = some ⟨.held, process⟩)
    (found : registry.find? process.type = some registration) (runs : turn.runs? = some type)
    (mayAsk : MayAsk registry said turn.request) :
    type ∈ (Ledger.of said).candidates registration.executable ∧
      ∀ other ∈ (Ledger.of said).candidates registration.executable, type.code ≤ other.code := by
  obtain ⟨request, reply⟩ := turn
  cases request with
  | execute runner owner next told =>
      obtain rfl : next = type := Option.some.inj runs
      obtain ⟨other, registered, opens, also, _, _, _, _, isDue⟩ := mayAsk
      obtain rfl := eq_of_begins begins opens
      obtain rfl : registered = registration := Option.some.inj (also.symm.trans found)
      exact ⟨isDue.candidate, isDue.smallest⟩
  | _ => cases runs

theorem isSpent_of_isDrained (begins : said.head? = some ⟨.held, process⟩)
    (found : registry.find? process.type = some registration) (isDrained : turn.isDrained)
    (mayAsk : MayAsk registry said turn.request) : IsSpent registration.executable said := by
  obtain ⟨request, reply⟩ := turn
  cases request with
  | note notice =>
      cases notice with
      | drained _ _ =>
          obtain ⟨other, registered, opens, also, spent⟩ := mayAsk
          obtain rfl := eq_of_begins begins opens
          obtain rfl : registered = registration := Option.some.inj (also.symm.trans found)
          exact spent
      | _ => cases isDrained
  | _ => cases isDrained

theorem runs_or_cancelled_of_isLast (isLast : turn.isLast) :
    turn.runs?.isSome ∨ turn = ⟨.isCancelled, true⟩ := by
  obtain ⟨request, reply⟩ := turn
  cases request with
  | isCancelled => exact .inr (by simpa [Turn.isLast] using isLast)
  | execute _ _ _ _ => exact .inl rfl
  | _ => cases isLast

theorem isMute_of_isRoutine {request : Request} (routine : request.isRoutine) :
    request.isMute := by
  cases request <;> first | rfl | cases routine

theorem mayAsk_of_isRoutine {request : Request} (routine : request.isRoutine) :
    MayAsk registry said request := by
  cases request with
  | note notice => cases notice <;> trivial
  | _ => trivial

theorem mayAsk_of_isInquiry {request : Request} (inquiry : request.isInquiry) :
    MayAsk registry said request := by
  cases request with
  | note notice => cases notice <;> trivial
  | _ => trivial

theorem routine_obeys (asks : Asks (fun request => request.isRoutine) action) :
    Obeys (Turn.rules (MayAsk registry))
      (fun _ next => ∃ handled, next = said ++ handled ∧ ∀ turn ∈ handled, turn.request.isMute)
      (fun _ _ => True) action said :=
  mute_asks_obeys asks (fun _ => isMute_of_isRoutine) fun _ _ => mayAsk_of_isRoutine

theorem watch_isKept (found : registry.find? process.type = some registration) :
    (watch registry process).IsKept process.type registration.executable process.id
      (Attempt.settle term) where
  others same := same
  stableOwes _ := Turn.stable
  stableRenewed _ := Turn.stable
  answers answered := answered
  mayAsk _ inquiry := mayAsk_of_isInquiry inquiry
  mayExecute begins isDue _ := ⟨process, registration, begins, found, rfl, rfl, _, _, isDue⟩
  replies begins _ _ _ answered := by
    subst answered
    exact head?_append begins
  tells begins _ _ answered := by
    subst answered
    exact head?_append begins
  fails _ _ _ := trivial
  consumes begins := by
    refine (routine_obeys Attempt.settle_routine).imp ?_
    rintro _ _ ⟨handled, rfl, mute⟩
    exact ⟨head?_append begins, handled, rfl, mute, fun _ => trivial⟩

theorem watch_urges : (watch registry process).Urges (Attempt.settle term) := by
  intro result said _
  have commits : Obeys (Turn.rules (MayAsk registry)) _ (fun _ _ => True)
      (Attempt.settle.commit term result) said := routine_obeys Attempt.commit_routine
  refine commits.bind fun _ said _ => ?_
  exact (routine_obeys (asks_discard rfl)).bind fun _ _ _ => obeys_pure rfl

/-- Once the drain has no reason to go on, its end is reported. -/
theorem reports_obeys (begins : said.head? = some ⟨.held, process⟩)
    (found : registry.find? process.type = some registration)
    (spent : IsSpent registration.executable said) :
    Obeys (Turn.rules (MayAsk registry)) (fun _ _ => True) (fun _ _ => True)
      (do
        let drained ← ask .held
        note (.drained drained.id drained.version)) said := by
  have asks : Asks (fun request => request.isRoutine) (ask .held) := asks_ask rfl
  refine (routine_obeys asks).bind ?_
  rintro drained _ ⟨handled, rfl, mute⟩
  have stable : (Turn.rules (MayAsk registry)).Stable (· = said ++ handled) := Turn.stable
  refine obeys_ask stable rfl ?_ fun _ _ _ _ _ => trivial
  rintro _ rfl
  exact ⟨process, registration, head?_append begins, found, isSpent_append spent mute⟩

theorem work_obeys (begins : said.head? = some ⟨.held, process⟩)
    (mute : ∀ turn ∈ said, turn.request.isMute) :
    Obeys (Turn.rules (MayAsk registry)) (fun _ _ => True) (fun _ _ => True)
      (Attempt.work registry term process) said := by
  rw [Attempt.work]
  refine (routine_obeys Attempt.acquire_routine).bind ?_
  rintro isLeased _ ⟨handled, rfl, muteHandled⟩
  split
  · have muteSaid : ∀ turn ∈ said ++ handled, turn.request.isMute :=
      List.forall_mem_append.mpr ⟨mute, muteHandled⟩
    have drains : Obeys (Turn.rules (MayAsk registry)) _ (fun _ _ => True)
        (registry.drain process.id process.type (Attempt.settle term)) (said ++ handled) :=
      @Registry.drain_rests _ (watch registry process) _ _ _ _ _
        (fun _ found => watch_isKept found) (fun _ => trivial) muteSaid (head?_append begins)
    refine drains.bind ?_
    rintro _ drained ⟨registration, found, begins, spent⟩
    have spent := spent watch_urges
    refine (routine_obeys (asks_lease rfl)).bind ?_
    rintro released _ ⟨handled, rfl, mute⟩
    have spent := isSpent_append spent mute
    have begins : (drained ++ handled).head? = some ⟨.held, process⟩ := head?_append begins
    dsimp only
    split
    · refine (routine_obeys (asks_save rfl)).bind ?_
      rintro _ _ ⟨more, rfl, mute⟩
      exact reports_obeys (head?_append begins) found (isSpent_append spent mute)
    · exact reports_obeys begins found spent
  · exact obeys_pure trivial

end Onward

open Onward in
/-- An attempt reports the end of its drain only where the drain had no reason to go on. -/
theorem Registry.attempt_obeys_onward (registry : Registry) (term : LeaseTerm) :
    Obeys (Turn.rules (Onward.MayAsk registry)) (fun _ _ => True) (fun _ _ => True)
      (registry.attempt term) [] := by
  have stable : (Turn.rules (Onward.MayAsk registry)).Stable (· = []) := Turn.stable
  rw [Registry.attempt]
  refine obeys_ask_bind stable rfl (fun _ _ => trivial) ?_
  rintro _ rfl process _ rfl
  have mute : ∀ turn ∈ [(⟨.held, process⟩ : Turn)], turn.request.isMute :=
    List.forall_mem_singleton.mpr rfl
  refine Obeys.outcome_bind (work_obeys rfl mute) (fun _ _ _ => obeys_pure trivial) ?_
  intro failure said _
  exact (routine_obeys Attempt.recover_routine).imp fun _ _ _ => trivial

/-! ### The next step -/

variable {rest : Program (Except Failure Unit)} {executor : ProcessType} {owner : Uuid}
  {type : StepType} {told : List StepType} {result : StepResult}

/-- What can be run after a step has been run, by all that has been said, and what is run. -/
structure Onward (left : Finset StepType) (after : List Turn) : Prop where
  /-- Whatever is run next is the smallest type that is left. -/
  next : ∀ between turn later type, after = between ++ turn :: later → Turn.Unrun between →
    turn.runs? = some type → type ∈ left ∧ ∀ other ∈ left, type.code ≤ other.code
  /-- If anything is left, then a drain that is not cancelled does not end before it has run
  another step. -/
  goesOn : (∃ turn ∈ after, turn.isDrained) → (∀ turn ∈ after, turn ≠ ⟨.isCancelled, true⟩) →
    left.Nonempty → ∃ turn ∈ after, turn.runs?.isSome

/-- Unless it is cancelled, a drain that comes to its end has run another step exactly if
something was left that could be run. -/
theorem Onward.nonempty_iff {left : Finset StepType} (onward : Onward left after)
    (drained : ∃ turn ∈ after, turn.isDrained)
    (uncancelled : ∀ turn ∈ after, turn ≠ ⟨.isCancelled, true⟩) :
    left.Nonempty ↔ ∃ turn ∈ after, turn.runs?.isSome := by
  refine ⟨onward.goesOn drained uncancelled, fun runs => ?_⟩
  obtain ⟨between, turn, later, split, unrun, runs⟩ := Turn.exists_first_run runs
  obtain ⟨type, runs⟩ := Option.isSome_iff_exists.mp runs
  exact ⟨type, (onward.next between turn later type split unrun runs).1⟩

/-- **A step that has ended does not end the drain**, whatever its status, unless it is still
pending. -/
theorem Registry.goes_on_after_result
    (converses : (registry.attempt term).run.Converses said rest)
    (whole : said = earlier ++ ran :: after)
    (isResult : ran = ⟨.execute executor owner type told, .ok result⟩)
    (ended : result.status ≠ .todo) :
    ∃ registration, registry.find? executor = some registration ∧
      Onward ((Ledger.of (earlier ++ [ran])).candidates registration.executable) after := by
  have mayAsk := converses.mayAsk (registry.attempt_obeys_onward term)
  have since {between later : List Turn} {turn : Turn} (split : after = between ++ turn :: later) :
      Onward.MayAsk registry (earlier ++ ran :: between) turn.request :=
    mayAsk _ turn later (by simp [whole, split])
  have ofQueue := Registry.isOfQueue_of_ran converses whole (isResult ▸ rfl)
  have mayRun := mayAsk earlier ran after whole
  rw [isResult] at mayRun
  obtain ⟨process, registration, begins, found, rfl, rfl, _, _, isDue⟩ := mayRun
  -- Until the next step is run, nothing becomes of the candidates.
  have account {between later : List Turn} {turn : Turn} (split : after = between ++ turn :: later)
      (unrun : Turn.Unrun between) :
      (Ledger.of (earlier ++ ran :: between)).candidates registration.executable =
        (Ledger.of (earlier ++ [ran])).candidates registration.executable := by
    rw [List.append_cons]
    exact Ledger.candidates_append unrun fun turn member =>
      ofQueue turn (split ▸ List.mem_append_left _ member)
  refine ⟨registration, found, ?next, ?goesOn⟩
  case next =>
    intro between turn later further split unrun runs
    rw [← account split unrun]
    exact Onward.smallest_of_runs (Onward.head?_append begins) found runs (since split)
  case goesOn =>
    rintro ⟨turn, member, isDrained⟩ uncancelled left
    obtain ⟨between, later, split⟩ := List.append_of_mem member
    have within {turn : Turn} (member : turn ∈ between) : turn ∈ after :=
      split ▸ List.mem_append_left _ member
    have spent :=
      Onward.isSpent_of_isDrained (Onward.head?_append begins) found isDrained (since split)
    by_contra nothing
    have unrun : Turn.Unrun between := by
      intro turn member
      by_contra runs
      exact nothing ⟨turn, within member, Option.isSome_iff_ne_none.mpr runs⟩
    rcases spent with ⟨turn, member, isLast⟩ | none
    · rcases List.mem_append.mp member with before | since
      · simp [isDue.goesOn turn before] at isLast
      rcases List.mem_cons.mp since with rfl | since
      · subst isResult
        exact ended (by simpa [Turn.isLast] using isLast)
      · rcases Onward.runs_or_cancelled_of_isLast isLast with runs | cancelled
        · exact nothing ⟨turn, within since, runs⟩
        · exact uncancelled turn (within since) cancelled
    · rw [← account split unrun, none] at left
      exact Finset.not_nonempty_empty left

namespace Attempt

variable {habits : Habits} {id : Uuid} {start scene : Scene} {log earlier after : List Exchange}
  {failed : Exchange}

theorem isForExecutor_of_runs {exchange : Exchange} (runs : exchange.turn.runs?.isSome) :
    exchange.request.isForExecutor := by
  obtain ⟨_, request, _, _⟩ := exchange
  cases request <;> first | rfl | cases runs

/-- When a step is run, all that has been told before has been applied. -/
theorem applied_of_runs (newIds : habits.newIds) (begins : start.Beginning id)
    {next : Exchange} (reaches : (registry.attempt term).run.Reaches habits id start
      (earlier ++ next :: after) rest scene) (runs : next.turn.runs?.isSome) :
    Outcome.Applied id (start.rows.owned id) (Outcome.told earlier) (next.scene.rows.owned id) := by
  obtain ⟨_, _, reached, undisturbed, _⟩ := reaches.exists_of_split
  have obeys := reached.obeys (registry.attempt_obeys newIds term begins)
  refine (obeys ⟨next.scene, earlier⟩ ⟨rfl, undisturbed⟩).1.applied ?_
  obtain ⟨_, request, _, _⟩ := next
  cases request <;> first | rfl | cases runs

theorem outcome?_of_turn {exchange : Exchange}
    (ran : exchange.turn = ⟨.execute executor owner type told, .ok result⟩) :
    exchange.request.outcome? exchange.reply = some (.ran type result) := by
  obtain ⟨_, request, reply, _⟩ := exchange
  cases ran
  rfl

theorem told_eq_nil {between : List Exchange} (unrun : Turn.Unrun (Exchange.said between))
    (ofQueue : ∀ turn ∈ Exchange.said between, turn.request.isOfQueue) :
    Outcome.told between = [] := by
  rw [Outcome.told, List.filterMap_eq_nil_iff]
  rintro ⟨_, request, reply, _⟩ member
  have isTurn : ⟨request, reply⟩ ∈ Exchange.said between := List.mem_map_of_mem member
  have isQuiet := unrun _ isTurn
  have inQueue := ofQueue _ isTurn
  cases request with
  | prepare _ _ _ => cases inQueue
  | execute _ _ _ _ => cases isQuiet
  | _ => rfl

/-- At the end of an attempt that has run a step, and whose saves were all committed, nobody
holds the lease unless something has failed like a lost race or a cancellation. -/
theorem unleased_of_runs (begins : start.Beginning id) {outcome : Except Failure Unit}
    (reaches : (registry.attempt term).run.Reaches habits id start (earlier ++ failed :: after)
      (.done outcome) scene)
    (runs : failed.turn.runs?.isSome) (committed : ∀ saved ∈ scene.saves, saved.isCommitted)
    (harmless : ∀ failure, habits.mayFail failure → failure.IsSwallowed) :
    ∃ stored, scene.rows.process? id = some stored ∧ stored.lease = none := by
  have keeps := @Registry.attempt_keeps habits _ _ registry term begins
  have intact := reaches.intact keeps begins.intact
  obtain ⟨_, ended⟩ := reaches.keeps begins.holds keeps
  have returned : scene.Returned habits id := by
    cases outcome <;> exact ended.returned
  obtain ⟨_, _, reached, undisturbed, _⟩ := reaches.exists_of_split
  obtain ⟨holds, leftKeeps⟩ := reached.keeps begins.holds keeps
  obtain ⟨mayAsk, _⟩ := leftKeeps _ (holds ▸ undisturbed).meanwhile
  obtain ⟨_, rows, older, saves, _, _⟩ := mayAsk.holdsLease (isForExecutor_of_runs runs)
  have remembered : failed.scene.saves <:+ scene.saves :=
    reaches.saves_suffix (List.mem_append_right _ List.mem_cons_self)
  cases final : scene.saves with
  | nil => simp [saves, final] at remembered
  | cons saved earlier =>
      cases saved with
      | failed failure => cases committed (.failed failure) (final ▸ List.mem_cons_self)
      | committed last =>
          obtain ⟨base, found, unleased⟩ := returned harmless committed last earlier final
          have same := (intact.current last (final ▸ rfl)).1
          exact ⟨base, same.trans found, unleased⟩

/-- **A failed step does not end the drain.**  Let nobody else write the process, and let a step
end as failed.  If the executor can run none of the types that are still pending, then nothing
more is run.  If it can run some, then a drain that comes to its end without having been
cancelled has run another step.  This is the smallest of these types, and when it is run the
result has been applied as a whole and has left alone all steps but those of its own type and
of the types that it skips.  In the end nobody holds the lease, unless a save has failed, or
anything else like a lost race or a cancellation. -/
theorem goes_on_after_failed_step (newIds : habits.newIds) (begins : start.Beginning id)
    (reaches : (registry.attempt term).run.Reaches habits id start (earlier ++ failed :: after)
      rest scene)
    (ran : failed.turn = ⟨.execute executor owner type told, .ok result⟩)
    (isFailed : result.status = .failed) :
    ∃ registration left, registry.find? executor = some registration ∧
      left = (Ledger.of (Exchange.said (earlier ++ [failed]))).candidates registration.executable ∧
      ((∃ exchange ∈ after, exchange.turn.isDrained) →
        (∀ exchange ∈ after, exchange.turn ≠ ⟨.isCancelled, true⟩) →
          (left.Nonempty ↔ ∃ exchange ∈ after, exchange.turn.runs?.isSome)) ∧
      (∀ between next later further, after = between ++ next :: later →
        Turn.Unrun (Exchange.said between) → next.turn.runs? = some further →
          further ∈ left ∧ (∀ other ∈ left, further.code ≤ other.code) ∧
          ∃ steps, Outcome.Applied id (start.rows.owned id) (Outcome.told earlier) steps ∧
            (Outcome.ran type result).Applies id steps (next.scene.rows.owned id) ∧
            ∀ step ∈ steps, step.type ≠ type → step.type ∉ result.skip.getD [] →
              step ∈ next.scene.rows.owned id) ∧
      ∀ outcome, rest = .done outcome → (∀ saved ∈ scene.saves, saved.isCommitted) →
        (∀ failure, habits.mayFail failure → failure.IsSwallowed) →
          ∃ stored, scene.rows.process? id = some stored ∧ stored.lease = none := by
  have isRun : failed.turn.runs?.isSome := ran ▸ rfl
  have whole := @Exchange.said_append_cons earlier after failed
  have ofQueue := Registry.isOfQueue_of_ran reaches.converses whole isRun
  obtain ⟨registration, found, onward⟩ :=
    Registry.goes_on_after_result reaches.converses whole ran (by simp [isFailed])
  have account : Exchange.said (earlier ++ [failed]) = Exchange.said earlier ++ [failed.turn] :=
    Exchange.said_append_cons
  rw [← account] at onward
  refine ⟨registration, _, found, rfl, ?another, ?next, ?lease⟩
  case another =>
    intro drained uncancelled
    have another := onward.nonempty_iff (Exchange.exists_mem_said.mpr drained)
      (List.forall_mem_map.mpr uncancelled)
    exact another.trans Exchange.exists_mem_said
  case next =>
    rintro between next later further rfl unrun runs
    have split := @Exchange.said_append_cons between later next
    obtain ⟨isLeft, smallest⟩ := onward.next _ _ _ further split unrun runs
    have untold : Outcome.told between = [] := told_eq_nil unrun fun turn member =>
      ofQueue turn (split ▸ List.mem_append_left _ member)
    have tells : Outcome.told (earlier ++ failed :: between) =
        Outcome.told earlier ++ [.ran type result] := by
      rw [List.append_cons, Outcome.told, List.filterMap_append, ← Outcome.told, ← Outcome.told,
        untold, List.append_nil, Outcome.told_append_singleton, outcome?_of_turn ran]
      rfl
    have rewound : earlier ++ failed :: (between ++ next :: later) =
        (earlier ++ failed :: between) ++ next :: later := by simp
    rw [rewound] at reaches
    have applied := applied_of_runs newIds begins reaches (runs ▸ rfl)
    rw [tells] at applied
    obtain ⟨steps, before, applies⟩ := applied.exists_of_snoc
    exact ⟨isLeft, smallest, steps, before, applies, fun _ => applies.mem_of_ne⟩
  case lease =>
    rintro outcome rfl committed harmless
    exact unleased_of_runs begins reaches isRun committed harmless

/-- A run that nothing has stopped since some moment, and the types that have been run since. -/
structure Rolls (habits : Habits) (id : Uuid) (program : Program (Except Failure Unit))
    (start : Scene) (earlier since : List Exchange) (left : Program (Except Failure Unit))
    (scene : Scene) (ran : List StepType) : Prop where
  reaches : program.Reaches habits id start (earlier ++ since) left scene
  goesOn : ∀ exchange ∈ since, exchange.turn.isLast = false
  ran : (Exchange.said since).filterMap Turn.runs? = ran

namespace Rolls

variable {habits : Habits} {id : Uuid} {program left : Program (Except Failure Unit)}
  {start scene next : Scene} {earlier since : List Exchange} {ran : List StepType}

theorem refl (reaches : program.Reaches habits id start earlier left scene) :
    Rolls habits id program start earlier [] left scene [] :=
  ⟨(List.append_nil earlier).symm ▸ reaches, by simp, rfl⟩

theorem step {request : Request} {reply : request.Reply} {rest : Program (Except Failure Unit)}
    (rolls : Rolls habits id program start earlier since left scene ran)
    (reaches : program.Reaches habits id start
      (earlier ++ since ++ [⟨scene, request, reply, next⟩]) rest next)
    (harmless : Turn.isLast ⟨request, reply⟩ = false) :
    Rolls habits id program start earlier (since ++ [⟨scene, request, reply, next⟩]) rest next
      (ran ++ (Turn.runs? ⟨request, reply⟩).toList) where
  reaches := (List.append_assoc earlier since _) ▸ reaches
  goesOn := List.forall_mem_append.mpr ⟨rolls.goesOn, List.forall_mem_singleton.mpr harmless⟩
  ran := by
    rw [Exchange.said_append_cons, List.filterMap_append, rolls.ran]
    change ran ++ List.filterMap Turn.runs? [⟨request, reply⟩] = _
    rw [List.filterMap_cons]
    cases Turn.runs? ⟨request, reply⟩ <;> rfl

theorem answer (rolls : Rolls habits id program start earlier since left scene ran)
    (request : Request) {rest : request.Reply → Program (Except Failure Unit)}
    (asks : left = .ask request rest) (reply : request.Reply)
    (answers : scene.Answers habits request reply next) (other : request.isForExecutor = false)
    (harmless : Turn.isLast ⟨request, reply⟩ = false) :
    Rolls habits id program start earlier (since ++ [⟨scene, request, reply, next⟩]) (rest reply)
      next ran := by
  have silent : Turn.runs? ⟨request, reply⟩ = none := by
    cases request <;> first | rfl | cases other
  simpa [silent] using rolls.step (rolls.reaches.answer request asks reply answers other) harmless

theorem reply (rolls : Rolls habits id program start earlier since left scene ran)
    (request : Request) {rest : request.Reply → Program (Except Failure Unit)}
    (asks : left = .ask request rest) (reply : request.Reply)
    (mayFail : ∀ failure, habits.mayFail failure) (isForExecutor : request.isForExecutor)
    (harmless : Turn.isLast ⟨request, reply⟩ = false) :
    Rolls habits id program start earlier (since ++ [⟨scene, request, reply, scene⟩]) (rest reply)
      scene (ran ++ (Turn.runs? ⟨request, reply⟩).toList) :=
  rolls.step (rolls.reaches.executor request asks reply mayFail isForExecutor) harmless

theorem cut {failed : Exchange}
    (rolls : Rolls habits id program start (earlier ++ [failed]) since left scene ran) :
    program.Reaches habits id start (earlier ++ failed :: since) left scene := by
  rw [List.append_cons]
  exact rolls.reaches

end Rolls

theorem exists_failed_run :
    ∃ (start scene : Scene) (earlier after : List Exchange) (failed : Exchange)
        (told : List StepType) (result : StepResult),
      start.Beginning (.ofNat 1) ∧
      (Registry.attempt ⟨[⟨.setupDim, [.createSubaccount, .createServicemanagerBindings]⟩]⟩
        (.ok 5)).run.Reaches .silent (.ofNat 1) start (earlier ++ failed :: after)
          (.done (.ok ())) scene ∧
      failed.turn = ⟨.execute .setupDim (.ofNat 1) .createSubaccount told, .ok result⟩ ∧
      result.status = .failed ∧
      (∃ exchange ∈ after, exchange.turn.isDrained) ∧
      (∀ exchange ∈ after, exchange.turn.isLast = false) ∧
      (Exchange.said after).filterMap Turn.runs? = [.createServicemanagerBindings] := by
  let now : Timestamp := ⟨0, 0⟩
  let expiry : Timestamp := ⟨5, 0⟩
  let process := Process.fresh (.ofNat 1) .setupDim
  let raised : Process := ⟨process.id, .setupDim, 2, some expiry⟩
  let again : Process := ⟨process.id, .setupDim, 3, some expiry⟩
  let released : Process := ⟨process.id, .setupDim, 4, none⟩
  let first := Step.fresh (.ofNat 2) .createSubaccount .todo process.id now
  let second := Step.fresh (.ofNat 3) .createServicemanagerBindings .todo process.id now
  let ended := (StepUpdate.resolve .failed none).apply now first
  let finished := (StepUpdate.resolve .done none).apply now second
  let failure : StepResult := ⟨true, .failed, none, none, none⟩
  let success : StepResult := ⟨true, .done, none, none, none⟩
  have mayFail : ∀ failure, Habits.silent.mayFail failure := fun _ => trivial
  let types := [first.type, second.type]
  obtain ⟨_, -, run⟩ := exists_prepared_run types [first, second] [first, second]
    ⟨[(first.type, [first.id]), (second.type, [second.id])], types, types, types⟩ rfl
    (by decide) (by decide)
  have run := run.answer .isCancelled (by rw [Drain.runQueue]; rfl) false rfl rfl
  have run := run.executor (.needsLease _ _) rfl (.ok false) mayFail rfl
  have run := run.executor (.execute .setupDim process.id first.type [first.type, second.type]) rfl
    (.ok failure) mayFail rfl
  -- The failure is committed.
  let updated :=
    (Scene.leased [first, second]).stage [.updateStep first.id (.resolve .failed none) now]
  let saving := (updated.hold raised).stage [.updateProcess process.id 1 ⟨2, .keep⟩]
  let going := saving.commit ⟨[raised], [ended, second]⟩
  have staged : (Scene.leased [first, second]).Answers .silent
      (.stageUpdates [(first.id, .resolve .failed none)]) () updated := ⟨fun _ => now, rfl⟩
  have raises : updated.Answers .silent (.lease .raise) (.ok true) saving := ⟨rfl, rfl⟩
  have saved : saving.Answers .silent .save (.ok ()) going :=
    ⟨_, ⟨rfl, fun _ => Batch.isFresh_of_insertless rfl rfl⟩, rfl⟩
  have later := Rolls.refl run
  have later := later.answer (.stageUpdates _) rfl () staged rfl rfl
  have later := later.answer (.note _) rfl () rfl rfl rfl
  have later := later.answer (.lease .raise) rfl (.ok true) raises rfl rfl
  have later := later.answer .save rfl (.ok ()) saved rfl rfl
  have later := later.answer .discard rfl () rfl rfl rfl
  -- The second step is run and committed.
  let resolved := going.stage [.updateStep second.id (.resolve .done none) now]
  let storing := (resolved.hold again).stage [.updateProcess process.id 2 ⟨3, .keep⟩]
  let done := storing.commit ⟨[again], [ended, finished]⟩
  have staged : going.Answers .silent (.stageUpdates [(second.id, .resolve .done none)]) ()
      resolved := ⟨fun _ => now, rfl⟩
  have raises : resolved.Answers .silent (.lease .raise) (.ok true) storing := ⟨rfl, rfl⟩
  have saved : storing.Answers .silent .save (.ok ()) done :=
    ⟨_, ⟨rfl, fun _ => Batch.isFresh_of_insertless rfl rfl⟩, rfl⟩
  have later := later.answer .isCancelled (by rw [Drain.runQueue]; rfl) false rfl rfl rfl
  have later := later.reply (.needsLease _ _) rfl (.ok false) mayFail rfl rfl
  have later := later.reply (.execute .setupDim process.id second.type [second.type]) rfl
    (.ok success) mayFail rfl rfl
  have later := later.answer (.stageUpdates _) rfl () staged rfl rfl
  have later := later.answer (.note _) rfl () rfl rfl rfl
  have later := later.answer (.lease .raise) rfl (.ok true) raises rfl rfl
  have later := later.answer .save rfl (.ok ()) saved rfl rfl
  have later := later.answer .discard rfl () rfl rfl rfl
  -- Nothing is left, and the lease is given back.
  let closing := (done.hold released).stage [.updateProcess process.id 3 ⟨4, .write none⟩]
  have releases : done.Answers .silent (.lease .release) (.ok true) closing := ⟨rfl, rfl⟩
  have saved : closing.Answers .silent .save (.ok ())
      (closing.commit ⟨[released], [ended, finished]⟩) :=
    ⟨_, ⟨rfl, fun _ => Batch.isFresh_of_insertless rfl rfl⟩, rfl⟩
  have later := later.answer .isCancelled (by rw [Drain.runQueue]; rfl) false rfl rfl rfl
  have later := later.answer (.lease .release) rfl (.ok true) releases rfl rfl
  have later := later.answer .save rfl (.ok ()) saved rfl rfl
  have later := later.answer .held rfl released ⟨rfl, rfl⟩ rfl rfl
  have later := later.answer (.note _) rfl () rfl rfl rfl
  exact ⟨_, _, _, _, _, _, failure, Scene.beginning_opening (by decide), later.cut, rfl, rfl,
    ⟨_, List.mem_append_right _ List.mem_cons_self, rfl⟩, later.goesOn, later.ran⟩

/-- A step can be run after another one has failed. -/
theorem not_forall_unrun_after_failed_step :
    ¬∀ (start scene : Scene) (earlier after : List Exchange) (failed : Exchange)
        (told : List StepType) (result : StepResult) (rest : Program (Except Failure Unit)),
      start.Beginning (.ofNat 1) →
      (Registry.attempt ⟨[⟨.setupDim, [.createSubaccount, .createServicemanagerBindings]⟩]⟩
        (.ok 5)).run.Reaches .silent (.ofNat 1) start (earlier ++ failed :: after) rest scene →
      failed.turn = ⟨.execute .setupDim (.ofNat 1) .createSubaccount told, .ok result⟩ →
      result.status = .failed → Turn.Unrun (Exchange.said after) := by
  intro ends
  obtain ⟨start, scene, earlier, after, failed, told, result, begins, reaches, isResult, isFailed,
    _, _, ran⟩ := exists_failed_run
  have unrun := ends start scene earlier after failed told result _ begins reaches isResult isFailed
  have nothing : (Exchange.said after).filterMap Turn.runs? = [] :=
    List.filterMap_eq_nil_iff.mpr unrun
  simp [nothing] at ran

/-- After the failed step a drain that comes to its end has run another step, so that one was
left. -/
theorem another_run_after_failed_step :
    ∃ (left : Finset StepType) (after : List Exchange), left.Nonempty ∧
      (∃ exchange ∈ after, exchange.turn.isDrained) ∧
      (∀ exchange ∈ after, exchange.turn ≠ ⟨.isCancelled, true⟩) ∧
      ∃ exchange ∈ after, exchange.turn.runs?.isSome := by
  obtain ⟨start, scene, earlier, after, failed, told, result, begins, reaches, isResult, isFailed,
    drained, goesOn, ran⟩ := exists_failed_run
  obtain ⟨_, left, _, _, another, _⟩ :=
    goes_on_after_failed_step trivial begins reaches isResult isFailed
  have uncancelled : ∀ exchange ∈ after, exchange.turn ≠ ⟨.isCancelled, true⟩ := by
    intro exchange member same
    have calm := goesOn exchange member
    rw [same] at calm
    cases calm
  have runs : ∃ exchange ∈ after, exchange.turn.runs?.isSome := by
    have isRun : StepType.createServicemanagerBindings ∈
        (Exchange.said after).filterMap Turn.runs? := ran ▸ List.mem_cons_self
    obtain ⟨turn, member, runs⟩ := List.mem_filterMap.mp isRun
    have ran : ∃ turn ∈ Exchange.said after, turn.runs?.isSome :=
      ⟨turn, member, Option.isSome_of_eq_some runs⟩
    exact Exchange.exists_mem_said.mp ran
  exact ⟨left, after, (another drained uncancelled).mpr runs, drained, uncancelled, runs⟩

end Attempt

end Workflow
