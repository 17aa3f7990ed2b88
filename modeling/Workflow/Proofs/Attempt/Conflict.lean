import Workflow.Proofs.Attempt.Version

/-!
# What a conflict leaves behind

An attempt takes a failure like a lost race as the sign that somebody else has changed the
process.  It drops what is staged, reports the failure and ends.  It does not look whether
anybody has changed the process, and it does not give the lease back.  If nobody has, the
process stays leased as the last commit has left it.
-/

namespace Workflow

open Workflow.Action Workflow.Drain

/-- An executor or a save has failed like a lost race. -/
def Turn.isConflict : Turn → Bool
  | ⟨.save, .error failure⟩ | ⟨.prepare _ _ _, .error failure⟩
  | ⟨.needsLease _ _, .error failure⟩ | ⟨.execute _ _ _ _, .error failure⟩ => failure.isStale
  | _ => false

namespace Request

/-- The request reports, or drops what is staged. -/
def isFarewell : Request → Bool
  | note _ | held | discard => true
  | _ => false

/-- The request concerns the lease at most, and nobody can fail it like a lost race. -/
def isPassing : Request → Bool
  | note _ | now | held | lease _ | discard => true
  | _ => false

end Request

/-- A program that asks only such requests, and ends with such a value. -/
def Program.Ends {α : Type} (allowed : Request → Prop) (post : α → Prop) : Program α → Prop
  | done value => post value
  | ask request rest => allowed request ∧ ∀ reply, (rest reply).Ends allowed post

namespace Conflict

/-- A conflict has been met. -/
def IsMet (said : List Turn) : Prop :=
  ∃ turn ∈ said, turn.isConflict

/-- After a conflict only farewells may be asked. -/
def watch : Watch (List Turn) where
  rules := Turn.rules fun said request => IsMet said → request.isFarewell
  said := id
  owes _ said := ¬IsMet said
  broken failure said := IsMet said → failure.isStale
  renewed _ _ := True

/-- More has been said since, nothing of which concerns the drain, and no conflict has been
met. -/
structure Proceeds (said later : List Turn) : Prop where
  follows : ∃ handled, later = said ++ handled ∧ ∀ turn ∈ handled, turn.request.isMute
  unmet : ¬IsMet later

variable {said later next : List Turn} {turn : Turn} {request : Request} {reply : request.Reply}
  {failure : Failure} {α : Type} {final : α → List Turn → Prop}
  {broken : Failure → List Turn → Prop}

theorem isMet_append_singleton : IsMet (said ++ [turn]) ↔ IsMet said ∨ turn.isConflict := by
  simp [IsMet, or_and_right, exists_or]

theorem isConflict_of_isPassing (passing : request.isPassing) :
    Turn.isConflict ⟨request, reply⟩ = false := by
  cases request <;> first | rfl | cases passing

theorem Proceeds.refl (unmet : ¬IsMet said) : Proceeds said said :=
  ⟨⟨[], by simp, by simp⟩, unmet⟩

theorem Proceeds.say (proceeds : Proceeds said later) (mute : turn.request.isMute)
    (harmless : turn.isConflict = false) : Proceeds said (later ++ [turn]) := by
  obtain ⟨⟨handled, rfl, before⟩, unmet⟩ := proceeds
  refine ⟨⟨handled ++ [turn], List.append_assoc _ _ _, ?_⟩, ?_⟩
  · intro other member
    rcases List.mem_append.mp member with earlier | last
    · exact before other earlier
    · rw [List.mem_singleton.mp last]
      exact mute
  · rw [isMet_append_singleton]
    simp [unmet, harmless]

/-! ### Requests -/

theorem passing_bind {following : request.Reply → Action α} (proceeds : Proceeds said later)
    (passing : request.isPassing)
    (answered : ∀ reply next, Proceeds said next →
      Obeys watch.rules final broken (following reply) next) :
    Obeys watch.rules final broken (ask request >>= following) later := by
  have stable : watch.rules.Stable (Proceeds said) := Turn.stable
  refine obeys_ask_bind stable proceeds (fun _ proceeds met => absurd met proceeds.unmet) ?_
  rintro _ proceeds reply _ rfl
  have mute : request.isMute := by
    cases request <;> first | rfl | cases passing
  exact answered reply _ (proceeds.say mute (isConflict_of_isPassing passing))

theorem lease_bind {operation : LeaseOp} {following : Bool → Action α}
    (proceeds : Proceeds said later)
    (answered : ∀ staged next, Proceeds said next →
      Obeys watch.rules final broken (following staged) next)
    (fails : ∀ failure next, Proceeds said next → broken failure next) :
    Obeys watch.rules final broken (lease operation >>= following) later := by
  rw [Action.lease, bind_assoc]
  refine passing_bind proceeds rfl fun reply next proceeds => ?_
  cases reply with
  | ok staged => exact answered staged next proceeds
  | error failure => exact obeys_throw (fails failure next proceeds)

theorem farewell_bind {following : request.Reply → Action α} (farewell : request.isFarewell)
    (answered : ∀ reply, Obeys watch.rules final broken (following reply)
      (said ++ [⟨request, reply⟩])) :
    Obeys watch.rules final broken (ask request >>= following) said := by
  have stable : watch.rules.Stable fun later => later = said := Turn.stable
  refine obeys_ask_bind stable rfl (fun _ _ _ => farewell) ?_
  rintro _ rfl reply _ rfl
  exact answered reply

/-- Only a save that fails like a lost race is a conflict. -/
theorem save_obeys (proceeds : Proceeds said later) :
    Obeys watch.rules (fun _ => Proceeds said) watch.broken save later := by
  have stable : watch.rules.Stable (Proceeds said) := Turn.stable
  refine obeys_ask_bind stable proceeds (fun _ proceeds met => absurd met proceeds.unmet) ?_
  rintro before proceeds reply _ rfl
  cases reply with
  | ok _ => exact obeys_pure (proceeds.say rfl rfl)
  | error failure =>
      refine obeys_throw fun met => ?_
      exact (isMet_append_singleton.mp met).resolve_left proceeds.unmet

/-! ### The parts of an attempt -/

variable {term : LeaseTerm} {process : Process} {result : DrainResult} {executor : ProcessType}
  {executable : List StepType} {id : Uuid} {registry : Registry}

theorem renew_obeys (proceeds : Proceeds said later) :
    Obeys watch.rules (fun _ => Proceeds said) watch.broken (Attempt.renew term) later := by
  rw [Attempt.renew]
  refine passing_bind proceeds rfl fun now next proceeds => ?_
  refine obeys_ofExcept_bind (fun expiry _ => ?_) (fun _ _ met => absurd met proceeds.unmet)
  refine lease_bind proceeds (fun _ _ proceeds => ?_) (fun _ _ proceeds met =>
    absurd met proceeds.unmet)
  refine passing_bind proceeds rfl fun copy next proceeds => ?_
  rw [Action.note, ← bind_pure (ask _)]
  exact passing_bind proceeds rfl fun _ _ proceeds => obeys_pure proceeds

theorem settle_obeys (unmet : ¬IsMet said) :
    Obeys watch.rules (fun _ => Proceeds said) watch.broken (Attempt.settle term result) said := by
  have commits : Obeys watch.rules (fun _ => Proceeds said) watch.broken
      (Attempt.settle.commit term result) said := by
    cases result with
    | unmodified => exact obeys_pure (.refl unmet)
    | leaseRequested => exact (renew_obeys (.refl unmet)).bind fun _ _ => save_obeys
    | saveRequested =>
        exact lease_bind (.refl unmet) (fun _ _ => save_obeys) fun _ _ proceeds met =>
          absurd met proceeds.unmet
  refine commits.bind fun _ _ proceeds => ?_
  exact passing_bind proceeds rfl fun _ _ proceeds => obeys_pure proceeds

theorem isMet_of_asked (unmet : ¬IsMet said)
    (asked : request.isInquiry ∨ request.isForExecutor)
    (works : Turn.failure? ⟨request, reply⟩ = none) : ¬IsMet (said ++ [⟨request, reply⟩]) := by
  have harmless : Turn.isConflict ⟨request, reply⟩ = false := by
    cases request with
    | save => simp [Request.isInquiry, Request.isForExecutor] at asked
    | prepare _ _ _ | needsLease _ _ | execute _ _ _ _ =>
        cases reply with
        | ok _ => rfl
        | error failure => cases works
    | _ => rfl
  rw [isMet_append_singleton]
  simp [unmet, harmless]

theorem watch_isKept : watch.IsKept executor executable id (Attempt.settle term) where
  others same := same
  stableOwes _ := Turn.stable
  stableRenewed _ := Turn.stable
  answers answered := answered
  mayAsk unmet _ met := absurd met unmet
  mayExecute unmet _ _ met := absurd met unmet
  replies unmet inquiry _ works answered := by
    subst answered
    exact isMet_of_asked unmet (.inl inquiry) works
  tells unmet isForExecutor works answered := by
    subst answered
    exact isMet_of_asked unmet (.inr isForExecutor) works
  fails {failure said request reply next} unmet fails answered := by
    subst answered
    intro met
    have conflict := (isMet_append_singleton.mp met).resolve_left unmet
    cases request with
    | prepare _ _ _ | needsLease _ _ | execute _ _ _ _ =>
        cases reply with
        | ok _ => cases conflict
        | error other =>
            obtain rfl : other = failure := Option.some.inj fails
            exact conflict
    | save => cases fails
    | _ => cases conflict
  consumes unmet := (settle_obeys unmet).imp fun _ _ proceeds => by
    obtain ⟨handled, same, mute⟩ := proceeds.follows
    exact ⟨proceeds.unmet, handled, same, mute, fun _ => trivial⟩

/-- Whoever meets a conflict does not hold the lease, as far as the worker knows. -/
theorem acquire_obeys (unmet : ¬IsMet said) :
    Obeys watch.rules (fun isLeased later => isLeased = true → Proceeds said later) watch.broken
      (Attempt.acquire term) said := by
  rw [Attempt.acquire]
  refine passing_bind (.refl unmet) rfl fun now _ proceeds => ?_
  refine passing_bind proceeds rfl fun process _ proceeds => ?_
  split
  · rw [Action.note]
    exact passing_bind proceeds rfl fun _ _ _ => obeys_pure fun impossible => by cases impossible
  refine obeys_ofExcept_bind (fun expiry _ => ?_) fun _ _ met => absurd met proceeds.unmet
  refine lease_bind proceeds (fun _ _ proceeds => ?_) fun _ _ proceeds met =>
    absurd met proceeds.unmet
  rw [Action.note]
  refine passing_bind proceeds rfl fun _ _ proceeds => ?_
  refine (save_obeys proceeds).outcome_bind ?_ ?_
  · intro _ _ proceeds
    exact passing_bind proceeds rfl fun _ _ proceeds => obeys_pure fun _ => proceeds
  · intro failure saved stale
    dsimp only
    split
    · exact farewell_bind rfl fun _ => farewell_bind rfl fun _ =>
        obeys_pure fun impossible => by cases impossible
    · refine farewell_bind rfl fun _ => obeys_throw fun met => ?_
      exact stale ((isMet_append_singleton.mp met).resolve_right (by simp [Turn.isConflict]))

theorem work_obeys (mute : ∀ turn ∈ said, turn.request.isMute) (unmet : ¬IsMet said) :
    Obeys watch.rules (fun _ _ => True) watch.broken (Attempt.work registry term process) said := by
  rw [Attempt.work]
  refine (acquire_obeys unmet).bind ?_
  intro isLeased leased proceeds
  cases isLeased with
  | false => exact obeys_pure trivial
  | true =>
      obtain ⟨⟨handled, rfl, muteHandled⟩, unmet⟩ := proceeds rfl
      have begins : watch.Begins (said ++ handled) := by
        intro turn member
        exact (List.mem_append.mp member).elim (mute turn) (muteHandled turn)
      have drained : Obeys watch.rules (fun _ => watch.owes .unmodified) watch.broken
          (registry.drain process.id process.type (Attempt.settle term)) (said ++ handled) :=
        Registry.drain_watched (fun _ _ => watch_isKept) (fun _ met => absurd met unmet) begins
          unmet
      refine drained.bind fun _ drained unmet => ?_
      refine lease_bind (.refl unmet) (fun released _ proceeds => ?_) fun _ _ proceeds met =>
        absurd met proceeds.unmet
      have reports : ∀ {later}, Proceeds drained later → Obeys watch.rules (fun _ _ => True)
          watch.broken (do
            let drained ← ask .held
            note (.drained drained.id drained.version)) later := by
        intro later proceeds
        refine passing_bind proceeds rfl fun copy _ proceeds => ?_
        rw [Action.note, ← bind_pure (ask _)]
        exact passing_bind proceeds rfl fun _ _ _ => obeys_pure trivial
      cases released with
      | true => exact (save_obeys proceeds).bind fun _ _ => reports
      | false => exact reports proceeds

theorem not_isCancellation_of_isStale (stale : failure.isStale) :
    failure.isCancellation = false := by
  rw [Failure.isStale, beq_iff_eq] at stale
  rw [Failure.isCancellation, stale]
  rfl

theorem recover_obeys (stale : IsMet said → failure.isStale) :
    Obeys watch.rules (fun _ _ => True) (fun _ later => ¬IsMet later)
      (Attempt.recover process failure) said := by
  rw [Attempt.recover]
  refine farewell_bind rfl fun _ => ?_
  have origin : ∀ {reply}, IsMet (said ++ [⟨.discard, reply⟩]) → failure.isStale := fun met =>
    stale ((isMet_append_singleton.mp met).resolve_right (by simp [Turn.isConflict]))
  by_cases isStale : failure.isStale
  · rw [if_pos isStale, Action.note, ← bind_pure (ask _)]
    exact farewell_bind rfl fun _ => obeys_pure trivial
  have unmet : ∀ {reply}, ¬IsMet (said ++ [⟨.discard, reply⟩]) := fun met => isStale (origin met)
  rw [if_neg isStale]
  by_cases cancelled : failure.isCancellation
  · rw [if_pos cancelled]
    exact obeys_throw unmet
  rw [if_neg cancelled, Action.note]
  refine passing_bind (.refl unmet) rfl fun _ _ proceeds => ?_
  rw [Attempt.releaseAfterFailure]
  refine lease_bind proceeds (fun released _ proceeds => ?_) fun _ _ proceeds => proceeds.unmet
  cases released with
  | false => exact obeys_pure trivial
  | true =>
      refine (save_obeys proceeds).outcome_bind ?_ ?_
      · intro _ saved _
        rw [Action.discard, ← bind_pure (ask _)]
        exact farewell_bind rfl fun _ => obeys_pure trivial
      · intro failure saved stale
        dsimp only
        split
        · rename_i cancelled
          refine farewell_bind rfl fun _ => obeys_throw fun met => ?_
          have met := (isMet_append_singleton.mp met).resolve_right (by simp [Turn.isConflict])
          simp [not_isCancellation_of_isStale (stale met)] at cancelled
        · refine farewell_bind rfl fun copy => farewell_bind rfl fun _ => ?_
          rw [Action.discard, ← bind_pure (ask _)]
          exact farewell_bind rfl fun _ => obeys_pure trivial

end Conflict

open Conflict

/-- An attempt that has met a conflict ends normally. -/
theorem Registry.attempt_obeys_conflict {registry : Registry} {term : LeaseTerm} :
    (registry.attempt term).run.Obeys Conflict.watch.rules
      (fun outcome said => IsMet said → outcome = .ok ()) [] := by
  suffices obeys : Obeys Conflict.watch.rules (fun _ _ => True) (fun _ said => ¬IsMet said)
      (registry.attempt term) [] by
    refine Program.Obeys.imp obeys ?_
    intro outcome said ended met
    cases outcome with
    | ok _ => rfl
    | error failure => exact absurd met ended
  have unmet : ¬IsMet [] := by simp [IsMet]
  rw [Registry.attempt]
  refine passing_bind (.refl unmet) rfl fun copy said proceeds => ?_
  obtain ⟨⟨handled, rfl, mute⟩, unmet⟩ := proceeds
  refine (work_obeys mute unmet).outcome_bind ?_ ?_
  · exact fun _ _ _ => obeys_pure trivial
  · exact fun _ _ stale => recover_obeys stale

theorem Scene.Answers.rows_of_isConflict {habits : Habits} {scene next : Scene}
    {request : Request} {reply : request.Reply} (answers : scene.Answers habits request reply next)
    (conflict : Turn.isConflict ⟨request, reply⟩) : next.rows = scene.rows := by
  rcases answers.cases with ⟨_, rows, _⟩ | ⟨_, rfl, _⟩
  · exact rows
  · cases reply with
    | ok _ => cases conflict
    | error _ =>
        obtain ⟨_, _, rfl⟩ := answers
        rfl

theorem Scene.Answers.of_isFarewell {habits : Habits} {scene next : Scene} {request : Request}
    {reply : request.Reply} (answers : scene.Answers habits request reply next)
    (farewell : request.isFarewell) : next.saves = scene.saves ∧ next.rows = scene.rows := by
  rcases answers.cases with ⟨_, rows, saves | ⟨_, rfl, _⟩⟩ | ⟨_, rfl, _⟩
  · exact ⟨saves, rows⟩
  · cases farewell
  · cases farewell

namespace Program

variable {α : Type} {program rest : Program α} {post : α → Prop} {said : List Turn}
  {habits : Habits} {id : Uuid} {start scene : Scene} {log : List Exchange}

theorem Obeys.ends {mayAsk : List Turn → Request → Prop} {allowed : Request → Prop}
    {final : α → List Turn → Prop} {assertion : List Turn → Prop}
    (obeys : program.Obeys (Turn.rules mayAsk) final said) (holds : assertion said)
    (kept : ∀ said turn, assertion said → assertion (said ++ [turn]))
    (allows : ∀ said request, assertion said → mayAsk said request → allowed request)
    (ends : ∀ value said, assertion said → final value said → post value) :
    program.Ends allowed post := by
  induction program generalizing said with
  | done value => exact ends value said holds obeys
  | ask request rest induction =>
      obtain ⟨mayAsk, answered⟩ := obeys said rfl
      exact ⟨allows said request holds mayAsk, fun reply =>
        induction reply (answered reply _ rfl) (kept said ⟨request, reply⟩ holds)⟩

theorem Ends.exists_reaches (ends : program.Ends (fun request => request.isFarewell) post) :
    ∃ log value final, program.Reaches habits id start log (.done value) final := by
  induction program generalizing start with
  | done value => exact ⟨[], value, start, .start⟩
  | ask request rest induction =>
      obtain ⟨farewell, ends⟩ := ends
      have other : request.isForExecutor = false := by
        cases request <;> first | rfl | cases farewell
      obtain ⟨reply, next, answers⟩ :
          ∃ reply next, start.Answers habits request reply next := by
        cases request with
        | note _ => exact ⟨(), start, rfl⟩
        | held => exact ⟨start.held, start, rfl, rfl⟩
        | discard => exact ⟨(), start.discard, rfl⟩
        | _ => cases farewell
      obtain ⟨log, value, final, reaches⟩ := @induction reply next (ends reply)
      have spares : Exchange.Spares id ⟨start, request, reply, next⟩ := fun isFor => by
        simp [other] at isFor
      exact ⟨_, value, final, reaches.cons (.refl id start) answers spares⟩

/-- Farewells write nothing. -/
theorem Ends.unwritten (ends : program.Ends (fun request => request.isFarewell) post)
    (reaches : program.Reaches habits id start log rest scene) :
    rest.Ends (fun request => request.isFarewell) post ∧ scene.saves = start.saves ∧
      scene.rows.process? id = start.rows.process? id := by
  induction reaches with
  | start => exact ⟨ends, rfl, rfl⟩
  | @step log request rest scene later next reply _ undisturbed answers _ induction =>
      obtain ⟨⟨farewell, ends⟩, sameSaves, sameRow⟩ := induction
      have saves : later.saves = scene.saves := congrArg Station.saves undisturbed.station
      obtain ⟨nextSaves, nextRows⟩ := answers.of_isFarewell farewell
      refine ⟨ends reply, nextSaves.trans (saves.trans sameSaves), ?_⟩
      rw [nextRows, undisturbed.process, sameRow]

theorem Reaches.converses (reaches : program.Reaches habits id start log rest scene) :
    program.Converses (Exchange.said log) rest := by
  induction reaches with
  | start => exact .start
  | @step log request rest scene later next reply _ _ _ _ induction =>
      rw [Exchange.said, List.map_append]
      exact induction.answer request rfl reply

end Program

/-- **After a conflict an attempt only says farewell.**  Once an executor or a save has
failed like a lost race, the rest of an attempt reports and drops what is staged, and it
ends normally, whatever it is answered. -/
theorem Registry.attempt_ends_after_conflict {registry : Registry} {term : LeaseTerm}
    {said : List Turn} {turn : Turn} {rest : Program (Except Failure Unit)}
    (converses : (registry.attempt term).run.Converses (said ++ [turn]) rest)
    (conflict : turn.isConflict) :
    rest.Ends (fun request => request.isFarewell) (fun outcome => outcome = .ok ()) := by
  have obeys := (converses.leads _).obeys (@Registry.attempt_obeys_conflict registry term)
  refine obeys.ends (isMet_append_singleton.mpr (.inr conflict)) ?_ ?_ ?_
  · exact fun _ _ met => isMet_append_singleton.mpr (.inl met)
  · exact fun _ _ met mayAsk => mayAsk met
  · exact fun _ _ met ended => ended met

namespace Attempt

variable {habits : Habits} {id : Uuid} {start scene : Scene} {registry : Registry}
  {term : LeaseTerm} {log : List Exchange} {failed : Exchange} {last : Rows}
  {rest : Program (Except Failure Unit)}

/-- **A conflict keeps the lease.**  Let nobody else write the process, and let an executor
or a save fail like a lost race after a save of the attempt has been committed.  The last
commit has left the process leased.  From there the attempt can be run to its end.  It ends
normally with nothing staged and without any further save, so the process keeps the lease and
the version of the last commit. -/
theorem lease_kept_after_conflict (begins : start.Beginning id)
    (reaches : (registry.attempt term).run.Reaches habits id start (log ++ [failed]) rest scene)
    (conflict : Turn.isConflict ⟨failed.request, failed.reply⟩)
    (isLast : lastCommit? failed.scene.saves = some last) :
    ∃ base, last.process? id = some base ∧ base.lease.isSome ∧
      (∃ after outcome final, rest.Reaches habits id scene after (.done outcome) final) ∧
      ∀ after outcome final, rest.Reaches habits id scene after (.done outcome) final →
        outcome = .ok () ∧ final.staged = [] ∧ final.saves = scene.saves ∧
          final.rows.process? id = some base := by
  have keeps := @Registry.attempt_keeps habits _ _ registry term begins
  have ends : rest.Ends (fun request => request.isFarewell) (fun outcome => outcome = .ok ()) := by
    have converses := reaches.converses
    rw [Exchange.said, List.map_append] at converses
    exact Registry.attempt_ends_after_conflict converses conflict
  obtain ⟨left, before, reached, undisturbed, answers, rfl, rfl⟩ := reaches.exists_of_snoc
  have intact := (reached.intact keeps begins.intact).undisturbed undisturbed
  obtain ⟨holds, leftKeeps⟩ := reached.keeps begins.holds keeps
  obtain ⟨mayAsk, _⟩ := leftKeeps _ (holds ▸ undisturbed).meanwhile
  obtain ⟨sameRow, _⟩ := intact.current last isLast
  obtain ⟨base, found, leased⟩ : ∃ base, last.process? id = some base ∧ base.lease.isSome := by
    obtain ⟨scene, request, reply, next⟩ := failed
    cases request with
    | save => exact intact.leased mayAsk isLast
    | prepare _ _ _ | needsLease _ _ | execute _ _ _ _ =>
        obtain ⟨leased, rows, earlier, saves, _, found⟩ := mayAsk.holdsLease rfl
        obtain rfl : rows = last := Option.some.inj (by rw [← isLast, saves]; rfl)
        exact ⟨scene.held, intact.holds ▸ found, leased⟩
    | _ => cases conflict
  have unwritten : failed.next.rows = failed.scene.rows := answers.rows_of_isConflict conflict
  refine ⟨base, found, leased, ends.exists_reaches, ?_⟩
  intro after outcome final completes
  obtain ⟨sameOutcome, sameSaves, row⟩ := ends.unwritten completes
  obtain ⟨nowHolds, nowKeeps⟩ := reaches.keeps begins.holds keeps
  obtain ⟨_, ended⟩ := completes.keeps nowHolds nowKeeps
  refine ⟨sameOutcome, ?_, sameSaves, ?_⟩
  · cases sameOutcome
    exact ended.unstaged
  · rw [row, unwritten, sameRow, found]

/-- A worker leases a process with one pending step, and the executor fails to run it like
after a lost race. -/
theorem exists_conflicting_run :
    ∃ (start scene final : Scene) (log after : List Exchange) (failed : Exchange)
        (rest : Program (Except Failure Unit)) (last : Rows) (base : Process),
      start.Beginning (.ofNat 1) ∧
      (Registry.attempt ⟨[⟨.setupDim, [.createSubaccount]⟩]⟩ (.ok 5)).run.Reaches .silent
        (.ofNat 1) start (log ++ [failed]) rest scene ∧
      Turn.isConflict ⟨failed.request, failed.reply⟩ ∧
      lastCommit? failed.scene.saves = some last ∧ last.process? (.ofNat 1) = some base ∧
      rest.Reaches .silent (.ofNat 1) scene after (.done (.ok ())) final ∧
      final.rows.process? (.ofNat 1) = some base ∧ base.lease.isSome := by
  let step := Step.fresh (.ofNat 2) .createSubaccount .todo (.ofNat 1) ⟨0, 0⟩
  let failure := Failure.reported .staleWrite "subaccount was changed"
  have mayFail : ∀ failure, Habits.silent.mayFail failure := fun _ => trivial
  obtain ⟨_, -, run⟩ := exists_prepared_run [.createSubaccount] [step] [step]
    ⟨[(step.type, [step.id])], [step.type], [step.type], [.createSubaccount]⟩ rfl
    (List.pairwise_singleton _ _) rfl
  -- The step is run.
  have run := run.answer .isCancelled (by rw [Drain.runQueue]; rfl) false rfl rfl
  have run := run.executor (.needsLease _ _) rfl (.ok false) mayFail rfl
  have run := run.executor (.execute .setupDim (.ofNat 1) step.type [step.type]) rfl
    (.error failure) mayFail rfl
  -- The failure is reported, and that is all.
  let process := Process.fresh (.ofNat 1) .setupDim
  have rest : (Attempt.recover process failure).run.Reaches .silent (.ofNat 1) (.leased [step]) []
      (Attempt.recover process failure).run (.leased [step]) := .start
  have rest := rest.answer .discard rfl () rfl rfl
  have rest := rest.answer (.note _) rfl () rfl rfl
  exact ⟨_, _, _, _, _, _, _, _, _, Scene.beginning_opening (by decide), run, rfl, rfl, rfl, rest,
    rfl, rfl⟩

/-- A lease can be left behind although nobody else has written the process and no save has
failed. -/
theorem not_forall_released_after_conflict :
    ¬∀ (start scene final : Scene) (log after : List Exchange) (failed : Exchange)
        (rest : Program (Except Failure Unit)) (last : Rows) (base : Process),
      start.Beginning (.ofNat 1) →
      (Registry.attempt ⟨[⟨.setupDim, [.createSubaccount]⟩]⟩ (.ok 5)).run.Reaches .silent
        (.ofNat 1) start (log ++ [failed]) rest scene →
      Turn.isConflict ⟨failed.request, failed.reply⟩ →
      lastCommit? failed.scene.saves = some last → last.process? (.ofNat 1) = some base →
      rest.Reaches .silent (.ofNat 1) scene after (.done (.ok ())) final →
      ∃ stored, final.rows.process? (.ofNat 1) = some stored ∧ stored.lease = none := by
  intro returned
  obtain ⟨start, scene, final, log, after, failed, rest, last, base, begins, reaches, conflict,
    isLast, found, completes, stored, leased⟩ := exists_conflicting_run
  obtain ⟨other, otherStored, unleased⟩ := returned start scene final log after failed rest last
    base begins reaches conflict isLast found completes
  obtain rfl : other = base := Option.some.inj (otherStored.symm.trans stored)
  simp [unleased] at leased

/-- After the conflict the attempt ends normally, and the process is still leased. -/
theorem leaked_after_conflict :
    ∃ (final : Scene) (stored : Process), final.staged = [] ∧
      final.rows.process? (.ofNat 1) = some stored ∧ stored.lease.isSome := by
  obtain ⟨start, scene, final, log, after, failed, rest, last, base, begins, reaches, conflict,
    isLast, found, completes, _⟩ := exists_conflicting_run
  obtain ⟨stored, _, leased, _, ended⟩ :=
    lease_kept_after_conflict begins reaches conflict isLast
  obtain ⟨_, unstaged, _, row⟩ := ended after (.ok ()) final completes
  exact ⟨final, stored, unstaged, row, leased⟩

end Attempt

end Workflow
