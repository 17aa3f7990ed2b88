import Workflow.Proofs.Attempt.Account
import Workflow.Proofs.Attempt.Failing

/-!
# What a failure leaves behind

A failing executor takes back what was staged and gives the lease back, one version
after the last commit.  The steps stay as this commit has left them.  A cancellation
passes through and leaves the lease where it is.  All of this presumes that saves
work: they fail only if the store refuses what is staged.

After a failed save the release is refused too, since it expects a version that was
never stored.  So the lease is given back exactly if no save fails.
-/

namespace Workflow

open Workflow.Action

namespace Rows

variable {rows : Rows} {process : Process}

theorem exists_commit_update (found : rows.process? process.id = some process)
    (update : ProcessUpdate) :
    ∃ after, rows.commit [.updateProcess process.id process.version update] = .ok after ∧
      after.process? process.id = some (update.apply process) ∧
      after.owned process.id = rows.owned process.id := by
  have applied : rows.apply (.updateProcess process.id process.version update) = .ok { rows with
      processes := putRow Process.id (update.apply process) rows.processes } :=
    apply_updateProcess_eq_ok.mpr ⟨process, found, rfl, rfl⟩
  refine ⟨_, commit_cons_eq_ok.mpr ⟨_, applied, commit_nil⟩, ?_, rfl⟩
  change findRow? Process.id process.id
    (putRow Process.id (update.apply process) rows.processes) = _
  rw [findRow?_putRow]
  exact if_pos rfl

end Rows

namespace Scene

/-- A save fails only if the store refuses what is staged. -/
def SaveWorks (scene : Scene) : (request : Request) → request.Reply → Prop
  | .save, .error failure => scene.rows.commit scene.staged = .error failure
  | _, _ => True

/-- The rules of a process that nobody else writes, and of saves that work.  A program
may ask whatever can be answered without an executor. -/
def workingRules (habits : Habits) (id : Uuid) : Rules Scene where
  others := Undisturbed id
  mayAsk scene request := request.isForExecutor = false ∧
    ∃ reply next, scene.Answers habits request reply next ∧ scene.SaveWorks request reply
  answers scene request reply next :=
    scene.Answers habits request reply next ∧ scene.SaveWorks request reply

/-- The store is as the last commit has left it, and so is the copy that is held. -/
structure Holding (process : Process) (steps : List Step) (saves : List Saved) (scene : Scene) :
    Prop where
  held : scene.held = process
  found : scene.rows.process? process.id = some process
  steps : scene.rows.owned process.id = steps
  saves : scene.saves = saves

/-- The store as it is, and what is staged. -/
structure Stores (process : Process) (steps : List Step) (batch : Batch) (scene : Scene) :
    Prop where
  staged : scene.staged = batch
  found : scene.rows.process? process.id = some process
  steps : scene.rows.owned process.id = steps

variable {habits : Habits} {id : Uuid} {process : Process} {steps : List Step}
  {saves : List Saved} {scene next : Scene} {batch : Batch} {operation : LeaseOp}
  {reply : Except Failure Bool}

theorem stable_holding :
    (workingRules habits process.id).Stable (Holding process steps saves) := by
  intro scene later holding undisturbed
  constructor
  · exact (congrArg Station.held undisturbed.station).trans holding.held
  · exact undisturbed.process.trans holding.found
  · exact undisturbed.steps.trans holding.steps
  · exact (congrArg Station.saves undisturbed.station).trans holding.saves

theorem stable_staged :
    (workingRules habits id).Stable fun scene => scene.staged = batch := by
  intro scene later staged undisturbed
  exact (congrArg Station.staged undisturbed.station).trans staged

theorem stable_stores : (workingRules habits process.id).Stable (Stores process steps batch) := by
  intro scene later stores undisturbed
  constructor
  · exact (congrArg Station.staged undisturbed.station).trans stores.staged
  · exact undisturbed.process.trans stores.found
  · exact undisturbed.steps.trans stores.steps

theorem MayAsk.holdsLease {request : Request} (mayAsk : scene.MayAsk habits request)
    (isForExecutor : request.isForExecutor) : scene.HoldsLease := by
  cases request with
  | prepare _ _ _ | execute _ _ _ _ => exact mayAsk.2
  | needsLease _ _ => exact mayAsk
  | _ => cases isForExecutor

theorem Answers.holding {request : Request} {reply : request.Reply}
    (answers : scene.Answers habits request reply next) (isForExecutor : request.isForExecutor)
    (holding : scene.Holding process steps saves) : next.Holding process steps saves := by
  obtain ⟨held, found, sameSteps, sameSaves⟩ := holding
  cases request with
  | prepare _ _ _ | needsLease _ _ | execute _ _ _ _ =>
      obtain ⟨_, batch, _, rfl⟩ := answers
      exact ⟨held, found, sameSteps, sameSaves⟩
  | _ => cases isForExecutor

theorem answers_lease_iff (performed : operation.perform scene.held = .ok (process, batch)) :
    scene.Answers habits (.lease operation) reply next ↔
      reply = .ok (!batch.isEmpty) ∧ next = (scene.hold process).stage batch := by
  simp [Answers, performed]

end Scene

namespace Program

variable {α : Type} {habits : Habits} {id : Uuid} {program rest : Program α}
  {start scene : Scene} {log : List Exchange} {post : α → Scene → Prop}

/-- A run whose saves work keeps what the program obeys. -/
theorem Reaches.obeys_working (reaches : program.Reaches habits id start log rest scene)
    (works : ∀ exchange ∈ log, exchange.scene.SaveWorks exchange.request exchange.reply)
    (obeys : program.Obeys (Scene.workingRules habits id) post start) :
    rest.Obeys (Scene.workingRules habits id) post scene := by
  refine reaches.obeys_view (fun _ scene => scene) obeys ?_ ?_
  · intro _ scene later undisturbed
    exact undisturbed
  · intro _ exchange member answers _
    exact ⟨answers, works exchange member⟩

theorem Obeys.exists_reaches (obeys : program.Obeys (Scene.workingRules habits id) post start) :
    ∃ log value final, program.Reaches habits id start log (.done value) final ∧
      ∀ exchange ∈ log, exchange.scene.SaveWorks exchange.request exchange.reply := by
  induction program generalizing start with
  | done value => exact ⟨[], value, start, .start, by simp⟩
  | ask request rest induction =>
      obtain ⟨mayAsk, answered⟩ := obeys start (.refl id start)
      obtain ⟨other, reply, next, answers, worked⟩ := mayAsk
      obtain ⟨log, value, final, reaches, works⟩ :=
        induction reply (answered reply next ⟨answers, worked⟩)
      have spares : Exchange.Spares id ⟨start, request, reply, next⟩ := fun isFor => by
        simp [other] at isFor
      refine ⟨_, value, final, reaches.cons (.refl id start) answers spares, ?_⟩
      intro exchange member
      rcases List.mem_cons.mp member with rfl | later
      · exact worked
      · exact works exchange later

end Program

namespace Attempt

open Scene

variable {habits : Habits} {id : Uuid} {process loaded : Process} {steps : List Step}
  {saves : List Saved} {scene : Scene} {failure : Failure}

/-- The process after its lease has been given back. -/
def returned (process : Process) : Process :=
  { process with version := process.version + 1, lease := none }

/-- Only a refused save fails, and the store does not refuse to take the lease back. -/
theorem save_obeys_working
    (stores : scene.Stores process steps [process.leaseChange (returned process)]) :
    Obeys (workingRules habits process.id) (fun _ => Stores (returned process) steps [])
      (fun _ _ => False) save scene := by
  refine obeys_ask_bind stable_stores stores ?_ ?_
  · intro scene stores
    obtain ⟨after, committed, _⟩ :=
      Rows.exists_commit_update stores.found ⟨process.version + 1, .write none⟩
    have fresh : habits.newIds → Batch.IsFresh scene.rows scene.staged := fun _ => by
      rw [stores.staged]
      exact Batch.isFresh_of_insertless rfl rfl
    have committed : scene.rows.commit scene.staged = .ok after := stores.staged ▸ committed
    exact ⟨rfl, .ok (), scene.commit after, ⟨after, ⟨committed, fresh⟩, rfl⟩, trivial⟩
  · intro scene stores reply next answers
    obtain ⟨answers, works⟩ := answers
    obtain ⟨after, committed, found, sameSteps⟩ := Rows.exists_commit_update stores.found
      ⟨process.version + 1, .write none⟩
    have committed : scene.rows.commit scene.staged = .ok after := stores.staged ▸ committed
    cases reply with
    | error failure =>
        have refused : scene.rows.commit scene.staged = .error failure := works
        rw [committed] at refused
        cases refused
    | ok _ =>
        obtain ⟨rows, commits, rfl⟩ := answers
        obtain rfl : after = rows := Except.ok.inj (committed.symm.trans commits.1)
        exact obeys_pure ⟨rfl, found, sameSteps.trans stores.steps⟩

/-- The lease is given back under the version of the last commit. -/
theorem releaseAfterFailure_obeys (leased : process.lease.isSome)
    (holding : scene.Holding process steps saves) (unstaged : scene.staged = []) :
    Obeys (workingRules habits process.id)
      (fun _ => Stores (returned process) steps [])
      (fun _ _ => False) releaseAfterFailure scene := by
  have performed : ∀ scene : Scene, scene.held = process → LeaseOp.release.perform scene.held =
      .ok (returned process, [process.leaseChange (returned process)]) := by
    intro scene same
    simp [LeaseOp.perform, Process.releaseLease_eq, same, leased, returned, Process.leaseChange]
  rw [releaseAfterFailure, lease, bind_assoc]
  refine obeys_ask_bind (stable_holding.and stable_staged) ⟨holding, unstaged⟩ ?_ ?_
  · intro scene holds
    exact ⟨rfl, _, _, (answers_lease_iff (performed scene holds.1.held)).mpr ⟨rfl, rfl⟩, trivial⟩
  · intro scene holds reply next answers
    obtain ⟨holding, unstaged⟩ := holds
    obtain ⟨rfl, rfl⟩ := (answers_lease_iff (performed scene holding.held)).mp answers.1
    let change := process.leaseChange (returned process)
    have stores : ((scene.hold (returned process)).stage [change]).Stores process steps [change] :=
      ⟨congrArg (· ++ [change]) unstaged, holding.found, holding.steps⟩
    refine (save_obeys_working stores).outcome_bind ?_ fun _ _ => False.elim
    intro _ scene stores
    have stable := @stable_stores habits (returned process) steps []
    refine obeys_ask stable stores (fun _ _ => ⟨rfl, (), _, rfl, trivial⟩) ?_
    intro scene stores _ _ answers
    obtain ⟨rfl, _⟩ := answers
    exact ⟨rfl, stores.found, stores.steps⟩

/-- **What a failure leaves behind.**  A cancellation passes through after what was
staged has been dropped.  Any other failure but a lost race gives the lease back. -/
theorem recover_obeys_working (leased : process.lease.isSome) (current : failure.isStale = false)
    (holding : scene.Holding process steps saves) :
    Obeys (workingRules habits process.id)
      (fun _ scene => failure.isCancellation = false ∧
        scene.Stores (returned process) steps [])
      (fun passed scene => passed = failure ∧ failure.isCancellation ∧
        scene.Holding process steps saves ∧ scene.staged = [])
      (recover loaded failure) scene := by
  rw [recover]
  refine obeys_ask_bind stable_holding holding (fun _ _ => ⟨rfl, (), _, rfl, trivial⟩) ?_
  intro scene holding _ _ answers
  obtain ⟨rfl, _⟩ := answers
  have dropped : scene.discard.Holding process steps saves :=
    ⟨holding.held, holding.found, holding.steps, holding.saves⟩
  rw [if_neg (by simp [current])]
  by_cases cancelled : failure.isCancellation
  · rw [if_pos cancelled]
    exact obeys_throw ⟨rfl, cancelled, dropped, rfl⟩
  · rw [if_neg cancelled]
    have stable := (@stable_holding habits process steps saves).and
      (@stable_staged habits process.id [])
    refine obeys_ask_bind stable ⟨dropped, rfl⟩ (fun _ _ => ⟨rfl, (), _, rfl, trivial⟩) ?_
    intro scene holds _ _ answers
    obtain ⟨rfl, _⟩ := answers
    refine ((releaseAfterFailure_obeys leased holds.1 holds.2).imp ?_).imp_broken ?_
    · intro _ scene stores
      exact ⟨by simpa using cancelled, stores⟩
    · exact fun _ _ => False.elim

variable {start : Scene} {registry : Registry} {term : LeaseTerm} {log : List Exchange}
  {failed : Exchange} {rest : Program (Except Failure Unit)}

/-- **A failing executor gives the lease back and keeps the step.**  Let nobody else
write the process, and let an executor fail, but not like a lost race.  The last commit
has then left the process leased.  From there the attempt can be run to its end with
saves that work, and whenever it is, nothing is staged and the steps are those of the
last commit, so a step that was about to be run is still pending.  Unless the failure is
a cancellation the attempt ends normally, and the process has lost its lease one version
after the last commit.  A cancellation is thrown again, and nothing more is written. -/
theorem lease_given_back_after_failure (begins : start.Beginning id)
    (reaches : (registry.attempt term).run.Reaches habits id start (log ++ [failed]) rest scene)
    (fails : failed.request.failure? failed.reply = some failure)
    (current : failure.isStale = false) :
    ∃ last base, lastCommit? failed.scene.saves = some last ∧ last.process? id = some base ∧
      base.lease.isSome ∧
      (habits.newIds → ∀ type, failed.request.due? = some type →
        ∃ step ∈ last.owned id, step.isDue type) ∧
      (∃ after outcome final, rest.Reaches habits id scene after (.done outcome) final ∧
        ∀ exchange ∈ after, exchange.scene.SaveWorks exchange.request exchange.reply) ∧
      ∀ after outcome final, rest.Reaches habits id scene after (.done outcome) final →
        (∀ exchange ∈ after, exchange.scene.SaveWorks exchange.request exchange.reply) →
        final.staged = [] ∧ final.rows.owned id = last.owned id ∧
        (failure.isCancellation = false → outcome = .ok () ∧ final.rows.process? id =
          some { base with version := base.version + 1, lease := none }) ∧
        (failure.isCancellation → outcome = .error failure ∧
          final.rows.process? id = some base ∧ final.saves = failed.scene.saves) := by
  have keeps := @Registry.attempt_keeps habits _ _ registry term begins
  obtain ⟨left, before, reached, undisturbed, answers, rfl, rfl⟩ := reaches.exists_of_snoc
  have isForExecutor := Request.isForExecutor_of_failure? fails
  have intact := (reached.intact keeps begins.intact).undisturbed undisturbed
  obtain ⟨holds, leftKeeps⟩ := reached.keeps begins.holds keeps
  obtain ⟨mayAsk, _⟩ := leftKeeps _ (holds ▸ undisturbed).meanwhile
  -- The last commit is the last save, and it has left the process as the worker holds it.
  obtain ⟨leased, last, earlier, saves, _, found⟩ := mayAsk.holdsLease isForExecutor
  have isLast : lastCommit? failed.scene.saves = some last := by
    rw [saves]
    rfl
  obtain rfl := intact.holds
  obtain ⟨sameRow, sameSteps⟩ := intact.current last isLast
  have holding : failed.scene.Holding failed.scene.held (last.owned failed.scene.held.id)
      failed.scene.saves := ⟨rfl, sameRow.trans found, sameSteps, rfl⟩
  obtain ⟨loaded, isRecovery⟩ :=
    (reached.handsOver Registry.attempt_handsOver).2.1 _ _ fails
  have obeys := @recover_obeys_working habits _ loaded _ _ _ _ leased current
    (answers.holding isForExecutor holding)
  refine ⟨last, failed.scene.held, isLast, found, leased, ?due, ?completes, ?ended⟩
  case due =>
    intro newIds type due
    rw [← sameSteps]
    have obeys := reached.obeys (registry.attempt_obeys newIds term begins)
    exact (obeys ⟨failed.scene, log⟩ ⟨rfl, undisturbed⟩).1.due type due
  case completes =>
    rw [isRecovery]
    exact obeys.exists_reaches
  case ended =>
    intro after outcome final ends works
    rw [isRecovery] at ends
    have ended := ends.obeys_working works obeys
    cases outcome with
    | ok _ =>
        obtain ⟨uncancelled, stores⟩ := ended
        refine ⟨stores.staged, stores.steps, fun _ => ⟨rfl, stores.found⟩, ?_⟩
        intro cancelled
        simp [uncancelled] at cancelled
    | error passed =>
        obtain ⟨rfl, cancelled, holding, unstaged⟩ := ended
        refine ⟨unstaged, holding.steps, ?_, fun _ => ⟨rfl, holding.found, holding.saves⟩⟩
        intro uncancelled
        simp [cancelled] at uncancelled

/-- A worker leases a process with one pending step, and the executor fails to run it. -/
theorem exists_failing_run :
    ∃ (start scene : Scene) (log : List Exchange) (failed : Exchange)
        (rest : Program (Except Failure Unit)) (failure : Failure) (last : Rows)
        (base : Process),
      start.Beginning (.ofNat 1) ∧
      (Registry.attempt ⟨[⟨.setupDim, [.createSubaccount]⟩]⟩ (.ok 5)).run.Reaches .silent
        (.ofNat 1) start (log ++ [failed]) rest scene ∧
      failed.request.failure? failed.reply = some failure ∧ failure.IsSwallowed ∧
      failed.request.due? = some .createSubaccount ∧
      lastCommit? failed.scene.saves = some last ∧ last.process? (.ofNat 1) = some base ∧
      base.version = 1 := by
  let step := Step.fresh (.ofNat 2) .createSubaccount .todo (.ofNat 1) ⟨0, 0⟩
  let failure := Failure.reported .runtime "subaccount is not ready"
  have mayFail : ∀ failure, Habits.silent.mayFail failure := fun _ => trivial
  obtain ⟨_, -, run⟩ := exists_prepared_run [.createSubaccount] [step] [step]
    ⟨[(step.type, [step.id])], [step.type], [step.type], [.createSubaccount]⟩ rfl
    (List.pairwise_singleton _ _) rfl
  have run := run.answer .isCancelled (by rw [Drain.runQueue]; rfl) false rfl rfl
  have run := run.executor (.needsLease _ _) rfl (.ok false) mayFail rfl
  have run := run.executor (.execute .setupDim (.ofNat 1) step.type [step.type]) rfl
    (.error failure) mayFail rfl
  exact ⟨_, _, _, _, _, failure, _, _, Scene.beginning_opening (by decide), run, rfl, ⟨rfl, rfl⟩,
    rfl, rfl, rfl, rfl⟩

/-- The lease is gone under the next version, and the failed step is still pending. -/
theorem lease_given_back_after_failed_step :
    ∃ (final : Scene) (stored : Process), final.staged = [] ∧
      final.rows.process? (.ofNat 1) = some stored ∧ stored.version = 2 ∧
      stored.lease = none ∧
      ∃ step ∈ final.rows.owned (.ofNat 1), step.isDue .createSubaccount := by
  obtain ⟨start, scene, log, failed, rest, failure, last, base, begins, reaches, fails,
    swallowed, due, isLast, found, version⟩ := exists_failing_run
  obtain ⟨committed, stored, isCommitted, storedFound, _, stillDue, completes, ended⟩ :=
    lease_given_back_after_failure begins reaches fails swallowed.1
  obtain rfl := Option.some.inj (isLast.symm.trans isCommitted)
  obtain rfl := Option.some.inj (found.symm.trans storedFound)
  obtain ⟨after, outcome, final, ends, works⟩ := completes
  obtain ⟨unstaged, sameSteps, returned, _⟩ := ended after outcome final ends works
  refine ⟨final, _, unstaged, (returned swallowed.2).2, by simp [version], rfl, ?_⟩
  rw [sameSteps]
  exact stillDue trivial _ due

/-! ### A failed save -/

variable {final : Scene} {outcome : Except Failure Unit} {first : Rows}

/-- **A failed save leaks the lease.**  Let nobody else write the process, and let the
first save of an attempt be committed.  In the end the steps of the process are those
of the last commit.  If any save has failed, then the process is still leased; it is
not leased if all were committed, unless something has failed like a lost race or a
cancellation. -/
theorem lease_returned_iff (begins : start.Beginning id)
    (completes : (registry.attempt term).run.Completes habits id start outcome final)
    (leased : final.saves.getLast? = some (.committed first)) :
    ∃ last stored, lastCommit? final.saves = some last ∧
      final.rows.process? id = some stored ∧ final.rows.owned id = last.owned id ∧
      ((∃ saved ∈ final.saves, saved.isCommitted = false) → stored.lease.isSome) ∧
      ((∀ failure, habits.mayFail failure → failure.IsSwallowed) →
        (stored.lease = none ↔ ∀ saved ∈ final.saves, saved.isCommitted)) := by
  have keeps := @Registry.attempt_keeps habits _ _ registry term begins
  obtain ⟨ended, intact⟩ := completes.intact keeps begins.intact
  obtain ⟨last, isLast⟩ := exists_lastCommit? leased
  obtain ⟨stored, found⟩ := intact.stored
  obtain ⟨sameRow, sameSteps⟩ := intact.current last isLast
  have stuck : (∃ saved ∈ final.saves, saved.isCommitted = false) → stored.lease.isSome := by
    intro failed
    obtain ⟨base, baseFound, isLeased⟩ := intact.stuck ⟨first, leased⟩ failed last isLast
    obtain rfl : base = stored :=
      Option.some.inj (baseFound.symm.trans (sameRow.symm.trans found))
    exact isLeased
  refine ⟨last, stored, isLast, found, sameSteps, stuck, fun harmless => ⟨?_, ?_⟩⟩
  · intro unleased saved member
    by_contra failed
    have isLeased := stuck ⟨saved, member, by simpa using failed⟩
    simp [unleased] at isLeased
  · intro succeeded
    have returned : final.Returned habits id := by
      cases outcome <;> exact ended.returned
    obtain ⟨earlier, saves⟩ := saves_of_lastCommit? isLast succeeded
    obtain ⟨base, baseFound, unleased⟩ := returned harmless succeeded last earlier saves
    obtain rfl : base = stored :=
      Option.some.inj (baseFound.symm.trans (sameRow.symm.trans found))
    exact unleased

/-- A worker leases a process and finishes its only step, and the save of this step fails.
The release that follows expects a version that was never stored, so the store refuses
it. -/
theorem exists_leaking_run :
    ∃ (start failing scene final : Scene) (log after : List Exchange)
        (rest : Program (Except Failure Unit)) (failure : Failure) (first : Rows)
        (stored : Process),
      start.Beginning (.ofNat 1) ∧
      (Registry.attempt ⟨[⟨.setupDim, [.createSubaccount]⟩]⟩ (.ok 5)).run.Reaches .silent
        (.ofNat 1) start (log ++ [⟨failing, .save, .error failure, scene⟩]) rest scene ∧
      failing.saves.getLast? = some (.committed first) ∧ failure.IsSwallowed ∧
      rest.Reaches .silent (.ofNat 1) scene after (.done (.ok ())) final ∧
      (∀ exchange ∈ after, exchange.scene.SaveWorks exchange.request exchange.reply) ∧
      .failed failure ∈ final.saves ∧ final.saves.getLast? = some (.committed first) ∧
      final.rows.process? (.ofNat 1) = some stored ∧ stored.lease.isSome := by
  let step := Step.fresh (.ofNat 2) .createSubaccount .todo (.ofNat 1) ⟨0, 0⟩
  let result : StepResult := ⟨false, .done, none, none, none⟩
  let failure := Failure.reported .runtime "storage is down"
  let refusal := Failure.staleProcess (.ofNat 1) 2
  have mayFail : ∀ failure, Habits.silent.mayFail failure := fun _ => trivial
  obtain ⟨_, -, run⟩ := exists_prepared_run [.createSubaccount] [step] [step]
    ⟨[(step.type, [step.id])], [step.type], [step.type], [.createSubaccount]⟩ rfl
    (List.pairwise_singleton _ _) rfl
  -- The step is run, but its outcome is not saved.
  let updated := (Scene.leased [step]).stage [.updateStep step.id (.resolve .done none) ⟨0, 0⟩]
  let raised : Process := ⟨.ofNat 1, .setupDim, 2, some ⟨5, 0⟩⟩
  let failing := (updated.hold raised).stage [.updateProcess (.ofNat 1) 1 ⟨2, .keep⟩]
  have staged : (Scene.leased [step]).Answers .silent
      (.stageUpdates [(step.id, .resolve .done none)]) () updated := ⟨fun _ => ⟨0, 0⟩, rfl⟩
  have raises : updated.Answers .silent (.lease .raise) (.ok true) failing := ⟨rfl, rfl⟩
  have fails : failing.Answers .silent .save (.error failure) (failing.fail failure []) :=
    ⟨[], .inl rfl, rfl⟩
  have run := run.answer .isCancelled (by rw [Drain.runQueue]; rfl) false rfl rfl
  have run := run.executor (.needsLease _ _) rfl (.ok false) mayFail rfl
  have run := run.executor (.execute .setupDim (.ofNat 1) step.type [step.type]) rfl
    (.ok result) mayFail rfl
  have run := run.answer (.stageUpdates _) rfl () staged rfl
  have run := run.answer (.note _) rfl () rfl rfl
  have run := run.answer (.lease .raise) rfl (.ok true) raises rfl
  have run := run.answer .save rfl (.error failure) fails rfl
  -- The copy is one version ahead of the row, so the release is refused.
  let process := Process.fresh (.ofNat 1) .setupDim
  have rest : (recover process failure).run.Reaches .silent (.ofNat 1) (failing.fail failure [])
      [] (recover process failure).run (failing.fail failure []) := .start
  have rest := rest.answer .discard rfl () rfl rfl
  have rest := rest.answer (.note _) rfl () rfl rfl
  have rest := rest.answer (.lease .release) rfl (.ok true) ⟨rfl, rfl⟩ rfl
  have rest := rest.answer .save rfl (.error refusal) ⟨[], .inl rfl, rfl⟩ rfl
  have rest := rest.answer .held rfl _ ⟨rfl, rfl⟩ rfl
  have rest := rest.answer (.note _) rfl () rfl rfl
  have rest := rest.answer .discard rfl () rfl rfl
  refine ⟨_, failing, _, _, _, _, _, failure, _, _, Scene.beginning_opening (by decide), run, rfl,
    ⟨rfl, rfl⟩, rest, ?works, ?failed, rfl, rfl, rfl⟩
  case works =>
    have refused : failing.rows.commit [.updateProcess (.ofNat 1) 2 ⟨3, .write none⟩] =
        .error refusal := rfl
    simp only [List.forall_mem_append, List.forall_mem_singleton, and_assoc]
    exact ⟨by simp, trivial, trivial, trivial, refused, trivial, trivial, trivial⟩
  case failed => exact List.mem_cons_of_mem _ List.mem_cons_self

/-- A lease can be left behind although every save works after the one that has failed. -/
theorem not_forall_returned :
    ¬∀ (start failing scene final : Scene) (log after : List Exchange)
        (rest : Program (Except Failure Unit)) (failure : Failure) (first : Rows)
        (stored : Process),
      start.Beginning (.ofNat 1) →
      (Registry.attempt ⟨[⟨.setupDim, [.createSubaccount]⟩]⟩ (.ok 5)).run.Reaches .silent
        (.ofNat 1) start (log ++ [⟨failing, .save, .error failure, scene⟩]) rest scene →
      failing.saves.getLast? = some (.committed first) → failure.IsSwallowed →
      rest.Reaches .silent (.ofNat 1) scene after (.done (.ok ())) final →
      (∀ exchange ∈ after, exchange.scene.SaveWorks exchange.request exchange.reply) →
      final.rows.process? (.ofNat 1) = some stored → stored.lease = none := by
  intro returned
  obtain ⟨start, failing, scene, final, log, after, rest, failure, first, stored, begins, reaches,
    leased, swallowed, ends, works, _, _, found, stuck⟩ := exists_leaking_run
  have unleased := returned start failing scene final log after rest failure first stored begins
    reaches leased swallowed ends works found
  simp [unleased] at stuck

/-- After the failed save of a step the process is still leased. -/
theorem leaked_after_failed_save :
    ∃ (final : Scene) (last : Rows) (stored : Process), lastCommit? final.saves = some last ∧
      final.rows.process? (.ofNat 1) = some stored ∧
      final.rows.owned (.ofNat 1) = last.owned (.ofNat 1) ∧ stored.lease.isSome := by
  obtain ⟨start, failing, scene, final, log, after, rest, failure, first, _, begins, reaches, _, _,
    ends, _, failed, isFirst, _⟩ := exists_leaking_run
  have completes := reaches.completes (ends.completes (.done _ _))
  obtain ⟨last, stored, isLast, found, sameSteps, stuck, _⟩ :=
    lease_returned_iff begins completes isFirst
  exact ⟨final, last, stored, isLast, found, sameSteps, stuck ⟨_, failed, rfl⟩⟩

end Attempt

end Workflow
