import Workflow.Proofs.Attempt.Account
import Workflow.Proofs.Attempt.Frame
import Workflow.Proofs.Attempt.Order

/-!
# Outcomes are applied as a whole

Wherever an attempt is cut off, what an executor has told is either applied to the
stored steps as a whole or not at all.  No commit changes the steps without raising the
version of their process, and none touches the rows of other processes.
-/

namespace Workflow

/-- An exchange changes the steps of a process only by a save that raises the version,
and leaves all other processes alone. -/
structure Exchange.IsConfined (process : Uuid) (exchange : Exchange) : Prop where
  raises : exchange.next.rows.owned process ≠ exchange.scene.rows.owned process →
    exchange.request = .save ∧ ∃ stored final,
      exchange.scene.rows.process? process = some stored ∧
        exchange.next.rows.process? process = some final ∧ stored.version < final.version
  steps : ∀ other, other ≠ process →
    exchange.next.rows.owned other = exchange.scene.rows.owned other
  processes : ∀ other, other ≠ process →
    exchange.next.rows.process? other = exchange.scene.rows.process? other

namespace Scene

variable {habits : Habits} {id : Uuid} {scene next : Scene} {request : Request}
  {reply : request.Reply}

theorem Answers.isConfined (answers : scene.Answers habits request reply next)
    (mayAsk : scene.MayAsk habits request) (guarded : habits.guarded)
    (keyed : scene.rows.Keyed) (tidy : scene.IsTidy) (intact : scene.Intact id) :
    Exchange.IsConfined id ⟨scene, request, reply, next⟩ := by
  have holds := intact.holds
  subst holds
  rcases answers.cases with ⟨_, sameRows, _⟩ | ⟨_, rfl, commits, same⟩
  · constructor
    · exact fun changed => absurd (congrArg (fun rows => rows.owned scene.held.id) sameRows) changed
    · exact fun other _ => congrArg (fun rows => rows.owned other) sameRows
    · exact fun other _ => congrArg (fun rows => rows.process? other) sameRows
  · have maySave : scene.MaySave habits := mayAsk
    have respects := maySave.respects guarded _ commits
    have fresh := commits.fresh guarded
    obtain ⟨stored, found⟩ := intact.stored
    obtain ⟨final, finalFound, raised⟩ := maySave.version_lt tidy commits found
    constructor
    · exact fun _ => ⟨rfl, stored, final, found, finalFound, raised⟩
    · exact (Rows.owned_commit keyed fresh respects commits.1).2
    · exact fun other different => Rows.process?_commit_of_changesOnly tidy different commits.1

end Scene

namespace Program.Reaches

variable {α : Type} {habits : Habits} {id : Uuid} {program rest : Program α}
  {start scene : Scene} {log : List Exchange}

theorem tidy {post : α → Scene → Prop} (spares : habits.SpareProcesses)
    (reaches : program.Reaches habits id start log rest scene)
    (keeps : program.Keeps habits post start) (holds : start.held.id = id)
    (tidy : start.IsTidy) : scene.IsTidy := by
  induction reaches with
  | start => exact tidy
  | step reached undisturbed answers _ induction =>
      obtain ⟨holds, keeps⟩ := reached.keeps holds keeps
      obtain ⟨mayAsk, _⟩ := keeps _ (holds ▸ undisturbed).meanwhile
      exact (induction.of_station undisturbed.station).answer spares mayAsk answers

end Program.Reaches

namespace Attempt

variable {habits : Habits} {id : Uuid} {start scene : Scene} {registry : Registry}
  {term : LeaseTerm} {rest : Program (Except Failure Unit)} {log : List Exchange}

/-- Wherever an attempt is cut, its steps are accounted for. -/
theorem accounted_of_reaches (newIds : habits.newIds) (begins : start.Beginning id)
    (reaches : (registry.attempt term).run.Reaches habits id start log rest scene) :
    Passage.Accounted id (start.rows.owned id) ⟨scene, log⟩ := by
  have obeys := reaches.obeys (registry.attempt_obeys newIds term begins)
  cases rest with
  | done outcome => cases outcome <;> exact obeys
  | ask request rest => exact (obeys ⟨scene, log⟩ ⟨rfl, .refl id scene⟩).1.accounted

theorem isConfined_of_reaches (guarded : habits.guarded) (spares : habits.SpareProcesses)
    (begins : start.Beginning id)
    (reaches : (registry.attempt term).run.Reaches habits id start log rest scene)
    {exchange : Exchange} (member : exchange ∈ log) : exchange.IsConfined id := by
  have keeps := @Registry.attempt_keeps habits _ _ registry term begins
  have newIds := habits.newIds_of_guarded guarded
  obtain ⟨_, _, _, reached, undisturbed, answers⟩ := reaches.exists_of_mem member
  have accounted := accounted_of_reaches newIds begins reached
  have tidy := reached.tidy spares keeps begins.holds (Scene.isTidy_of_unstaged begins.unstaged)
  have intact := reached.intact keeps begins.intact
  obtain ⟨holds, keeps⟩ := reached.keeps begins.holds keeps
  obtain ⟨mayAsk, _⟩ := keeps _ (holds ▸ undisturbed).meanwhile
  exact answers.isConfined mayAsk guarded (undisturbed.keyed accounted.keyed)
    (tidy.of_station undisturbed.station) (intact.undisturbed undisturbed)

/-- **Outcomes are applied as a whole.**  Let nobody else write the process, and let
executors stage nothing on their own.  Wherever an attempt is cut off, the stored steps
are those that some of the outcomes told, from the first one on and each applied as a
whole, have made of the original ones, and the preparation has been told first.  The
steps are never changed without a higher version of the process in the same commit, and
no other process is ever touched. -/
theorem outcomes_applied_as_a_whole (begins : start.Beginning id)
    (reaches : (registry.attempt term).run.Reaches .silent id start log rest scene) :
    Outcome.InOrder (Outcome.told log) ∧
      (∃ applied, applied <+: Outcome.told log ∧
        Outcome.Applied id (start.rows.owned id) applied (scene.rows.owned id)) ∧
      ∀ exchange ∈ log, exchange.IsConfined id :=
  ⟨told_inOrder reaches, (accounted_of_reaches trivial begins reaches).applied,
    fun _ => isConfined_of_reaches trivial Habits.silent_spareProcesses begins reaches⟩

/-- An executor finishes the only step of a process and schedules another one, which is
committed.  It finishes the second step too, but there the run is cut off. -/
theorem exists_cut_run :
    ∃ (start scene : Scene) (log : List Exchange) (rest : Program (Except Failure Unit))
        (first second : Outcome),
      start.Beginning (.ofNat 1) ∧
      (Registry.attempt ⟨[⟨.setupDim, [.createSubaccount, .createServicemanagerBindings]⟩]⟩
        (.ok 5)).run.Reaches .silent (.ofNat 1) start log rest scene ∧
      Outcome.told log = [.prepared ⟨false, none⟩, first, second] ∧
      (scene.rows.owned (.ofNat 1)).map Step.status = [some .done, some .todo] := by
  let now : Timestamp := ⟨0, 0⟩
  let expiry : Timestamp := ⟨5, 0⟩
  let process := Process.fresh (.ofNat 1) .setupDim
  let raised : Process := ⟨process.id, .setupDim, 2, some expiry⟩
  let step := Step.fresh (.ofNat 2) .createSubaccount .todo process.id now
  let scheduled := Step.fresh (.ofNat 3) .createServicemanagerBindings .todo process.id now
  let finished := (StepUpdate.resolve .done none).apply now step
  let first : StepResult := ⟨false, .done, some [scheduled.type], none, none⟩
  let second : StepResult := ⟨false, .done, none, none, none⟩
  have mayFail : ∀ failure, Habits.silent.mayFail failure := fun _ => trivial
  obtain ⟨_, prepared, run⟩ := exists_prepared_run [step.type, scheduled.type] [step] [step]
    ⟨[(step.type, [step.id])], [step.type], [step.type], [step.type, scheduled.type]⟩ rfl
    (List.pairwise_singleton _ _) rfl
  -- The first step is run and committed.
  let updated := (Scene.leased [step]).stage [.updateStep step.id (.resolve .done none) now]
  let extended := updated.stage [.insertStep scheduled]
  let saving := (extended.hold raised).stage [.updateProcess process.id 1 ⟨2, .keep⟩]
  have staged : (Scene.leased [step]).Answers .silent
      (.stageUpdates [(step.id, .resolve .done none)]) () updated := ⟨fun _ => now, rfl⟩
  have inserted : updated.Answers .silent (.stageStep scheduled.type process.id) scheduled.id
      extended := ⟨now, rfl⟩
  have raises : extended.Answers .silent (.lease .raise) (.ok true) saving := ⟨rfl, rfl⟩
  have fresh : Batch.IsFresh saving.rows saving.staged := by constructor <;> decide
  have saved : saving.Answers .silent .save (.ok ())
      (saving.commit ⟨[raised], [finished, scheduled]⟩) := ⟨_, ⟨rfl, fun _ => fresh⟩, rfl⟩
  have run := run.answer .isCancelled (by rw [Drain.runQueue]; rfl) false rfl rfl
  have run := run.executor (.needsLease _ _) rfl (.ok false) mayFail rfl
  have run := run.executor (.execute .setupDim process.id step.type [step.type]) rfl (.ok first)
    mayFail rfl
  have run := run.answer (.stageUpdates _) rfl () staged rfl
  have run := run.answer (.stageStep _ _) rfl scheduled.id inserted rfl
  have run := run.answer (.note _) rfl () rfl rfl
  have run := run.answer (.lease .raise) rfl (.ok true) raises rfl
  have run := run.answer .save rfl (.ok ()) saved rfl
  have run := run.answer .discard rfl () rfl rfl
  -- The second step is run.
  have run := run.answer .isCancelled (by rw [Drain.runQueue]; rfl) false rfl rfl
  have run := run.executor (.needsLease _ _) rfl (.ok false) mayFail rfl
  have run := run.executor (.execute .setupDim process.id scheduled.type [scheduled.type]) rfl
    (.ok second) mayFail rfl
  refine ⟨_, _, _, _, .ran step.type first, .ran scheduled.type second,
    Scene.beginning_opening (by decide), run, ?_, rfl⟩
  simp only [prepared, Outcome.told_append_singleton, Request.outcome?, Option.toList_none,
    Option.toList_some, List.append_nil]
  rfl

/-- Of three outcomes told, those that are applied account for the stored steps. -/
theorem applied_as_a_whole_when_cut :
    ∃ (start scene : Scene) (applied : List Outcome) (first second : Outcome),
      applied <+: [.prepared ⟨false, none⟩, first, second] ∧
        Outcome.Applied (.ofNat 1) (start.rows.owned (.ofNat 1)) applied
          (scene.rows.owned (.ofNat 1)) ∧
        (scene.rows.owned (.ofNat 1)).map Step.status = [some .done, some .todo] := by
  obtain ⟨start, scene, log, rest, first, second, begins, reaches, told, statuses⟩ :=
    exists_cut_run
  obtain ⟨_, ⟨applied, isPrefix, whole⟩, _⟩ := outcomes_applied_as_a_whole begins reaches
  exact ⟨start, scene, applied, first, second, told ▸ isPrefix, whole, statuses⟩

end Attempt

end Workflow
