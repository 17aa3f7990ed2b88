import Workflow.Proofs.Lease.Race
import Workflow.Proofs.Manual.Conclusion

/-!
# What guards a save by hand

An operator loads a process, works on it and saves, while others write to the same store.
Only two operations stage an update of the process row, and only this update notices that
somebody else has written.  A save without it goes through whatever version is stored,
overwrites what others have written to the steps, and leaves the version as it is.
-/

namespace Workflow

/-- Whether an operation stages an update of the process row. -/
def ManualOp.raisesVersion : ManualOp → Bool
  | requestLease _ | finalize => true
  | skip _ | skipExcept _ | schedule _ => false

/-- A shared store and the operator who works on one of its processes. -/
structure ManualRun where
  rows : Rows
  context : ManualContext
  staged : Batch
  /-- The operations by which all this has been staged. -/
  performed : List ManualOp
  /-- The stored version when the context was loaded or last saved. -/
  seen : Int
  /-- The context reflects an update of the process that has been dropped. -/
  ahead : Bool

namespace ManualRun

abbrev id (run : ManualRun) : Uuid :=
  run.context.process.id

/-- Whether an update of the process row is staged. -/
def isGuarded (run : ManualRun) : Bool :=
  run.performed.any ManualOp.raisesVersion

/-- The version of the context before anything was staged. -/
def expected (run : ManualRun) : Int :=
  run.context.process.version - run.performed.countP ManualOp.raisesVersion

/-- The run after one more operation. -/
def extend (run : ManualRun) (operation : ManualOp) (context : ManualContext) (batch : Batch) :
    ManualRun :=
  { run with
    context
    staged := run.staged ++ batch
    performed := run.performed ++ [operation] }

/-- What can happen next. -/
inductive Move (run : ManualRun) : ManualRun → Prop where
  | others {rows : Rows} (advanced : run.rows.Advances False run.id rows) :
      Move run { run with rows }
  | perform {clock : Readings} {ids : List Uuid} {operation : ManualOp}
      {context : ManualContext} {batch : Batch}
      (performed : run.context.perform clock ids operation = .ok (context, batch)) :
      Move run (run.extend operation context batch)
  | save {after : Rows} {stored : Process}
      (saved : run.rows.save run.staged = (.ok (), after))
      (found : after.process? run.id = some stored) :
      Move run
        { run with
          rows := after
          staged := []
          performed := []
          seen := stored.version
          ahead := run.ahead && !run.isGuarded }
  /-- A save has failed, or what was staged has been cleared. -/
  | drop :
      Move run { run with staged := [], performed := [], ahead := run.ahead || run.isGuarded }

/-- The runs that begin with a process that has been loaded and checked. -/
inductive Reachable : ManualRun → Prop where
  | check {rows : Rows} {id : Uuid} {filter : Option (List StepType)} {current : StepType}
      {owner : String} {now : Timestamp} {context : ManualContext} (keyed : rows.Keyed)
      (checked : ManualContext.check (rows.load? id filter) current owner now = .ok context) :
      Reachable ⟨rows, context, [], [], context.process.version, false⟩
  | move {run next : ManualRun} : Reachable run → Move run next → Reachable next

end ManualRun

namespace Batch

variable {id : Uuid} {batch : Batch} {first second : Process}

theorem map_version_processAfter?_congr (sameId : first.id = second.id)
    (sameVersion : first.version = second.version) :
    (processAfter? batch first).map Process.version =
      (processAfter? batch second).map Process.version := by
  induction batch generalizing first second with
  | nil => exact congrArg some sameVersion
  | cons change batch induction =>
      rw [processAfter?_cons, processAfter?_cons]
      cases change with
      | insertProcess inserted =>
          simp only [Change.processAfter?, sameId]
          split
          · rfl
          · exact induction sameId sameVersion
      | updateProcess target expected update =>
          simp only [Change.processAfter?, sameId, sameVersion]
          split
          · split
            · exact induction sameId rfl
            · rfl
          · exact induction sameId sameVersion
      | insertStep _ | updateStep _ _ _ | deleteStep _ => exact induction sameId sameVersion

theorem updates_append {further : Batch} :
    Updates id (batch ++ further) ↔ Updates id batch ∨ Updates id further := by
  simp only [Updates, List.mem_append, exists_or]

theorem OnlySteps.not_updates (only : OnlySteps batch) : ¬Updates id batch := by
  intro updates
  obtain ⟨expected, update, member⟩ := updates
  simpa [Change.concernsProcess] using only _ member

theorem ChangesOnly.onlySteps (only : ChangesOnly id batch) (unguarded : ¬Updates id batch) :
    OnlySteps batch := by
  intro change member
  rw [Bool.eq_false_iff]
  intro concerned
  obtain ⟨expected, update, rfl⟩ := only change member concerned
  exact unguarded ⟨expected, update, member⟩

/-- A batch with an update that leads on from one version leads on from no other. -/
theorem isSome_processAfter?_iff (only : ChangesOnly id batch) (updates : Updates id batch)
    (firstId : first.id = id) (secondId : second.id = id)
    (followed : (processAfter? batch first).isSome) :
    (processAfter? batch second).isSome ↔ second.version = first.version := by
  subst firstId
  constructor
  · intro alsoFollowed
    exact (version_eq_of_processAfter? secondId.symm updates only.insertedProcesses_eq followed
      alsoFollowed).symm
  · intro sameVersion
    have same := @map_version_processAfter?_congr batch _ _ secondId sameVersion
    rw [← Option.isSome_map (f := Process.version), same, Option.isSome_map]
    exact followed

end Batch

namespace ManualContext

variable {context next : ManualContext} {clock : Readings} {ids : List Uuid}
  {operation : ManualOp} {batch : Batch}

/-- What an operation stages: changes of steps and, last, an update of the process row if
it is one of those that raise the version. -/
theorem perform_cases (performed : context.perform clock ids operation = .ok (next, batch)) :
    ∃ steps, Batch.OnlySteps steps ∧
      ((operation.raisesVersion = false ∧ batch = steps ∧ next.process = context.process) ∨
        operation.raisesVersion = true ∧ ∃ update : ProcessUpdate,
          update.version = context.process.version + 1 ∧
          batch = steps ++
            [.updateProcess context.process.id context.process.version update] ∧
          next.process.toProcess = update.apply context.process.toProcess) := by
  cases operation with
  | requestLease expiry =>
      obtain ⟨leased, requested, rfl⟩ := performLease_eq_ok_iff.mp performed
      obtain ⟨_, rfl, rfl⟩ := Process.requestLease_eq_ok_iff.mp requested
      exact ⟨[], by simp [Batch.OnlySteps], .inr ⟨rfl, _, rfl, rfl, rfl⟩⟩
  | skip types =>
      cases performed
      exact ⟨_, Batch.onlySteps_ofUpdates, .inl ⟨rfl, rfl, process_skipTypes _ _⟩⟩
  | skipExcept types =>
      cases performed
      exact ⟨_, Batch.onlySteps_ofUpdates, .inl ⟨rfl, rfl, process_skipTypes _ _⟩⟩
  | schedule types =>
      cases performed
      exact ⟨_, Batch.onlySteps_insertSteps, .inl ⟨rfl, rfl, rfl⟩⟩
  | finalize =>
      rw [perform] at performed
      cases released : context.finish.1.performLease .releaseOrRaise with
      | error failure =>
          rw [released] at performed
          cases performed
      | ok result =>
          rw [released] at performed
          cases performed
          obtain ⟨process, ended, isNext⟩ := performLease_eq_ok_iff.mp released
          obtain ⟨lease, raised⟩ := releaseOrRaise_eq context.process.toProcess
          have sameEnd : Except.ok context.process.toProcess.releaseOrRaise =
              (.ok (process, result.2) : Except Failure _) := ended
          rw [raised] at sameEnd
          obtain ⟨rfl, sameBatch⟩ := Prod.mk.inj (Except.ok.inj sameEnd)
          rw [isNext, ← sameBatch]
          exact ⟨_, Batch.onlySteps_ofUpdates, .inr ⟨rfl, _, rfl, rfl, rfl⟩⟩

theorem changesOnly_perform (performed : context.perform clock ids operation = .ok (next, batch)) :
    Batch.ChangesOnly context.process.id batch := by
  obtain ⟨steps, onlySteps, ⟨_, rfl, _⟩ | ⟨_, update, _, rfl, _⟩⟩ := perform_cases performed
  · exact Batch.changesOnly_of_sparing onlySteps
  · refine (Batch.changesOnly_of_sparing onlySteps).append ?_
    intro change member _
    exact ⟨_, _, List.mem_singleton.mp member⟩

theorem processAfter?_perform
    (performed : context.perform clock ids operation = .ok (next, batch)) :
    Batch.processAfter? batch context.process.toProcess = some next.process.toProcess := by
  obtain ⟨steps, onlySteps, ⟨_, rfl, sameProcess⟩ | ⟨_, update, _, rfl, isNext⟩⟩ :=
    perform_cases performed
  · rw [onlySteps.processAfter?, sameProcess]
  · rw [Batch.processAfter?_append, onlySteps.processAfter?, isNext]
    simp [Batch.processAfter?_cons, Change.processAfter?]

end ManualContext

namespace ManualRun

variable {run next : ManualRun}

/-- What an operator relies on: the staged changes lead from the expected version of the
process to its context, and name no other process. -/
structure Sound (run : ManualRun) : Prop where
  keyed : run.rows.Keyed
  stored : ∃ stored, run.rows.process? run.id = some stored ∧ run.seen ≤ stored.version
  only : Batch.ChangesOnly run.id run.staged
  raises : Batch.Raises run.staged
  guard : Batch.Updates run.id run.staged ↔ run.isGuarded
  row : ∃ base : Process, base.id = run.id ∧ base.version = run.expected ∧
    Batch.processAfter? run.staged base = some run.context.process.toProcess
  current : run.ahead = false → run.expected ≤ run.seen

theorem expected_of_unguarded (unguarded : run.isGuarded = false) :
    run.expected = run.context.process.version := by
  have none : run.performed.countP ManualOp.raisesVersion = 0 := by
    rw [List.countP_eq_zero]
    simpa [isGuarded] using unguarded
  simp [expected, none]

theorem sound_of_nil {stored : Process} (keyed : run.rows.Keyed)
    (found : run.rows.process? run.id = some stored) (seen : run.seen ≤ stored.version)
    (unstaged : run.staged = []) (idle : run.performed = [])
    (current : run.ahead = false → run.context.process.version ≤ run.seen) : run.Sound where
  keyed := keyed
  stored := ⟨stored, found, seen⟩
  only := unstaged ▸ Batch.changesOnly_nil
  raises := by simp [unstaged, Batch.Raises]
  guard := by simp [unstaged, isGuarded, idle, Batch.Updates]
  row := ⟨run.context.process.toProcess, rfl, by simp [expected, idle], by rw [unstaged]; rfl⟩
  current := by simpa [expected, idle] using current

theorem Sound.stage (sound : run.Sound) {operation : ManualOp} {context : ManualContext}
    {batch : Batch} (only : Batch.ChangesOnly run.id batch) (raises : Batch.Raises batch)
    (guard : Batch.Updates run.id batch ↔ operation.raisesVersion)
    (followed : Batch.processAfter? batch run.context.process.toProcess =
      some context.process.toProcess)
    (version : context.process.version =
      run.context.process.version + if operation.raisesVersion then 1 else 0) :
    (run.extend operation context batch).Sound := by
  obtain ⟨base, baseId, baseVersion, reached⟩ := sound.row
  have sameId : (run.extend operation context batch).id = run.id :=
    Batch.id_of_processAfter? followed
  have sameExpected : (run.extend operation context batch).expected = run.expected := by
    simp only [expected, extend, version, List.countP_append, List.countP_singleton]
    split <;> omega
  constructor
  · exact sound.keyed
  · exact sameId ▸ sound.stored
  · exact sameId ▸ sound.only.append only
  · exact sound.raises.append raises
  · rw [sameId, extend, Batch.updates_append, sound.guard, guard]
    simp [isGuarded]
  · refine ⟨base, baseId.trans sameId.symm, baseVersion.trans sameExpected.symm, ?_⟩
    rw [extend, Batch.processAfter?_append, reached]
    exact followed
  · exact fun level => sameExpected ▸ sound.current level

theorem Sound.perform (sound : run.Sound) {clock : Readings} {ids : List Uuid}
    {operation : ManualOp} {context : ManualContext} {batch : Batch}
    (performed : run.context.perform clock ids operation = .ok (context, batch)) :
    (run.extend operation context batch).Sound := by
  have only := ManualContext.changesOnly_perform performed
  have followed := ManualContext.processAfter?_perform performed
  obtain ⟨steps, onlySteps, ⟨unguarded, rfl, sameProcess⟩ | ⟨guarded, update, raised, rfl, isNext⟩⟩
    := ManualContext.perform_cases performed
  · refine sound.stage only onlySteps.raises ?_ followed ?_
    · simp [unguarded, onlySteps.not_updates]
    · simp [unguarded, sameProcess]
  · refine sound.stage only ?_ ?_ followed ?_
    · refine onlySteps.raises.append ?_
      intro id expected update member
      simp only [List.mem_singleton, Change.updateProcess.injEq] at member
      obtain ⟨_, rfl, rfl⟩ := member
      exact raised ▸ Int.lt_succ _
    · simp only [guarded, Batch.Updates, iff_true]
      exact ⟨_, update, List.mem_append_right _ (List.mem_singleton.mpr rfl)⟩
    · rw [if_pos guarded, ← raised]
      exact congrArg Process.version isNext

theorem Sound.commit (sound : run.Sound) {stored : Process} {after : Rows}
    (found : run.rows.process? run.id = some stored)
    (committed : run.rows.commit run.staged = .ok after) :
    ∃ final, after.process? run.id = some final ∧
      (stored.version < final.version ↔ run.isGuarded) ∧
      (run.isGuarded = false → final = stored) ∧
      (run.isGuarded → final.version = run.context.process.version) := by
  obtain ⟨final, followed, finalFound⟩ := Rows.process?_commit committed found
  have storedId : stored.id = run.id := Rows.id_of_process? found
  refine ⟨final, finalFound, ?_⟩
  by_cases guarded : run.isGuarded
  · have updates := sound.guard.mpr guarded
    obtain ⟨base, baseId, _, reached⟩ := sound.row
    have sameVersion := (Batch.isSome_processAfter?_iff sound.only updates baseId storedId
      (by simp [reached])).mp (by simp [followed])
    have sameEnd := @Batch.map_version_processAfter?_congr run.staged _ _
      (storedId.trans baseId.symm) sameVersion
    rw [followed, reached] at sameEnd
    have raised := Batch.version_lt_of_processAfter? sound.raises
      (by simp [sound.only.insertedProcesses_eq]) followed (storedId ▸ updates)
    exact ⟨by simp [guarded, raised], by simp [guarded], fun _ => Option.some.inj sameEnd⟩
  · have only := sound.only.onlySteps fun updates => guarded (sound.guard.mp updates)
    obtain rfl := Option.some.inj (only.processAfter?.symm.trans followed)
    simp [guarded]

/-- Whatever happens, the operator can rely on it afterwards. -/
theorem Sound.move (sound : run.Sound) (moved : Move run next) : next.Sound := by
  obtain ⟨stored, found, seen⟩ := sound.stored
  cases moved with
  | others advanced =>
      obtain ⟨final, finalFound, raised | ⟨rfl, _⟩⟩ := advanced.process stored found
      · exact { sound with
          keyed := advanced.keyed sound.keyed
          stored := ⟨final, finalFound, Int.le_trans seen (Int.le_of_lt raised)⟩ }
      · exact { sound with
          keyed := advanced.keyed sound.keyed
          stored := ⟨final, finalFound, seen⟩ }
  | perform performed => exact sound.perform performed
  | @save after final saved finalFound =>
      have committed := Rows.save_eq_ok_iff.mp saved
      obtain ⟨_, sameFound, raised, unchanged, version⟩ := sound.commit found committed
      obtain rfl := Option.some.inj (finalFound.symm.trans sameFound)
      refine sound_of_nil (Rows.keyed_commit sound.keyed committed) finalFound (Int.le_refl _) rfl
        rfl ?_
      intro level
      by_cases guarded : run.isGuarded
      · exact Int.le_of_eq (version guarded).symm
      · have unguarded : run.isGuarded = false := by simpa using guarded
        have older := sound.current (by simpa [guarded] using level)
        rw [expected_of_unguarded unguarded] at older
        exact unchanged unguarded ▸ Int.le_trans older seen
  | drop =>
      refine sound_of_nil sound.keyed found seen rfl rfl ?_
      intro level
      obtain ⟨notAhead, unguarded⟩ := Bool.or_eq_false_iff.mp level
      exact expected_of_unguarded unguarded ▸ sound.current notAhead

theorem Reachable.sound (reachable : Reachable run) : run.Sound := by
  induction reachable with
  | check keyed checked =>
      obtain ⟨stored, found, rfl⟩ := ManualContext.exists_of_check checked
      have storedId : stored.id = _ := Rows.id_of_process? found
      exact sound_of_nil keyed (storedId ▸ found) (Int.le_refl _) rfl rfl fun _ => Int.le_refl _
  | move _ moved induction => exact induction.move moved

/-- **What guards a save by hand.**  Whether anything is written, and whether the version
rises, depends on whether an update of the process row is staged, by a request for the lease
or by finalizing the step.

With it a save goes through exactly if the stored version is the one that the context had
before.  Hence it is refused if somebody else has raised the version since the context was
loaded or last saved, as long as no staged update of the process has been dropped since.
Without it a save goes through whatever the stored version is, as long as the steps that it
names are there, and leaves the process row as it is.  A refused save writes nothing. -/
theorem stale_saves_refused_if_guarded (reachable : Reachable run) :
    ∃ stored, run.rows.process? run.id = some stored ∧
      ((∃ after, run.rows.save run.staged = (.ok (), after)) ↔
        (run.isGuarded → stored.version = run.expected) ∧
          Batch.Finds (run.rows.steps.map Step.id) run.staged) ∧
      (run.isGuarded → run.ahead = false → run.seen < stored.version →
        ∃ failure, run.rows.save run.staged = (.error failure, run.rows) ∧
          failure.kind = .staleWrite) ∧
      (∀ failure after, run.rows.save run.staged = (.error failure, after) →
        failure.kind = .staleWrite ∧ after = run.rows) ∧
      ∀ after, run.rows.save run.staged = (.ok (), after) →
        ∃ final, after.process? run.id = some final ∧
          (stored.version < final.version ↔ run.isGuarded) ∧
          (run.isGuarded = false → final = stored) := by
  have sound := reachable.sound
  obtain ⟨stored, found, _⟩ := sound.stored
  obtain ⟨base, baseId, baseVersion, reached⟩ := sound.row
  have storedId : stored.id = run.id := Rows.id_of_process? found
  have accepted : (Batch.processAfter? run.staged stored).isSome ↔
      (run.isGuarded → stored.version = run.expected) := by
    by_cases guarded : run.isGuarded
    · rw [Batch.isSome_processAfter?_iff sound.only (sound.guard.mpr guarded) baseId storedId
        (by simp [reached]), baseVersion]
      simp [guarded]
    · have only := sound.only.onlySteps fun updates => guarded (sound.guard.mp updates)
      simp [guarded, only.processAfter?]
  have succeeds : (∃ after, run.rows.save run.staged = (.ok (), after)) ↔
      (run.isGuarded → stored.version = run.expected) ∧
        Batch.Finds (run.rows.steps.map Step.id) run.staged := by
    simp only [Rows.save_eq_ok_iff, ← accepted]
    exact Rows.exists_commit_iff sound.keyed sound.only found
  have refused : ∀ failure after, run.rows.save run.staged = (.error failure, after) →
      failure.kind = .staleWrite ∧ after = run.rows := by
    intro failure after saved
    obtain ⟨failed, unchanged⟩ := Rows.save_eq_error_iff.mp saved
    exact ⟨by simpa [Failure.isStale] using Rows.isStale_of_commit_eq_error failed, unchanged⟩
  refine ⟨stored, found, succeeds, ?_, refused, ?_⟩
  · intro guarded notAhead outdated
    cases saved : run.rows.save run.staged with
    | mk outcome after =>
        cases outcome with
        | error failure =>
            obtain ⟨isStale, rfl⟩ := refused failure after saved
            exact ⟨failure, rfl, isStale⟩
        | ok _ =>
            have current := (succeeds.mp ⟨after, saved⟩).1 guarded
            have older := sound.current notAhead
            omega
  · intro after saved
    obtain ⟨final, finalFound, raised, unchanged, _⟩ :=
      sound.commit found (Rows.save_eq_ok_iff.mp saved)
    exact ⟨final, finalFound, raised, unchanged⟩

theorem Reachable.overtake (reachable : Reachable run) {id : Uuid} {version : Int} {steps : Batch}
    {after : Rows} (only : Batch.OnlySteps steps)
    (committed : run.rows.commit
      (steps ++ [.updateProcess id version ⟨version + 1, .keep⟩]) = .ok after) :
    Reachable { run with rows := after } := by
  refine reachable.move (.others (Rows.advances_commit reachable.sound.keyed ?_ ?_ False.elim
    committed _))
  · refine only.raises.append ?_
    intro id expected update member
    simp only [List.mem_singleton, Change.updateProcess.injEq] at member
    obtain ⟨_, rfl, rfl⟩ := member
    exact Int.lt_succ expected
  · rw [Batch.insertedProcesses_append, only.insertedProcesses]
    simp [Batch.insertedProcesses]

theorem reachable_of_due {rows : Rows} {process : Process} {current : StepType}
    (keyed : rows.Keyed) (found : rows.process? process.id = some process)
    (unleased : process.lease = none) (due : ∃ step ∈ rows.owned process.id, step.isDue current) :
    Reachable ⟨rows, .ofRows rows process current, [], [], process.version, false⟩ :=
  have isFree : process.isLeased ⟨0, 0⟩ = false := by simp [Process.isLeased, unleased]
  .check keyed (ManualContext.check_eq_ok found isFree due "")

/-- An operator finalizes a step while somebody else raises the version. -/
theorem stale_save_refused_after_finalizing :
    ∃ run : ManualRun, Reachable run ∧ run.isGuarded ∧
      ∃ failure, run.rows.save run.staged = (.error failure, run.rows) ∧
        failure.kind = .staleWrite := by
  let process := Process.fresh (.ofNat 1) .setupDim
  let rows : Rows :=
    ⟨[process], [.fresh (.ofNat 2) .createSubaccount .todo process.id ⟨0, 0⟩]⟩
  have loaded : Reachable ⟨rows, .ofRows rows process .createSubaccount, [], [], 0, false⟩ :=
    reachable_of_due ⟨by decide, by decide⟩ rfl rfl ⟨_, List.mem_cons_self, by decide⟩
  have finalized := loaded.move (@Move.perform _ (fun _ => ⟨2, 0⟩) [] .finalize _ _ rfl)
  have overtaken := @Reachable.overtake _ finalized process.id 0 [] _
    (by simp [Batch.OnlySteps]) rfl
  obtain ⟨stored, found, _, refused, _⟩ := stale_saves_refused_if_guarded overtaken
  cases found
  exact ⟨_, overtaken, rfl, refused rfl rfl (by decide)⟩

/-- An operator skips a step that somebody else has done in the meantime. -/
theorem exists_unguarded_overwrite :
    ∃ (run : ManualRun) (stored : Process) (after : Rows), Reachable run ∧ run.staged ≠ [] ∧
      run.rows.process? run.id = some stored ∧ run.seen < stored.version ∧
      run.rows.save run.staged = (.ok (), after) ∧ after.process? run.id = some stored ∧
      ∃ step ∈ run.rows.steps, step.status = some .done ∧
        (after.step? step.id).bind Step.status = some .skipped := by
  let process := Process.fresh (.ofNat 1) .setupDim
  let raised : Process := { process with version := 1 }
  let current := Step.fresh (.ofNat 2) .createSubaccount .todo process.id ⟨0, 0⟩
  let other := Step.fresh (.ofNat 3) .createServicemanagerBindings .todo process.id ⟨1, 0⟩
  let done : Step := { other with status := some .done, changed := some ⟨3, 0⟩ }
  let overwritten : Step := { other with status := some .skipped, changed := some ⟨2, 0⟩ }
  let rows : Rows := ⟨[process], [current, other]⟩
  let context := ManualContext.ofRows rows process .createSubaccount
  have loaded : Reachable ⟨rows, context, [], [], 0, false⟩ :=
    reachable_of_due ⟨by decide, by decide⟩ rfl rfl ⟨_, List.mem_cons_self, by decide⟩
  have sorted : rows.stepsOf process.id = [current, other] :=
    List.mergeSort_of_pairwise (by decide)
  have listed : context.steps = [current, other] :=
    congrArg (List.filter Step.isPending) sorted
  have types : context.otherTypes = [.createServicemanagerBindings] := by
    rw [ManualContext.otherTypes, listed]
    rfl
  have group : context.idsOf .createServicemanagerBindings = [other.id] := by
    rw [ManualContext.idsOf, listed]
    exact congrArg (List.map Step.id) (List.mergeSort_singleton other)
  have updates : (context.skip [.createServicemanagerBindings]).2 =
      [(other.id, .resolve .skipped none)] := by
    rw [ManualContext.skip, types]
    change (context.resolveType .skipped .createServicemanagerBindings).2 ++ [] = _
    rw [ManualContext.resolveType_snd, group]
    rfl
  have performed : context.perform (fun _ => ⟨2, 0⟩) [] (.skip [.createServicemanagerBindings]) =
      .ok ((context.skip [.createServicemanagerBindings]).1,
        [.updateStep other.id (.resolve .skipped none) ⟨2, 0⟩]) := by
    rw [ManualContext.perform, updates]
    rfl
  have skipped := loaded.move (.perform performed)
  have overtaken := @Reachable.overtake _ skipped process.id 0
    [.updateStep other.id (.resolve .done none) ⟨3, 0⟩] ⟨[raised], [current, done]⟩
    (by simp [Batch.OnlySteps, Change.concernsProcess]) rfl
  have sameId : (context.skip [.createServicemanagerBindings]).1.process.id = process.id :=
    congrArg (·.id) (ManualContext.process_skipTypes context _)
  have found : ∀ steps,
      Rows.process? ⟨[raised], steps⟩ (context.skip [.createServicemanagerBindings]).1.process.id =
        some raised :=
    fun steps => sameId ▸ rfl
  exact ⟨_, raised, ⟨[raised], [current, overwritten]⟩, overtaken, List.cons_ne_nil _ _, found _,
    Int.zero_lt_one, rfl, found _, done, List.mem_cons_of_mem _ List.mem_cons_self, rfl, rfl⟩

end ManualRun

end Workflow
