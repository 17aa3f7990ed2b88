import Workflow.Proofs.Attempt.Bench
import Workflow.Proofs.Manual.Conclusion

/-!
# A step by hand and a step in a drain

An operator who runs a step by hand loads the process, skips and schedules other steps
and finalizes the step.  A drain settles the step first and then skips and schedules, from
a picture of its own.  The stored steps afterwards are the same, up to the times at which
they were written.
-/

namespace Workflow

namespace Steps

variable {type : StepType} {steps others : List Step} {status : StepStatus} {stamps : Stamps}
  {message : Option String}

theorem due_append (undue : ∀ step ∈ others, ¬step.isDue type) :
    due type (steps ++ others) = due type steps := by
  rw [due, List.filter_append, List.filter_eq_nil_iff.mpr undue, List.append_nil, due]

theorem resolve_append (undue : ∀ step ∈ others, ¬step.isDue type) :
    resolve stamps type status message (steps ++ others) =
      resolve stamps type status message steps ++ others := by
  rw [resolve, due_append undue, List.map_append, resolve]
  congr 1
  rw [List.map_congr_left (g := fun step => step), List.map_id']
  exact fun step member => Step.resolve_of_not_isDue (undue step member)

end Steps

namespace Agenda

variable {agenda : Agenda} {steps : List Step} {type : StepType}

theorem Mirrors.mem_ids (mirrors : agenda.Mirrors steps) {id : Uuid}
    (listed : id ∈ agenda.stepsOf type) : id ∈ steps.map Step.id := by
  rw [mirrors.pending] at listed
  exact Steps.mem_ids_of_mem_due listed

theorem Mirrors.targets_skip (mirrors : agenda.Mirrors steps) (unique : (steps.map Step.id).Nodup)
    (types : List StepType) : ∀ entry ∈ (agenda.skip types).2, entry.1 ∈ steps.map Step.id := by
  induction types generalizing agenda steps with
  | nil => simp [Agenda.skip]
  | cons type types induction =>
      obtain ⟨stamps, skipped, _⟩ := mirrors.skipType unique type fun _ => ⟨0, 0⟩
      have others := induction skipped (by rwa [Steps.map_id_resolve])
      rw [Steps.map_id_resolve] at others
      intro entry member
      rcases List.mem_append.mp member with isFirst | isOther
      · rw [Agenda.skipType] at isFirst
        split at isFirst
        · cases isFirst
        · exact mirrors.mem_ids (Resolution.mem_of_mem_updates isFirst)
      · exact others entry isOther

theorem Mirrors.targets_afterResult (mirrors : agenda.Mirrors steps)
    (unique : (steps.map Step.id).Nodup) (unqueued : type ∉ agenda.queue) (result : StepResult) :
    ∀ entry ∈ (agenda.afterResult type result).2, entry.1 ∈ steps.map Step.id := by
  obtain ⟨stamps, settled, _⟩ :=
    mirrors.settle unique unqueued (fun _ => ⟨0, 0⟩) result.status result.message
  have skipped := settled.targets_skip (by rwa [Steps.map_id_settle]) (result.skip.getD [])
  rw [Steps.map_id_settle] at skipped
  intro entry member
  rcases List.mem_append.mp member with isSettled | isSkipped
  · rw [Agenda.settle] at isSettled
    split at isSettled
    · cases isSettled
    · exact mirrors.mem_ids (Resolution.mem_of_mem_updates isSettled)
  · exact skipped entry isSkipped

end Agenda

/-! ### The agreement -/

theorem Steps.isNew_of_scheduled {types : List StepType} {added : List Step} {ids : List Uuid}
    {id : Uuid} {rows : Rows} (undated : added.map Step.undated = scheduled id (types.zip ids))
    (distinct : ids.Nodup) (isNew : ∀ new ∈ ids, new ∉ rows.steps.map Step.id) :
    (∀ step ∈ added, step.process = id) ∧ (∀ step ∈ added, step.type ∈ types) ∧
      (∀ step ∈ added, step.id ∉ rows.steps.map Step.id) ∧ (added.map Step.id).Nodup := by
  have entries : ∀ step ∈ added, step.process = id ∧ (step.type, step.id) ∈ types.zip ids := by
    intro step member
    have listed : step.undated ∈ scheduled id (types.zip ids) :=
      undated ▸ List.mem_map_of_mem member
    obtain ⟨entry, inEntries, same⟩ := List.mem_map.mp listed
    have isType : entry.1 = step.type := congrArg Step.type same
    have isId : entry.2 = step.id := congrArg Step.id same
    have owner : id = step.process := congrArg Step.process same
    exact ⟨owner.symm, isType ▸ isId ▸ inEntries⟩
  refine ⟨fun step member => (entries step member).1, ?_, ?_, ?_⟩
  · exact fun step member => (List.of_mem_zip (entries step member).2).1
  · exact fun step member => isNew step.id (List.of_mem_zip (entries step member).2).2
  · have sameIds : added.map Step.id = (types.zip ids).map Prod.snd := by
      have mapped := congrArg (List.map Step.id) undated
      rw [List.map_map, scheduled, List.map_map] at mapped
      exact mapped
    rw [sameIds, List.zip_eq_zip_take_min, List.map_snd_zip (by simp)]
    exact distinct.sublist (List.take_sublist _ ids)

namespace Steps

/-- The steps of a process after a step of a type is done and other types are skipped and
scheduled, without the times at which they were written. -/
def concluded (process : Uuid) (type : StepType) (skip schedule : List StepType)
    (ids : List Uuid) (steps : List Step) : List Step :=
  (steps.map (((Verdict.only type .done).skip skip).apply steps)).map Step.undated ++
    scheduled process ((lacking schedule steps).zip ids)

variable {steps : List Step} {type : StepType} {skip types : List StepType}
  {stamps later : Stamps}

/-- What a drain does to steps when one is done. -/
theorem map_undated_resolved {result : StepResult} (finished : result.status = .done)
    (silent : result.message = none) :
    ((Outcome.ran type result).resolved stamps later steps).map Step.undated =
      (steps.map (((Verdict.only type .done).skip (result.skip.getD [])).apply steps)).map
        Step.undated := by
  have settled : Verdict.Settles (Verdict.only type .done) steps
      (Steps.settle stamps type .done none steps) := by
    rw [Steps.settle, if_neg (by simp)]
    exact (Verdict.settles_refl steps).resolve rfl .done stamps
  rw [Outcome.resolved, finished, silent]
  exact (settled.skip (Verdict.isFinal_only (by simp)) _ later).map_undated

/-- What an operator does to steps: the types that are skipped are resolved first. -/
theorem map_undated_finalized (unskipped : type ∉ types)
    (same : ∀ step ∈ steps, step.isPending → step.type ≠ type →
      (step.type ∈ types ↔ step.type ∈ skip)) :
    (Steps.resolve later type .done none (Steps.skip stamps types steps)).map Step.undated =
      (steps.map (((Verdict.only type .done).skip skip).apply steps)).map Step.undated := by
  have undecided : (Verdict.skip types fun _ => none) type = none := by
    simp [Verdict.skip, unskipped]
  have skipped := (Verdict.settles_refl steps).skip (by simp [Verdict.IsFinal]) types stamps
  rw [(skipped.resolve undecided .done later).map_undated]
  congr 1
  apply Verdict.map_apply_congr
  intro step member isPending
  by_cases isType : step.type = type
  · simp [Verdict.skip, Verdict.only, isType]
  · simp [Verdict.skip, Verdict.only, isType, same step member isPending isType]

end Steps

variable {rows : Rows} {process : Process} {agenda : Agenda} {type : StepType}
  {result : StepResult} {ids : List Uuid}

/-- What an operator stages is committed. -/
theorem ManualContext.exists_commit_conclude (keyed : rows.Keyed)
    (found : rows.process? process.id = some process)
    (due : ∃ step ∈ rows.owned process.id, step.isDue type)
    (distinct : ids.Nodup) (isNew : ∀ id ∈ ids, id ∉ rows.steps.map Step.id)
    (skip schedule : List StepType) (clock : Readings) :
    ∃ batch after, (ofRows rows process type).conclude clock ids skip schedule = .ok batch ∧
      rows.commit batch = .ok after ∧
      (after.process? process.id).map Process.version = some (process.version + 1) ∧
      (after.owned process.id).map Step.undated =
        Steps.concluded process.id type skip schedule ids (rows.owned process.id) ∧
      ∀ other, other ≠ process.id → after.owned other = rows.owned other := by
  obtain ⟨step, member, isDue⟩ := due
  have occurs : type ∈ (rows.owned process.id).map Step.type :=
    (Step.isDue_iff.mp isDue).2 ▸ List.mem_map_of_mem member
  obtain ⟨stamps, skipped, added, later, lease, updated, targets, undated, concluded⟩ :=
    @exists_conclude rows process type keyed occurs clock ids skip schedule
  let types := (ofRows rows process type).otherTypes.filter skip.contains
  let steps := Steps.skip stamps types (rows.owned process.id)
  obtain ⟨owner, newTypes, newIds, newDistinct⟩ := Steps.isNew_of_scheduled undated distinct isNew
  have sameIds : steps.map Step.id = (rows.owned process.id).map Step.id := Steps.map_id_skip
  have allTargets : ∀ entry ∈ skipped ++
      Resolution.updates ((Steps.due type steps).map Step.id) .done none,
      entry.1 ∈ (rows.owned process.id).map Step.id := by
    intro entry member
    rcases List.mem_append.mp member with isSkipped | isFinal
    · exact targets entry isSkipped
    · exact sameIds ▸ Steps.mem_ids_of_mem_due (Resolution.mem_of_mem_updates isFinal)
  have undue : ∀ step ∈ added, ¬step.isDue type := by
    intro step member isDue
    have isLacking := newTypes step member
    rw [(Step.isDue_iff.mp isDue).2] at isLacking
    exact (Steps.mem_lacking_iff.mp isLacking).2 occurs
  have unique : ((steps ++ added).map Step.id).Nodup := by
    rw [List.map_append, sameIds, List.nodup_append]
    refine ⟨keyed.nodup_owned process.id, newDistinct, ?_⟩
    intro id old new isNew same
    obtain ⟨step, member, isId⟩ := List.mem_map.mp isNew
    have stored := (List.Sublist.map Step.id List.filter_sublist).subset old
    exact newIds step member (isId ▸ same ▸ stored)
  have unskipped : type ∉ types := fun member =>
    ne_current_of_mem_otherTypes (List.mem_filter.mp member).1 rfl
  obtain ⟨after, committed, version, owned, others⟩ := Rows.exists_commit_conclusion clock later
    _ _ keyed found allTargets owner newIds newDistinct lease
  obtain ⟨finalStamps, finalized⟩ :=
    @Steps.map_stepAfter_updates (steps ++ added) type unique later .done none
  refine ⟨_, after, concluded, committed, version, ?_, others⟩
  rw [owned, updated, ← Steps.due_append undue, finalized,
    Steps.resolve_append undue, List.map_append, undated, Steps.concluded]
  congr 1
  apply Steps.map_undated_finalized unskipped
  intro other member isPending different
  rw [List.mem_filter, mem_otherTypes_iff different, List.contains_iff_mem]
  exact and_iff_right ⟨other, member, Step.isDue_iff.mpr ⟨isPending, rfl⟩⟩

theorem Agenda.Mirrors.updates_ne_nil (mirrors : agenda.Mirrors (rows.owned process.id))
    (due : ∃ step ∈ rows.owned process.id, step.isDue type) (finished : result.status = .done) :
    (agenda.afterResult type result).2 ≠ [] := by
  obtain ⟨step, member, isDue⟩ := due
  have listed : agenda.stepsOf type ≠ [] := by
    rw [mirrors.pending]
    exact List.ne_nil_of_mem (List.mem_map_of_mem (Steps.mem_due_iff.mpr ⟨member, isDue⟩))
  have settled : (agenda.settle type result.status result.message).2 =
      Resolution.updates (agenda.stepsOf type) result.status result.message := by
    rw [Agenda.settle, if_neg (by simp [finished, listed])]
  intro nothing
  have noneSettled := (List.append_eq_nil_iff.mp nothing).1
  rw [settled] at noneSettled
  have sameSteps :
      (Resolution.updates (agenda.stepsOf type) result.status result.message).map Prod.fst =
        agenda.stepsOf type := Resolution.map_fst_updates
  exact listed (by rw [← sameSteps, noneSettled, List.map_nil])

/-- What a drain stages is committed. -/
theorem Attempt.exists_finish_commitStep (keyed : rows.Keyed)
    (found : rows.process? process.id = some process)
    (mirrors : agenda.Mirrors (rows.owned process.id)) (unqueued : type ∉ agenda.queue)
    (due : ∃ step ∈ rows.owned process.id, step.isDue type)
    (distinct : ids.Nodup) (isNew : ∀ id ∈ ids, id ∉ rows.steps.map Step.id)
    (enough : (Steps.lacking (result.schedule.getD []) (rows.owned process.id)).length ≤
      ids.length)
    (finished : result.status = .done) (silent : result.message = none)
    (term : LeaseTerm) (executor : ProcessType) (clock : Readings) :
    ∃ drained : Bench, Bench.finish result ⟨rows, process, [], ids, clock⟩
        (commitStep term executor process.id type agenda) = (.ok true, drained) ∧
      (drained.rows.process? process.id).map Process.version = some (process.version + 1) ∧
      (drained.rows.owned process.id).map Step.undated =
        Steps.concluded process.id type (result.skip.getD []) (result.schedule.getD []) ids
          (rows.owned process.id) ∧
      ∀ other, other ≠ process.id → drained.rows.owned other = rows.owned other := by
  have unique := keyed.nodup_owned process.id
  have sameUnknown : (agenda.afterResult type result).1.unknown (result.schedule.getD []) =
      Steps.lacking (result.schedule.getD []) (rows.owned process.id) := by
    obtain ⟨_, _, settled, _⟩ := mirrors.afterResult unique unqueued clock result
    rw [settled.unknown_eq]
    exact Steps.lacking_congr Outcome.map_type_resolved
  obtain ⟨clock, added, undated, commits⟩ := @Bench.finish_commitStep result
    ⟨rows, process, [], ids, clock⟩ process.id executor type agenda term rfl
    (mirrors.updates_ne_nil due finished)
    (by rwa [sameUnknown])
  rw [sameUnknown] at undated
  obtain ⟨owner, _, newIds, newDistinct⟩ := Steps.isNew_of_scheduled undated distinct isNew
  obtain ⟨after, committed, version, owned, others⟩ := Rows.exists_commit_conclusion clock clock
    (agenda.afterResult type result).2 [] keyed found
    (by simpa using mirrors.targets_afterResult unique unqueued result) owner newIds
    newDistinct .keep
  obtain ⟨drained, ended, rfl⟩ := commits after committed
  refine ⟨drained, ended, version, ?_, others⟩
  obtain ⟨_, _, _, updated⟩ := mirrors.afterResult unique unqueued clock result
  have nothingMore : Batch.stepAfter (Change.ofUpdates clock []) = id := Batch.stepAfter_nil
  rw [owned, updated, nothingMore, List.map_id, List.map_append, undated,
    Steps.map_undated_resolved finished silent, Steps.concluded]

namespace ManualContext

/-- **Both ways of running a step leave the same steps.**  Let a process have a pending
step of a type, let nobody have leased it, and let a drain that has leased it meet the same
stored steps: its agenda mirrors them, and the type has been taken off its queue.  The
operator can then load the process.  Whatever types are to be skipped and scheduled, what
the operator stages and what the drain stages for a step that is done are both committed.
If new steps take their identifiers from one supply, all stored steps are then the same up
to the times at which they were written, and the version has risen by one. -/
theorem steps_agree_with_drain {free leased : Rows} {process held : Process}
    {now : Timestamp} (keyed : free.Keyed) (leasedKeyed : leased.Keyed)
    (sameSteps : leased.steps = free.steps)
    (found : free.process? process.id = some process) (unleased : process.isLeased now = false)
    (due : ∃ step ∈ free.owned process.id, step.isDue type)
    (stored : leased.process? process.id = some held)
    (mirrors : agenda.Mirrors (leased.owned process.id)) (unqueued : type ∉ agenda.queue)
    (finished : result.status = .done) (silent : result.message = none)
    (distinct : ids.Nodup) (isNew : ∀ id ∈ ids, id ∉ free.steps.map Step.id)
    (enough : (Steps.lacking (result.schedule.getD []) (free.owned process.id)).length ≤
      ids.length)
    (owner : String) (term : LeaseTerm) (executor : ProcessType)
    (clock drainClock : Readings) :
    ∃ (context : ManualContext) (batch : Batch) (byHand : Rows) (drained : Bench),
      check (free.load? process.id none) type owner now = .ok context ∧
      context.conclude clock ids (result.skip.getD []) (result.schedule.getD []) = .ok batch ∧
      free.commit batch = .ok byHand ∧
      Bench.finish result ⟨leased, held, [], ids, drainClock⟩
        (Attempt.commitStep term executor process.id type agenda) = (.ok true, drained) ∧
      (∀ id, (byHand.owned id).map Step.undated = (drained.rows.owned id).map Step.undated) ∧
      (byHand.process? process.id).map Process.version = some (process.version + 1) ∧
      (drained.rows.process? process.id).map Process.version = some (held.version + 1) := by
  have heldId : held.id = process.id := Rows.id_of_process? stored
  have sameOwned : ∀ id, leased.owned id = free.owned id := by
    simp [Rows.owned, sameSteps]
  rw [← sameOwned] at enough
  obtain ⟨batch, byHand, concluded, committed, version, steps, others⟩ :=
    exists_commit_conclude keyed found due distinct isNew (result.skip.getD [])
      (result.schedule.getD []) clock
  obtain ⟨drained, ended, drainVersion, drainSteps, drainOthers⟩ :=
    Attempt.exists_finish_commitStep leasedKeyed
      (heldId.symm ▸ stored : leased.process? held.id = _)
      (heldId ▸ mirrors) unqueued (heldId ▸ sameOwned process.id ▸ due) distinct
      (sameSteps ▸ isNew) (heldId ▸ enough) finished silent term executor drainClock
  rw [heldId] at ended drainVersion drainSteps drainOthers
  refine ⟨_, batch, byHand, drained, check_eq_ok found unleased due owner, concluded, committed,
    ended, ?_, version, drainVersion⟩
  intro id
  by_cases same : id = process.id
  · rw [same, steps, drainSteps, sameOwned]
  · rw [others id same, drainOthers id same, sameOwned]

/-- Two pending steps of the type and one of another, which is skipped and scheduled at the
same time; the type itself is to be skipped too, and one type is new. -/
theorem steps_agree_for_duplicates :
    ∃ (batch : Batch) (byHand : Rows) (drained : Bench),
      Rows.commit ⟨[.fresh (.ofNat 1) .setupDim],
        [.fresh (.ofNat 2) .createSubaccount .todo (.ofNat 1) ⟨0, 0⟩,
          .fresh (.ofNat 3) .createSubaccount .todo (.ofNat 1) ⟨1, 0⟩,
          .fresh (.ofNat 4) .createServicemanagerBindings .todo (.ofNat 1) ⟨2, 0⟩]⟩ batch =
        .ok byHand ∧
      (∀ id, (byHand.owned id).map Step.undated = (drained.rows.owned id).map Step.undated) ∧
      (byHand.process? (.ofNat 1)).map Process.version = some 1 ∧
      (drained.rows.process? (.ofNat 1)).map Process.version = some 2 := by
  let process := Process.fresh (.ofNat 1) .setupDim
  let held : Process := ⟨.ofNat 1, .setupDim, 1, some ⟨5, 0⟩⟩
  let steps : List Step :=
    [.fresh (.ofNat 2) .createSubaccount .todo process.id ⟨0, 0⟩,
      .fresh (.ofNat 3) .createSubaccount .todo process.id ⟨1, 0⟩,
      .fresh (.ofNat 4) .createServicemanagerBindings .todo process.id ⟨2, 0⟩]
  let result : StepResult := ⟨true, .done,
    some [.createServicemanagerBindings, .assignEntitlements, .assignEntitlements],
    some [.createServicemanagerBindings, .createSubaccount], none⟩
  let leased : Rows := ⟨[held], steps⟩
  let loaded := Agenda.load [.createSubaccount] (leased.pendingSteps process.id)
    (leased.stepTypes process.id)
  have leasedKeyed : leased.Keyed := ⟨by decide, by decide⟩
  have mirrors : loaded.Mirrors (leased.owned process.id) :=
    Rows.mirrors_load leasedKeyed [.createSubaccount]
  have taken : Agenda.Mirrors { loaded with queue := [] } (leased.owned process.id) :=
    ⟨mirrors.pending, mirrors.groups, mirrors.listed, mirrors.known, by simp⟩
  obtain ⟨_, batch, byHand, drained, _, _, committed, _, same, version, drainVersion⟩ :=
    @steps_agree_with_drain _ .createSubaccount result [.ofNat 5] ⟨[process], steps⟩ leased process
      held ⟨3, 0⟩ ⟨by decide, by decide⟩ leasedKeyed rfl rfl rfl
      ⟨_, List.mem_cons_self, by decide⟩ rfl taken (by simp) rfl rfl (by decide) (by decide)
      (by decide) "owner" (.ok 5) .setupDim (fun reading => ⟨reading, 0⟩)
      (fun reading => ⟨reading + 3, 0⟩)
  exact ⟨batch, byHand, drained, committed, same, version, drainVersion⟩

end ManualContext

end Workflow
