import Workflow.Proofs.Drain.Mirror
import Workflow.Proofs.Drain.Verdict
import Workflow.Proofs.Manual.Mirror
import Workflow.Proofs.Rows.Frame

/-!
# Concluding a step

A step is concluded by updates of stored steps, new steps, further updates, and the next
version of its process.  An operator who has run a step by hand skips some of the other
steps first, schedules new ones and finalizes the step last.
-/

namespace Workflow

namespace Batch

variable {process : Process} {clock later : Readings} {first second : List (Uuid × StepUpdate)}
  {added owned : List Step} {lease : Field (Option Timestamp)} {rows : Rows}

theorem insertedSteps_insertSteps : insertedSteps (added.map .insertStep) = added := by
  rw [insertedSteps, List.filterMap_map]
  exact List.filterMap_some

theorem ownedAfter_insertSteps {id : Uuid} (owner : ∀ step ∈ added, step.process = id) :
    ownedAfter id (added.map .insertStep) owned = owned ++ added := by
  induction added generalizing owned with
  | nil => simp
  | cons step added induction =>
      rw [List.map_cons, ownedAfter_cons, induction fun other member =>
        owner other (List.mem_cons_of_mem step member)]
      simp [Change.ownedAfter, owner step List.mem_cons_self]

/-- The changes that conclude a step: updates, new steps, further updates, and the next
version of the process. -/
def conclusion (process : Process) (clock later : Readings)
    (first second : List (Uuid × StepUpdate)) (added : List Step)
    (lease : Field (Option Timestamp)) : Batch :=
  Change.ofUpdates clock first ++ added.map .insertStep ++
    (Change.ofUpdates later second ++
      [.updateProcess process.id process.version ⟨process.version + 1, lease⟩])

theorem mem_conclusion {change : Change}
    (member : change ∈ conclusion process clock later first second added lease) :
    (∃ entry ∈ first ++ second, ∃ time, change = .updateStep entry.1 entry.2 time) ∨
      (∃ step ∈ added, change = .insertStep step) ∨
      change = .updateProcess process.id process.version ⟨process.version + 1, lease⟩ := by
  simp only [conclusion, List.mem_append, List.mem_map, List.mem_singleton] at member
  rcases member with (isFirst | ⟨step, listed, rfl⟩) | isSecond | rfl
  · obtain ⟨entry, listed, now, rfl⟩ := Change.mem_ofUpdates isFirst
    exact .inl ⟨entry, List.mem_append_left _ listed, now, rfl⟩
  · exact .inr (.inl ⟨step, listed, rfl⟩)
  · obtain ⟨entry, listed, now, rfl⟩ := Change.mem_ofUpdates isSecond
    exact .inl ⟨entry, List.mem_append_right _ listed, now, rfl⟩
  · exact .inr (.inr rfl)

theorem insertedSteps_conclusion :
    insertedSteps (conclusion process clock later first second added lease) = added := by
  have last : insertedSteps
      [.updateProcess process.id process.version ⟨process.version + 1, lease⟩] = [] := rfl
  simp [conclusion, insertedSteps_insertSteps, insertedSteps_ofUpdates, last]

theorem changesOnly_conclusion :
    ChangesOnly process.id (conclusion process clock later first second added lease) := by
  intro change member concerned
  rcases mem_conclusion member with ⟨_, _, _, rfl⟩ | ⟨_, _, rfl⟩ | rfl
  · cases concerned
  · cases concerned
  · exact ⟨_, _, rfl⟩

theorem processAfter?_conclusion :
    processAfter? (conclusion process clock later first second added lease) process =
      some { process with version := process.version + 1, lease := lease.apply process.lease } := by
  have last : processAfter?
      [.updateProcess process.id process.version ⟨process.version + 1, lease⟩] process =
        some { process with
          version := process.version + 1, lease := lease.apply process.lease } := by
    simp [processAfter?_cons, Change.processAfter?, ProcessUpdate.apply]
  simp only [conclusion, processAfter?_append, onlySteps_ofUpdates.processAfter?,
    onlySteps_insertSteps.processAfter?, Option.bind_some, last]

theorem ownedAfter_conclusion (owner : ∀ step ∈ added, step.process = process.id) :
    ownedAfter process.id (conclusion process clock later first second added lease) owned =
      (owned.map (stepAfter (Change.ofUpdates clock first)) ++ added).map
        (stepAfter (Change.ofUpdates later second)) := by
  rw [conclusion, ownedAfter_append, ownedAfter_append, ownedAfter_append, ownedAfter_ofUpdates,
    ownedAfter_insertSteps owner, ownedAfter_ofUpdates]
  rfl

end Batch

namespace Rows

variable {rows : Rows} {process : Process} {added : List Step}

theorem exists_commit_conclusion (clock later : Readings)
    (first second : List (Uuid × StepUpdate)) (keyed : rows.Keyed)
    (found : rows.process? process.id = some process)
    (targets : ∀ entry ∈ first ++ second, entry.1 ∈ (rows.owned process.id).map Step.id)
    (owner : ∀ step ∈ added, step.process = process.id)
    (isNew : ∀ step ∈ added, step.id ∉ rows.steps.map Step.id)
    (distinct : (added.map Step.id).Nodup) (lease : Field (Option Timestamp)) :
    ∃ after, rows.commit (Batch.conclusion process clock later first second added lease) =
        .ok after ∧
      (after.process? process.id).map Process.version = some (process.version + 1) ∧
      after.owned process.id =
        ((rows.owned process.id).map (Batch.stepAfter (Change.ofUpdates clock first)) ++ added).map
          (Batch.stepAfter (Change.ofUpdates later second)) ∧
      ∀ other, other ≠ process.id → after.owned other = rows.owned other := by
  let batch := Batch.conclusion process clock later first second added lease
  have inserted : Batch.insertedSteps batch = added := Batch.insertedSteps_conclusion
  have fresh : Batch.IsFresh rows batch := by
    constructor
    · rwa [inserted]
    · rwa [inserted]
    · simp [batch, Batch.changesOnly_conclusion.insertedProcesses_eq]
    · simp [batch, Batch.changesOnly_conclusion.insertedProcesses_eq]
    · simp [batch, Batch.changesOnly_conclusion.insertedProcesses_eq]
  have keeps : ∀ step, .deleteStep step ∉ batch := by
    intro step member
    rcases Batch.mem_conclusion member with ⟨_, _, _, same⟩ | ⟨_, _, same⟩ | same <;> cases same
  have named : ∀ change ∈ batch, change.Finds ((rows.owned process.id).map Step.id) := by
    intro change member
    rcases Batch.mem_conclusion member with ⟨entry, listed, _, rfl⟩ | ⟨_, _, rfl⟩ | rfl
    · exact targets entry listed
    · trivial
    · trivial
  obtain ⟨after, committed, final, owned, others⟩ := exists_commit_of_targets keyed
    Batch.changesOnly_conclusion fresh found Batch.processAfter?_conclusion keeps named
    (inserted.symm ▸ owner)
  refine ⟨after, committed, by simp [final], ?_, others⟩
  rw [owned, Batch.ownedAfter_conclusion owner]

end Rows

theorem oldestFirst_eq_of_perm {left right : List Step} (unique : (left.map Step.id).Nodup)
    (perm : left.Perm right) : oldestFirst left = oldestFirst right := by
  have sorted : (oldestFirst left).Perm (oldestFirst right) :=
    (List.mergeSort_perm _ _).trans (perm.trans (List.mergeSort_perm _ _).symm)
  refine sorted.eq_of_pairwise ?_ (Step.pairwise_oldestFirst left)
    (Step.pairwise_oldestFirst right)
  intro first second firstMember secondMember before after
  have inLeft : ∀ step ∈ oldestFirst left, step ∈ left := fun step member =>
    List.mem_mergeSort.mp member
  exact List.inj_on_of_nodup_map unique (inLeft first firstMember)
    (inLeft second (sorted.symm.subset secondMember)) (Step.id_eq_of_isNotAfter before after)

theorem Resolution.map_fst_positions {chosen : Step → Bool} {steps : List Step} :
    (positions chosen steps).map Prod.fst = oldestFirst (steps.filter chosen) := by
  rw [positions, List.map_mergeSort (s := Step.isNotAfter) fun _ _ _ _ => rfl, oldestFirst]
  have sameFilter : (steps.zipIdx.filter fun entry => chosen entry.1).map Prod.fst =
      steps.filter chosen := by
    conv_rhs => rw [← List.zipIdx_map_fst 0 steps, List.filter_map]
    rfl
  rw [sameFilter]

theorem Steps.mem_ids_of_mem_due {type : StepType} {steps : List Step} {id : Uuid}
    (member : id ∈ (due type steps).map Step.id) : id ∈ steps.map Step.id := by
  obtain ⟨step, isDue, rfl⟩ := List.mem_map.mp member
  exact List.mem_map_of_mem (mem_due_iff.mp isDue).1

namespace ManualContext

variable {context : ManualContext} {steps : List Step} {types : List StepType}
  {type other : StepType} {status : StepStatus} {now : Timestamp}

/-- The loaded steps of a type, oldest first. -/
def idsOf (context : ManualContext) (type : StepType) : List Uuid :=
  (oldestFirst (context.steps.filter (ofType type))).map Step.id

/-- The loaded steps of some types are the stored ones that are pending. -/
structure Lists (context : ManualContext) (types : List StepType) (steps : List Step) :
    Prop where
  unique : (context.steps.map Step.id).Nodup
  groups : ∀ type ∈ types, context.idsOf type = (Steps.due type steps).map Step.id

theorem resolveType_snd :
    (context.resolveType status type).2 =
      Resolution.updates (context.idsOf type) status none := by
  rw [idsOf, ← Resolution.map_fst_positions, List.map_map]
  rfl

theorem steps_resolveType (unique : (context.steps.map Step.id).Nodup) :
    (context.resolveType status type).1.steps = context.steps.map fun step =>
      if ofType type step then
        { step with
          status := some (Resolution.assigned (ofType type) status context.steps step) }
      else step := by
  have resolved : (Resolution.resolve (ofType type) status none context.steps).1 = _ :=
    Resolution.resolve_fst unique
  exact resolved

theorem map_steps_resolveType {α : Type} {field : Step → α}
    (unique : (context.steps.map Step.id).Nodup)
    (kept : ∀ step status, field { step with status } = field step) :
    (context.resolveType status type).1.steps.map field = context.steps.map field := by
  rw [steps_resolveType unique, List.map_map]
  apply List.map_congr_left
  intro step _
  rw [Function.comp_apply]
  split
  · exact kept step _
  · rfl

theorem idsOf_resolveType_of_ne (unique : (context.steps.map Step.id).Nodup)
    (different : other ≠ type) :
    (context.resolveType status type).1.idsOf other = context.idsOf other := by
  have sameGroup : (context.resolveType status type).1.steps.filter (ofType other) =
      context.steps.filter (ofType other) := by
    let resolve (step : Step) : Step :=
      if ofType type step then
        { step with
          status := some (Resolution.assigned (ofType type) status context.steps step) }
      else step
    have sameChosen : ofType other ∘ resolve = ofType other := by
      funext step
      simp only [Function.comp_apply, resolve]
      split <;> rfl
    rw [steps_resolveType unique, List.filter_map]
    change (context.steps.filter (ofType other ∘ resolve)).map resolve = _
    rw [sameChosen, List.map_congr_left (g := fun step => step), List.map_id']
    intro step member
    have isOther : step.type = other := by simpa [ofType] using (List.mem_filter.mp member).2
    exact if_neg (by simpa [ofType, isOther] using different)
  rw [idsOf, sameGroup, idsOf]

/-- Resolving a group by hand is resolving the stored steps of its type. -/
theorem Lists.resolveType (lists : context.Lists (type :: types) steps) (notLater : type ∉ types)
    (unique : (steps.map Step.id).Nodup) (status : StepStatus) (clock : Readings) :
    ∃ stamps, (context.resolveType status type).1.Lists types
        (Steps.resolve stamps type status none steps) ∧
      steps.map (Batch.stepAfter
          (Change.ofUpdates clock (context.resolveType status type).2)) =
        Steps.resolve stamps type status none steps ∧
      ∀ entry ∈ (context.resolveType status type).2, entry.1 ∈ steps.map Step.id := by
  rw [resolveType_snd, lists.groups type List.mem_cons_self]
  obtain ⟨stamps, updated⟩ := @Steps.map_stepAfter_updates steps type unique clock status none
  refine ⟨stamps, ?_, updated, ?_⟩
  · constructor
    · rw [map_steps_resolveType lists.unique fun _ _ => rfl]
      exact lists.unique
    · intro other member
      have different : other ≠ type := fun same => notLater (same ▸ member)
      rw [idsOf_resolveType_of_ne lists.unique different, Steps.due_resolve_of_ne different]
      exact lists.groups other (List.mem_cons_of_mem type member)
  · exact fun entry member => Steps.mem_ids_of_mem_due (Resolution.mem_of_mem_updates member)

theorem Lists.skipTypes (lists : context.Lists (types ++ [type]) steps)
    (distinct : (types ++ [type]).Nodup) (unique : (steps.map Step.id).Nodup)
    (clock : Readings) :
    ∃ stamps, (context.skipTypes types).1.Lists [type] (Steps.skip stamps types steps) ∧
      steps.map (Batch.stepAfter (Change.ofUpdates clock (context.skipTypes types).2)) =
        Steps.skip stamps types steps ∧
      ∀ entry ∈ (context.skipTypes types).2, entry.1 ∈ steps.map Step.id := by
  induction types generalizing context steps clock with
  | nil =>
      exact ⟨fun _ => clock 0, lists, by simp [ManualContext.skipTypes, Steps.skip],
        by simp [ManualContext.skipTypes]⟩
  | cons first types induction =>
      obtain ⟨notLater, restDistinct⟩ := List.nodup_cons.mp distinct
      obtain ⟨stamps, others, updated, targets⟩ :=
        lists.resolveType notLater unique .skipped clock
      obtain ⟨more, remaining, othersUpdated, otherTargets⟩ :=
        induction others restDistinct (by rwa [Steps.map_id_resolve])
          (clock.after (context.resolveType .skipped first).2.length)
      rw [Steps.map_id_resolve] at otherTargets
      obtain ⟨both, joined⟩ := @Steps.exists_skip_cons stamps more first steps types
      refine ⟨both, joined ▸ remaining, ?_, ?_⟩
      · rw [ManualContext.skipTypes, Change.ofUpdates_append, Batch.map_stepAfter_append, updated]
        exact othersUpdated.trans joined
      · intro entry member
        exact (List.mem_append.mp member).elim (targets entry) (otherTargets entry)

/-! ### The whole run by hand -/

/-- What an operator loads who leaves out no step type. -/
def ofRows (rows : Rows) (process : Process) (current : StepType) : ManualContext where
  current := current
  process := process.withSteps (rows.stepsOf process.id)
  steps := (rows.stepsOf process.id).filter Step.isPending

/-- Skips and schedules other steps and finalizes the current one; what is staged. -/
def conclude (context : ManualContext) (clock : Readings) (ids : List Uuid)
    (skip schedule : List StepType) : Except Failure Batch := do
  let skipped ← context.perform clock [] (.skip skip)
  let clock := clock.after skipped.2.length
  let scheduled ← skipped.1.perform clock ids (.schedule schedule)
  let clock := clock.after scheduled.2.length
  let finished ← scheduled.1.perform clock [] .finalize
  return skipped.2 ++ scheduled.2 ++ finished.2

variable {rows : Rows} {process : Process} {current : StepType} {clock : Readings}
  {ids : List Uuid} {skip schedule : List StepType}

theorem check_eq_ok (found : rows.process? process.id = some process)
    (unleased : process.isLeased now = false)
    (due : ∃ step ∈ rows.owned process.id, step.isDue current) (owner : String) :
    check (rows.load? process.id none) current owner now = .ok (ofRows rows process current) := by
  obtain ⟨step, member, isDue⟩ := due
  obtain ⟨isPending, isCurrent⟩ := Step.isDue_iff.mp isDue
  have loaded : rows.load? process.id none = some
      ⟨some (process.withSteps (rows.stepsOf process.id)),
        some ((rows.stepsOf process.id).filter Step.isPending)⟩ := by
    rw [Rows.load?, Rows.detail?, found]
    simp [Loaded.ofDetail, allowed, Process.withSteps]
  have listed : step ∈ (rows.stepsOf process.id).filter Step.isPending :=
    List.mem_filter.mpr ⟨List.mem_mergeSort.mpr member, isPending⟩
  have allPending : ((rows.stepsOf process.id).filter Step.isPending).any
      (fun step => !step.isPending) = false := by
    simp
  have someCurrent : ((rows.stepsOf process.id).filter Step.isPending).all
      (fun step => step.type != current) = false := by
    rw [List.all_eq_false]
    exact ⟨step, listed, by simp [isCurrent]⟩
  have stillUnleased : (process.withSteps (rows.stepsOf process.id)).isLeased now = false :=
    unleased
  simp only [check, loaded, stillUnleased, allPending, someCurrent]
  rfl

theorem lists_ofRows (keyed : rows.Keyed) (types : List StepType) :
    (ofRows rows process current).Lists types (rows.owned process.id) := by
  have sorted : (rows.stepsOf process.id).Perm (rows.owned process.id) := List.mergeSort_perm _ _
  have unique : ((rows.stepsOf process.id).map Step.id).Nodup :=
    (sorted.map Step.id).nodup_iff.mpr (keyed.nodup_owned process.id)
  constructor
  · exact unique.sublist (List.Sublist.map Step.id List.filter_sublist)
  · intro type _
    have sameGroup : (((rows.stepsOf process.id).filter Step.isPending).filter (ofType type)).Perm
        ((rows.owned process.id).filter (Step.isDue type)) := by
      rw [List.filter_filter]
      refine (sorted.filter _).trans (List.Perm.of_eq (List.filter_congr fun step _ => ?_))
      rw [ofType, Step.isDue, Bool.and_comm]
    rw [idsOf, Steps.due]
    congr 1
    refine oldestFirst_eq_of_perm ?_ sameGroup
    exact unique.sublist
      (List.Sublist.map Step.id (List.filter_sublist.trans List.filter_sublist))

theorem mem_otherTypes_iff (unlisted : type ≠ current) :
    type ∈ (ofRows rows process current).otherTypes ↔
      ∃ step ∈ rows.owned process.id, step.isDue type := by
  simp only [otherTypes, List.mem_eraseDups, List.mem_filter, List.mem_map, ofRows]
  constructor
  · intro listed
    obtain ⟨⟨step, ⟨member, isPending⟩, isType⟩, _⟩ := listed
    exact ⟨step, List.mem_mergeSort.mp member, Step.isDue_iff.mpr ⟨isPending, isType⟩⟩
  · intro due
    obtain ⟨step, member, isDue⟩ := due
    obtain ⟨isPending, isType⟩ := Step.isDue_iff.mp isDue
    exact ⟨⟨step, ⟨List.mem_mergeSort.mpr member, isPending⟩, isType⟩, by simpa using unlisted⟩

theorem nodup_skipped (context : ManualContext) (skip : List StepType) :
    (context.otherTypes.filter skip.contains ++ [context.current]).Nodup := by
  rw [List.nodup_append]
  refine ⟨(nodup_eraseDups _).filter _, by simp, ?_⟩
  intro type member current isCurrent same
  refine ne_current_of_mem_otherTypes (List.mem_filter.mp member).1 ?_
  exact same.trans (List.mem_singleton.mp isCurrent)

theorem current_skipTypes (context : ManualContext) (types : List StepType) :
    (context.skipTypes types).1.current = context.current := by
  induction types generalizing context with
  | nil => rfl
  | cons type types induction => exact induction _

theorem map_type_skipTypes (unique : (context.steps.map Step.id).Nodup) (types : List StepType) :
    (context.skipTypes types).1.steps.map Step.type = context.steps.map Step.type := by
  induction types generalizing context with
  | nil => rfl
  | cons type types induction =>
      have stillUnique : ((context.resolveType .skipped type).1.steps.map Step.id).Nodup := by
        rwa [map_steps_resolveType unique fun _ _ => rfl]
      exact (induction stillUnique).trans (map_steps_resolveType unique fun _ _ => rfl)

theorem unknownTypes_skipTypes (keyed : rows.Keyed) (types : List StepType) :
    ((ofRows rows process current).skipTypes types).1.unknownTypes schedule =
      Steps.lacking schedule (rows.owned process.id) := by
  have unique := (lists_ofRows keyed [] : (ofRows rows process current).Lists [] _).unique
  have sorted : (rows.stepsOf process.id).Perm (rows.owned process.id) := List.mergeSort_perm _ _
  have known : ∀ type, ((rows.stepsOf process.id ++
      ((ofRows rows process current).skipTypes types).1.steps).map Step.type).contains type =
        ((rows.owned process.id).map Step.type).contains type := by
    intro type
    rw [Bool.eq_iff_iff, List.contains_iff_mem, List.contains_iff_mem, List.map_append,
      map_type_skipTypes unique, List.mem_append, (sorted.map Step.type).mem_iff]
    refine or_iff_left_of_imp fun isPending => ?_
    obtain ⟨step, member, rfl⟩ := List.mem_map.mp isPending
    exact List.mem_map_of_mem (sorted.subset (List.mem_filter.mp member).1)
  rw [unknownTypes, process_skipTypes, Steps.lacking]
  simp only [← known]
  rfl

theorem releaseOrRaise_eq (process : Process) : ∃ lease,
    process.releaseOrRaise =
      ({ process with version := process.version + 1, lease := lease.apply process.lease },
        [.updateProcess process.id process.version ⟨process.version + 1, lease⟩]) := by
  by_cases leased : process.lease.isSome
  · exact ⟨.write none, by simp [Process.releaseOrRaise, Process.releaseLease_eq, leased]⟩
  · exact ⟨.keep, by simp [Process.releaseOrRaise, Process.releaseLease_eq, leased,
      Process.stageRaise, Process.raiseVersion, Process.versionChange]⟩

theorem undated_newSteps (types : List StepType) (ids : List Uuid) (clock : Readings) :
    (context.newSteps types ids clock).map Step.undated =
      Steps.scheduled context.process.id ((context.unknownTypes types).zip ids) :=
  Steps.map_undated_freshEach

theorem type_ne_of_scheduled {owner : Uuid} {added owned : List Step} {ids : List Uuid}
    (undated : added.map Step.undated =
      Steps.scheduled owner ((Steps.lacking schedule owned).zip ids))
    (occurs : type ∈ owned.map Step.type) : ∀ step ∈ added, step.type ≠ type := by
  intro step member isType
  have scheduled : step.undated ∈ Steps.scheduled owner _ := undated ▸ List.mem_map_of_mem member
  obtain ⟨entry, inEntries, same⟩ := List.mem_map.mp scheduled
  have entryType : entry.1 = type := (congrArg Step.type same).trans isType
  have lacks := Steps.mem_lacking_iff.mp (List.of_mem_zip inEntries).1
  exact lacks.2 (entryType ▸ occurs)

theorem idsOf_addSteps {added : List Step} (others : ∀ step ∈ added, step.type ≠ type) :
    (context.addSteps added).idsOf type = context.idsOf type := by
  have noneAdded : added.filter (ofType type) = [] := by
    rw [List.filter_eq_nil_iff]
    exact fun step member => by simpa [ofType] using others step member
  change (oldestFirst ((context.steps ++ added).filter (ofType type))).map Step.id = _
  rw [List.filter_append, noneAdded, List.append_nil]
  rfl

/-- To finalize is to finish the current type and to release the lease or raise the version. -/
theorem exists_perform_finalize (same : context.finish.1.process.toProcess = process)
    (clock : Readings) :
    ∃ last, context.perform clock [] .finalize =
      .ok (last, Change.ofUpdates clock context.finish.2 ++ process.releaseOrRaise.2) := by
  have performed : LeaseOp.releaseOrRaise.perform context.finish.1.process.toProcess =
      .ok process.releaseOrRaise := by
    rw [same]
    rfl
  have released := performLease_eq_ok_iff.mpr ⟨_, performed, rfl⟩
  rw [perform, released]
  exact ⟨_, rfl⟩

/-- What is staged by hand: the updates that skip other types, the new steps, and the
updates that finalize the step under the next version. -/
theorem exists_conclude (keyed : rows.Keyed)
    (occurs : current ∈ (rows.owned process.id).map Step.type) (clock : Readings)
    (ids : List Uuid) (skip schedule : List StepType) :
    ∃ (stamps : Stamps) (skipped : List (Uuid × StepUpdate)) (added : List Step)
        (later : Readings) (lease : Field (Option Timestamp)),
      let types := (ofRows rows process current).otherTypes.filter skip.contains
      let steps := Steps.skip stamps types (rows.owned process.id)
      (rows.owned process.id).map (Batch.stepAfter (Change.ofUpdates clock skipped)) = steps ∧
      (∀ entry ∈ skipped, entry.1 ∈ (rows.owned process.id).map Step.id) ∧
      added.map Step.undated = Steps.scheduled process.id
        ((Steps.lacking schedule (rows.owned process.id)).zip ids) ∧
      (ofRows rows process current).conclude clock ids skip schedule =
        .ok (Batch.conclusion process clock later skipped
          (Resolution.updates ((Steps.due current steps).map Step.id) .done none) added lease) := by
  let context := ofRows rows process current
  let types := context.otherTypes.filter skip.contains
  let first := context.skipTypes types
  let middle := clock.after (Change.ofUpdates clock first.2).length
  let added := first.1.newSteps schedule ids middle
  let second := first.1.addSteps added
  let later := middle.after (added.map Change.insertStep).length
  obtain ⟨stamps, remaining, updated, targets⟩ :=
    (lists_ofRows keyed (types ++ [current])).skipTypes (nodup_skipped context skip)
      (keyed.nodup_owned process.id) clock
  let steps := Steps.skip stamps types (rows.owned process.id)
  have undated : added.map Step.undated = Steps.scheduled process.id
      ((Steps.lacking schedule (rows.owned process.id)).zip ids) := by
    rw [← unknownTypes_skipTypes keyed types]
    exact (undated_newSteps schedule ids middle).trans
      (by rw [process_skipTypes]; rfl)
  have listed : second.idsOf current = (Steps.due current steps).map Step.id :=
    (idsOf_addSteps (type_ne_of_scheduled undated occurs)).trans
      (remaining.groups current (List.mem_singleton.mpr rfl))
  have finishes : second.finish.2 =
      Resolution.updates ((Steps.due current steps).map Step.id) .done none := by
    have isCurrent : second.current = current := current_skipTypes context types
    rw [finish, resolveType_snd, isCurrent, listed]
  obtain ⟨lease, raised⟩ := releaseOrRaise_eq process
  have sameProcess : second.finish.1.process.toProcess = process :=
    congrArg ProcessDetail.toProcess (process_skipTypes context types)
  obtain ⟨last, finalized⟩ := exists_perform_finalize sameProcess later
  refine ⟨stamps, first.2, added, later, lease, updated, targets, undated, ?_⟩
  have concluded : context.conclude clock ids skip schedule =
      .ok (Change.ofUpdates clock first.2 ++ added.map .insertStep ++
        (Change.ofUpdates later second.finish.2 ++ process.releaseOrRaise.2)) := by
    change (second.perform later [] .finalize >>= fun finished =>
      .ok (Change.ofUpdates clock first.2 ++ added.map .insertStep ++ finished.2)) = _
    rw [finalized]
    rfl
  rw [finishes, raised] at concluded
  exact concluded

end ManualContext

end Workflow
