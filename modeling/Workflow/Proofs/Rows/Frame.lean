import Workflow.Proofs.Rows.Owned

/-!
# Batches for one process

Of all process rows a batch for one process changes only the row of this process.  It
leaves the others as they are, and whether it is committed depends on little: its updates
must find the versions they expect, and each step that it names must be there by then.
-/

namespace Workflow

/-- Of all processes, a batch changes only the row of one. -/
def Batch.ChangesOnly (id : Uuid) (batch : Batch) : Prop :=
  ∀ change ∈ batch, change.concernsProcess →
    ∃ expected update, change = .updateProcess id expected update

namespace Change

/-- The step that the change names is there, if it names one. -/
def Finds (ids : List Uuid) : Change → Prop
  | updateStep step _ _ | deleteStep step => step ∈ ids
  | _ => True

/-- The identifiers of all steps after a change. -/
def idsAfter (ids : List Uuid) : Change → List Uuid
  | insertStep step => if step.id ∈ ids then ids else ids ++ [step.id]
  | deleteStep step => ids.filter (· != step)
  | _ => ids

end Change

namespace Batch

variable {id : Uuid} {ids : List Uuid} {batch first second : Batch} {change : Change}

theorem changesOnly_nil : ChangesOnly id [] := by
  simp [ChangesOnly]

theorem ChangesOnly.append (firstOnly : ChangesOnly id first)
    (secondOnly : ChangesOnly id second) : ChangesOnly id (first ++ second) := by
  intro change member
  rcases List.mem_append.mp member with inFirst | inSecond
  · exact firstOnly change inFirst
  · exact secondOnly change inSecond

theorem changesOnly_of_sparing (spares : ∀ change ∈ batch, change.concernsProcess = false) :
    ChangesOnly id batch := by
  intro change member concerned
  simp [spares change member] at concerned

theorem ChangesOnly.insertedProcesses_eq (only : ChangesOnly id batch) :
    insertedProcesses batch = [] := by
  apply List.eq_nil_iff_forall_not_mem.mpr
  intro process member
  obtain ⟨_, _, isUpdate⟩ := only _ (mem_insertedProcesses_iff.mp member) rfl
  cases isUpdate

/-- Each step that the batch names is there by then. -/
def Finds : List Uuid → Batch → Prop
  | _, [] => True
  | ids, change :: batch => change.Finds ids ∧ Finds (change.idsAfter ids) batch

/-- Whatever a batch names is there by then if it has always been there. -/
theorem finds_of_targets {ids : List Uuid} (keeps : ∀ step, .deleteStep step ∉ batch)
    (targets : ∀ change ∈ batch, change.Finds ids) : Finds ids batch := by
  induction batch generalizing ids with
  | nil => trivial
  | cons change batch induction =>
      refine ⟨targets change List.mem_cons_self, induction ?_ ?_⟩
      · exact fun step member => keeps step (List.mem_cons_of_mem change member)
      · intro other member
        have grows : ∀ id ∈ ids, id ∈ change.idsAfter ids := by
          intro id present
          cases change with
          | insertStep step =>
              rw [Change.idsAfter]
              split
              · exact present
              · exact List.mem_append_left _ present
          | deleteStep step => exact absurd List.mem_cons_self (keeps step)
          | insertProcess _ | updateProcess _ _ _ | updateStep _ _ _ => exact present
        have found := targets other (List.mem_cons_of_mem change member)
        cases other with
        | updateStep step _ _ | deleteStep step => exact grows step found
        | insertProcess _ | updateProcess _ _ _ | insertStep _ => trivial

theorem mem_idsAfter (keeps : ∀ step, change ≠ .deleteStep step)
    (member : id ∈ ids ++ (insertedSteps (change :: batch)).map Step.id) :
    id ∈ change.idsAfter ids ++ (insertedSteps batch).map Step.id := by
  cases change with
  | insertStep step =>
      rw [Change.idsAfter]
      rcases List.mem_append.mp member with before | isInserted
      · apply List.mem_append_left
        split
        · exact before
        · exact List.mem_append_left _ before
      · rcases List.mem_cons.mp isInserted with rfl | later
        · apply List.mem_append_left
          split
          · assumption
          · exact List.mem_append_right _ (List.mem_singleton.mpr rfl)
        · exact List.mem_append_right _ later
  | deleteStep step => exact absurd rfl (keeps step)
  | insertProcess _ | updateProcess _ _ _ | updateStep _ _ _ => exact member

/-- What a batch names is there by then if it was there before, or if the batch before has
inserted it. -/
theorem finds_append (found : Finds ids first) (keeps : ∀ step, .deleteStep step ∉ first ++ second)
    (targets : ∀ change ∈ second, change.Finds (ids ++ (insertedSteps first).map Step.id)) :
    Finds ids (first ++ second) := by
  induction first generalizing ids with
  | nil =>
      refine finds_of_targets keeps fun change member => ?_
      simpa using targets change member
  | cons change first induction =>
      obtain ⟨changeFinds, restFinds⟩ := found
      have keepsFirst : ∀ step, change ≠ .deleteStep step := by
        rintro step rfl
        exact keeps step List.mem_cons_self
      refine ⟨changeFinds, induction restFinds ?_ ?_⟩
      · exact fun step member => keeps step (List.mem_cons_of_mem change member)
      · intro other member
        have target := targets other member
        cases other with
        | updateStep _ _ _ | deleteStep _ => exact mem_idsAfter keepsFirst target
        | insertProcess _ | updateProcess _ _ _ | insertStep _ => trivial

end Batch

namespace Rows

variable {rows after : Rows} {batch : Batch} {change : Change} {process : Process}
  {id other : Uuid}

theorem process?_commit_of_changesOnly (only : Batch.ChangesOnly id batch) (different : other ≠ id)
    (committed : rows.commit batch = .ok after) :
    after.process? other = rows.process? other := by
  induction batch generalizing rows with
  | nil =>
      cases committed
      rfl
  | cons change batch induction =>
      obtain ⟨middle, applied, rest⟩ := commit_cons_eq_ok.mp committed
      have restOnly : Batch.ChangesOnly id batch := fun change member =>
        only change (List.mem_cons_of_mem _ member)
      rw [induction restOnly rest]
      cases change with
      | insertProcess process =>
          obtain ⟨_, _, isUpdate⟩ := only _ List.mem_cons_self rfl
          cases isUpdate
      | updateProcess target expected update =>
          obtain ⟨_, _, isUpdate⟩ := only _ List.mem_cons_self rfl
          cases isUpdate
          obtain ⟨stored, found, _, rfl⟩ := apply_updateProcess_eq_ok.mp applied
          have storedId : stored.id = id := id_of_process? found
          have updatedId : (update.apply stored).id = id := storedId
          change findRow? Process.id other (putRow Process.id (update.apply stored) _) = _
          rw [findRow?_putRow, updatedId, if_neg (Ne.symm different)]
          rfl
      | insertStep step =>
          cases applied
          rfl
      | updateStep target update changed =>
          obtain ⟨_, _, rfl⟩ := apply_updateStep_eq_ok.mp applied
          rfl
      | deleteStep target =>
          obtain ⟨_, rfl⟩ := apply_deleteStep_eq_ok.mp applied
          rfl

theorem map_id_apply (keyed : rows.Keyed) (applied : rows.apply change = .ok after) :
    after.steps.map Step.id = change.idsAfter (rows.steps.map Step.id) := by
  cases change with
  | insertProcess _ | updateProcess _ _ _ =>
      rw [steps_apply_of_concernsProcess rfl applied]
      rfl
  | insertStep step =>
      rw [Change.idsAfter]
      by_cases present : step.id ∈ rows.steps.map Step.id
      · rw [if_pos present]
        cases applied
        exact map_key_putRow_of_mem keyed.steps present
      · rw [if_neg present, steps_apply_insertStep present applied, List.map_append]
        rfl
  | updateStep target update changed =>
      obtain ⟨_, sameSteps⟩ := steps_apply_updateStep keyed.steps applied
      rw [sameSteps, List.map_map]
      exact List.map_congr_left fun step _ => Change.id_stepAfter _ step
  | deleteStep target =>
      obtain ⟨_, rfl⟩ := apply_deleteStep_eq_ok.mp applied
      rw [Change.idsAfter, List.filter_map]
      rfl

theorem exists_apply_iff (only : Batch.ChangesOnly id [change])
    (found : rows.process? id = some process) :
    (∃ after, rows.apply change = .ok after) ↔
      (change.processAfter? process).isSome ∧ change.Finds (rows.steps.map Step.id) := by
  have processId := id_of_process? found
  have isStored : ∀ {target}, target ∈ rows.steps.map Step.id ↔ (rows.step? target).isSome :=
    findRow?_isSome_iff.symm
  cases change with
  | insertProcess inserted =>
      obtain ⟨_, _, isUpdate⟩ := only _ List.mem_cons_self rfl
      cases isUpdate
  | insertStep step => exact ⟨fun _ => ⟨rfl, trivial⟩, fun _ => ⟨_, rfl⟩⟩
  | updateProcess target expected update =>
      obtain ⟨_, _, isUpdate⟩ := only _ List.mem_cons_self rfl
      cases isUpdate
      simp only [apply_updateProcess_eq_ok, found, Change.processAfter?, processId, Change.Finds]
      by_cases expects : process.version = expected <;> simp [expects]
  | updateStep target update changed =>
      simp only [apply_updateStep_eq_ok, Change.processAfter?, Change.Finds, isStored,
        Option.isSome_iff_exists]
      simp
  | deleteStep target =>
      simp only [apply_deleteStep_eq_ok, Change.processAfter?, Change.Finds, isStored]
      simp

/-- **What a commit depends on.**  A batch for one process is committed exactly if its
updates of this process find the versions that they expect and all steps that it names are
there by then. -/
theorem exists_commit_iff (keyed : rows.Keyed) (only : Batch.ChangesOnly id batch)
    (found : rows.process? id = some process) :
    (∃ after, rows.commit batch = .ok after) ↔
      (Batch.processAfter? batch process).isSome ∧
        Batch.Finds (rows.steps.map Step.id) batch := by
  induction batch generalizing rows process with
  | nil => exact ⟨fun _ => ⟨rfl, trivial⟩, fun _ => ⟨rows, rfl⟩⟩
  | cons change batch induction =>
      have firstOnly : Batch.ChangesOnly id [change] := fun other member =>
        only other (List.mem_cons.mpr (.inl (List.mem_singleton.mp member)))
      have restOnly : Batch.ChangesOnly id batch := fun other member =>
        only other (List.mem_cons_of_mem _ member)
      have applies := exists_apply_iff firstOnly found
      simp only [commit_cons_eq_ok, Batch.processAfter?_cons, Batch.Finds]
      constructor
      · intro committed
        obtain ⟨after, middle, applied, rest⟩ := committed
        obtain ⟨next, followed, nextFound⟩ := process?_apply applied found
        obtain ⟨follows, finds⟩ :=
          (induction (keyed_apply keyed applied) restOnly nextFound).mp ⟨after, rest⟩
        rw [map_id_apply keyed applied] at finds
        exact ⟨by simpa [followed] using follows, (applies.mp ⟨middle, applied⟩).2, finds⟩
      · intro accepted
        obtain ⟨follows, isThere, finds⟩ := accepted
        obtain ⟨final, followed⟩ := Option.isSome_iff_exists.mp follows
        obtain ⟨next, followed, restFollowed⟩ := Option.bind_eq_some_iff.mp followed
        obtain ⟨middle, applied⟩ := applies.mpr ⟨by simp [followed], isThere⟩
        obtain ⟨_, sameFollowed, nextFound⟩ := process?_apply applied found
        obtain rfl := Option.some.inj (followed.symm.trans sameFollowed)
        rw [← map_id_apply keyed applied] at finds
        obtain ⟨after, rest⟩ :=
          (induction (keyed_apply keyed applied) restOnly nextFound).mpr
            ⟨by simp [restFollowed], finds⟩
        exact ⟨after, middle, applied, rest⟩

theorem spares_of_targets (keyed : rows.Keyed)
    (targets : ∀ change ∈ batch, change.Finds ((rows.owned id).map Step.id))
    (inserted : ∀ step ∈ Batch.insertedSteps batch, step.process = id) (different : other ≠ id) :
    Batch.Spares other (rows.owned other) batch := by
  have elsewhere : ∀ step ∈ (rows.owned id).map Step.id,
      step ∉ (rows.owned other).map Step.id := by
    intro step here there
    obtain ⟨first, firstMember, rfl⟩ := List.mem_map.mp here
    obtain ⟨second, secondMember, same⟩ := List.mem_map.mp there
    obtain ⟨firstStored, firstOwner⟩ := mem_owned_iff.mp firstMember
    obtain ⟨secondStored, secondOwner⟩ := mem_owned_iff.mp secondMember
    obtain rfl := keyed.eq_of_id_eq secondStored firstStored same
    exact different (secondOwner.symm.trans firstOwner)
  intro change member
  have target := targets change member
  cases change with
  | insertProcess _ | updateProcess _ _ _ => trivial
  | insertStep step =>
      have owner := inserted step (Batch.mem_insertedSteps_iff.mpr member)
      exact fun same => different (same.symm.trans owner)
  | updateStep step _ _ | deleteStep step => exact elsewhere step target

/-- A batch that names only stored steps of its process is committed if it expects the
versions that it finds. -/
theorem exists_commit_of_targets {final : Process} (keyed : rows.Keyed)
    (only : Batch.ChangesOnly id batch) (fresh : Batch.IsFresh rows batch)
    (found : rows.process? id = some process)
    (follows : Batch.processAfter? batch process = some final)
    (keeps : ∀ step, .deleteStep step ∉ batch)
    (targets : ∀ change ∈ batch, change.Finds ((rows.owned id).map Step.id))
    (inserted : ∀ step ∈ Batch.insertedSteps batch, step.process = id) :
    ∃ after, rows.commit batch = .ok after ∧ after.process? id = some final ∧
      after.owned id = Batch.ownedAfter id batch (rows.owned id) ∧
        ∀ other, other ≠ id → after.owned other = rows.owned other := by
  have stored : ∀ change ∈ batch, change.Finds (rows.steps.map Step.id) := by
    intro change member
    have target := targets change member
    cases change with
    | updateStep step _ _ | deleteStep step =>
        exact (List.Sublist.map Step.id List.filter_sublist).subset target
    | insertProcess _ | updateProcess _ _ _ | insertStep _ => trivial
  obtain ⟨after, committed⟩ := (exists_commit_iff keyed only found).mpr
    ⟨by simp [follows], Batch.finds_of_targets keeps stored⟩
  obtain ⟨last, followed, lastFound⟩ := process?_commit committed found
  obtain rfl := Option.some.inj (follows.symm.trans followed)
  refine ⟨after, committed, lastFound, owned_commit_eq keyed fresh committed, ?_⟩
  intro other different
  rw [owned_commit_eq keyed fresh committed,
    Batch.ownedAfter_of_spares (spares_of_targets keyed targets inserted different)]

end Rows

end Workflow
