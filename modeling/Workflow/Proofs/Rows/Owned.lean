import Workflow.Proofs.Rows.Respect

/-!
# What a batch makes of the steps of a process

A batch changes the steps of one process in the order in which its changes were
staged.  How it does so can be read off these steps alone, before the batch is
committed: inserted identifiers are new, so a change reaches a step of the process
only under the identifier of that step.  A change *spares* the process if it does not
reach any of its steps.
-/

namespace Workflow

namespace Change

/-- The steps of a process after a change. -/
def ownedAfter (process : Uuid) (change : Change) (owned : List Step) : List Step :=
  match change with
  | insertStep step => if step.process = process then owned ++ [step] else owned
  | updateStep _ _ _ => owned.map change.stepAfter
  | deleteStep step => dropRow Step.id step owned
  | insertProcess _ | updateProcess _ _ _ => owned

/-- The change concerns no step of a process, given its steps. -/
def Spares (process : Uuid) (owned : List Step) : Change → Prop
  | insertStep step => step.process ≠ process
  | updateStep step _ _ | deleteStep step => step ∉ owned.map Step.id
  | insertProcess _ | updateProcess _ _ _ => True

variable {change : Change} {process : Uuid} {owned : List Step}

theorem spares_of_concernsProcess (concerned : change.concernsProcess) :
    change.Spares process owned := by
  cases change with
  | insertProcess _ | updateProcess _ _ _ => trivial
  | insertStep _ | updateStep _ _ _ | deleteStep _ => cases concerned

theorem ownedAfter_of_spares (spares : change.Spares process owned) :
    change.ownedAfter process owned = owned := by
  cases change with
  | insertProcess _ | updateProcess _ _ _ => rfl
  | insertStep step => exact if_neg spares
  | updateStep target update changed =>
      rw [ownedAfter, List.map_congr_left (g := fun step => step), List.map_id']
      intro step member
      have different : step.id ≠ target := by
        intro same
        exact spares (same ▸ List.mem_map_of_mem member)
      simp [stepAfter, different]
  | deleteStep target =>
      apply List.filter_eq_self.mpr
      intro step member
      have different : step.id ≠ target := by
        intro same
        exact spares (same ▸ List.mem_map_of_mem member)
      simpa using different

end Change

namespace Batch

variable {batch first second : Batch} {process : Uuid} {owned : List Step}

/-- The steps of a process after all changes of a batch. -/
def ownedAfter (process : Uuid) (batch : Batch) (owned : List Step) : List Step :=
  batch.foldl (fun owned change => change.ownedAfter process owned) owned

@[simp] theorem ownedAfter_nil : ownedAfter process [] owned = owned := rfl

@[simp] theorem ownedAfter_cons {change : Change} :
    ownedAfter process (change :: batch) owned =
      ownedAfter process batch (change.ownedAfter process owned) := rfl

@[simp] theorem ownedAfter_append :
    ownedAfter process (first ++ second) owned =
      ownedAfter process second (ownedAfter process first owned) :=
  List.foldl_append

/-- No change of the batch concerns a step of a process. -/
def Spares (process : Uuid) (owned : List Step) (batch : Batch) : Prop :=
  ∀ change ∈ batch, change.Spares process owned

theorem spares_nil : Spares process owned [] := by
  simp [Spares]

theorem ownedAfter_of_spares (spares : Spares process owned batch) :
    ownedAfter process batch owned = owned := by
  induction batch with
  | nil => rfl
  | cons change batch induction =>
      rw [ownedAfter_cons, Change.ownedAfter_of_spares (spares change List.mem_cons_self)]
      exact induction fun other member => spares other (List.mem_cons_of_mem change member)

theorem ownedAfter_ofUpdates {updates : List (Uuid × StepUpdate)} {clock : Readings} :
    ownedAfter process (Change.ofUpdates clock updates) owned =
      owned.map (stepAfter (Change.ofUpdates clock updates)) := by
  induction updates generalizing owned clock with
  | nil => simp
  | cons entry updates induction =>
      rw [Change.ofUpdates_cons, ownedAfter_cons]
      apply induction.trans
      simp only [Change.ownedAfter, List.map_map]
      rfl

theorem ownedAfter_insertStep {step : Step} (owner : step.process = process) :
    ownedAfter process [.insertStep step] owned = owned ++ [step] :=
  if_pos owner

end Batch

namespace Rows

variable {rows after : Rows} {change : Change} {batch : Batch} {id : Uuid}

theorem mem_ids_of_apply (keyed : rows.Keyed) (applied : rows.apply change = .ok after)
    (member : id ∈ after.steps.map Step.id) :
    id ∈ rows.steps.map Step.id ∨ ∃ step, change = .insertStep step ∧ step.id = id := by
  cases change with
  | insertProcess _ | updateProcess _ _ _ =>
      exact .inl (steps_apply_of_concernsProcess rfl applied ▸ member)
  | insertStep step =>
      cases applied
      by_cases present : step.id ∈ rows.steps.map Step.id
      · exact .inl (map_key_putRow_of_mem keyed.steps present ▸ member)
      · change id ∈ (putRow Step.id step rows.steps).map Step.id at member
        rw [putRow_of_notMem present, List.map_append, List.mem_append] at member
        rcases member with before | isStep
        · exact .inl before
        · exact .inr ⟨step, rfl, (List.mem_singleton.mp isStep).symm⟩
  | updateStep target update changed =>
      obtain ⟨_, sameSteps⟩ := steps_apply_updateStep keyed.steps applied
      rw [sameSteps, List.map_map] at member
      left
      simpa [Function.comp_def] using member
  | deleteStep target =>
      obtain ⟨_, rfl⟩ := apply_deleteStep_eq_ok.mp applied
      exact .inl ((List.Sublist.map Step.id List.filter_sublist).subset member)

theorem owned_apply (keyed : rows.Keyed)
    (isNew : ∀ step, change = .insertStep step → step.id ∉ rows.steps.map Step.id)
    (applied : rows.apply change = .ok after) :
    after.owned id = change.ownedAfter id (rows.owned id) := by
  cases change with
  | insertProcess _ | updateProcess _ _ _ =>
      rw [owned, steps_apply_of_concernsProcess rfl applied]
      rfl
  | insertStep step =>
      rw [owned, steps_apply_insertStep (isNew step rfl) applied, List.filter_append]
      by_cases owner : step.process = id <;> simp [Change.ownedAfter, owned, owner]
  | updateStep target update changed =>
      obtain ⟨_, sameSteps⟩ := steps_apply_updateStep keyed.steps applied
      have sameOwner : (fun step : Step => step.process == id) ∘
          (Change.updateStep target update changed).stepAfter =
            fun step => step.process == id := by
        funext step
        simp
      rw [owned, sameSteps, List.filter_map, sameOwner]
      rfl
  | deleteStep target =>
      obtain ⟨_, rfl⟩ := apply_deleteStep_eq_ok.mp applied
      simp only [owned, dropRow, Change.ownedAfter, List.filter_filter, Bool.and_comm]

/-- The steps of a process after a commit are what the batch makes of them. -/
theorem owned_commit_eq (keyed : rows.Keyed) (fresh : Batch.IsFresh rows batch)
    (committed : rows.commit batch = .ok after) :
    after.owned id = Batch.ownedAfter id batch (rows.owned id) := by
  have isNew := fresh.steps
  have distinct := fresh.steps_nodup
  clear fresh
  induction batch generalizing rows with
  | nil =>
      cases committed
      rfl
  | cons change batch induction =>
      obtain ⟨middle, applied, rest⟩ := commit_cons_eq_ok.mp committed
      have changeNew : ∀ step, change = .insertStep step → step.id ∉ rows.steps.map Step.id := by
        intro step isInsert
        exact isNew step (Batch.mem_insertedSteps_iff.mpr (isInsert ▸ List.mem_cons_self))
      rw [Batch.ownedAfter_cons, ← owned_apply keyed changeNew applied]
      refine induction (keyed_apply keyed applied) rest ?_ ?_
      · intro step member present
        have later : step ∈ Batch.insertedSteps (change :: batch) :=
          Batch.mem_insertedSteps_iff.mpr
            (List.mem_cons_of_mem change (Batch.mem_insertedSteps_iff.mp member))
        rcases mem_ids_of_apply keyed applied present with before | ⟨first, rfl, same⟩
        · exact isNew step later before
        · have unique : ((first :: Batch.insertedSteps batch).map Step.id).Nodup := distinct
          rw [List.map_cons, List.nodup_cons] at unique
          exact unique.1 (same ▸ List.mem_map_of_mem member)
      · have sublist : (Batch.insertedSteps batch).Sublist
            (Batch.insertedSteps (change :: batch)) :=
          List.Sublist.filterMap _ (List.sublist_cons_self change batch)
        exact distinct.sublist (sublist.map Step.id)

end Rows

end Workflow
