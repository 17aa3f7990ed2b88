import Workflow.Proofs.Rows.Commit

/-!
# Batches that respect the steps of a process

A batch *respects* the steps of a process if it leaves terminal outcomes alone and
inserts no type twice.  Whether it does is decided by the steps of this process
only, so it can be known before the batch is committed.  The overlay of a batch
shows these steps as they would be afterwards.
-/

namespace Workflow

def Step.isTerminal (step : Step) : Bool :=
  match step.status with
  | some status => status.isTerminal
  | none => false

theorem Step.not_isTerminal_of_isPending {step : Step} (pending : step.isPending) :
    ¬step.isTerminal := by
  simp only [Step.isPending, beq_iff_eq] at pending
  simp [Step.isTerminal, pending, StepStatus.isTerminal]

namespace Batch

/-- The identifiers of all inserted rows are new to the store. -/
structure IsFresh (rows : Rows) (batch : Batch) : Prop where
  steps : ∀ step ∈ insertedSteps batch, step.id ∉ rows.steps.map Step.id
  steps_nodup : ((insertedSteps batch).map Step.id).Nodup
  processes : ∀ process ∈ insertedProcesses batch,
    process.id ∉ rows.processes.map Process.id
  processes_nodup : ((insertedProcesses batch).map Process.id).Nodup
  unowned : ∀ process ∈ insertedProcesses batch, rows.owned process.id = []

/-- Every update of a process raises the version. -/
def Raises (batch : Batch) : Prop :=
  ∀ id expected update, .updateProcess id expected update ∈ batch →
    expected < update.version

/-- The batch contains an update of a process. -/
def Updates (process : Uuid) (batch : Batch) : Prop :=
  ∃ expected update, .updateProcess process expected update ∈ batch

/-- The steps of a process as they would be after a batch without deletions. -/
def overlay (batch : Batch) (owned : List Step) : List Step :=
  (owned ++ insertedSteps batch).map (stepAfter batch)

/-- What a batch must not do to the steps of a process, given these steps. -/
structure Respects (process : Uuid) (owned : List Step) (batch : Batch) : Prop where
  keeps_steps : ∀ id, .deleteStep id ∉ batch
  targets : ∀ id update changed, .updateStep id update changed ∈ batch →
    id ∈ (overlay batch owned).map Step.id
  keeps_outcomes : ∀ step ∈ owned, step.isTerminal →
    (stepAfter batch step).status = step.status
  inserted_owned : ∀ step ∈ insertedSteps batch, step.process = process
  inserted_types : ∀ step ∈ insertedSteps batch, step.type ∉ owned.map Step.type
  inserted_types_nodup : ((insertedSteps batch).map Step.type).Nodup

variable {rows : Rows} {batch further : Batch} {change : Change} {id : Uuid}
  {process after : Process} {owned : List Step}

@[simp] theorem overlay_nil : overlay [] owned = owned := by
  simp [overlay]

@[simp] theorem map_id_overlay :
    (overlay batch owned).map Step.id = (owned ++ insertedSteps batch).map Step.id := by
  rw [overlay, List.map_map]
  exact List.map_congr_left fun step _ => id_stepAfter

@[simp] theorem map_type_overlay :
    (overlay batch owned).map Step.type = (owned ++ insertedSteps batch).map Step.type := by
  rw [overlay, List.map_map]
  exact List.map_congr_left fun step _ => type_stepAfter

theorem overlay_append (inserts : insertedSteps further = []) :
    overlay (batch ++ further) owned = (overlay batch owned).map (stepAfter further) := by
  rw [overlay, overlay, insertedSteps_append, inserts, List.append_nil, List.map_map]
  exact List.map_congr_left fun step _ => stepAfter_append

theorem overlay_append_of_concernsProcess
    (concerned : ∀ change ∈ further, change.concernsProcess) :
    overlay (batch ++ further) owned = overlay batch owned := by
  rw [overlay_append (insertedSteps_of_concernsProcess concerned)]
  exact List.map_id'' (fun step => stepAfter_of_concernsProcess concerned) _

theorem overlay_insertStep {step : Step} :
    overlay (batch ++ [.insertStep step]) owned =
      overlay batch owned ++ [stepAfter batch step] := by
  have sameEffect : stepAfter (batch ++ [.insertStep step]) = stepAfter batch := by
    funext other
    exact stepAfter_append
  have inserted : insertedSteps (batch ++ [.insertStep step]) = insertedSteps batch ++ [step] :=
    insertedSteps_append
  rw [overlay, overlay, sameEffect, inserted, ← List.append_assoc, List.map_append]
  rfl

/-- If identifiers do not collide after a step has been inserted, they did not before. -/
theorem isNew_of_nodup_overlay {step : Step}
    (unique : ((overlay (batch ++ [.insertStep step]) owned).map Step.id).Nodup) :
    ((overlay batch owned).map Step.id).Nodup ∧ step.id ∉ (overlay batch owned).map Step.id := by
  rw [overlay_insertStep, List.map_append, List.nodup_append] at unique
  obtain ⟨before, _, different⟩ := unique
  exact ⟨before, fun member => different step.id member step.id (by simp) rfl⟩

theorem Respects.overlay_of_isNew {step : Step} (respects : Respects id owned batch)
    (isNew : step.id ∉ (overlay batch owned).map Step.id) :
    overlay (batch ++ [.insertStep step]) owned = overlay batch owned ++ [step] := by
  rw [overlay_insertStep, stepAfter_of_notMem fun update changed member =>
    isNew (respects.targets step.id update changed member)]

theorem insertedSteps_ofUpdates {updates : List (Uuid × StepUpdate)} {clock : Readings} :
    insertedSteps (Change.ofUpdates clock updates) = [] := by
  induction updates generalizing clock with
  | nil => rfl
  | cons entry updates induction => exact induction

theorem mem_of_mem_ofUpdates {updates : List (Uuid × StepUpdate)} {clock : Readings}
    {update : StepUpdate} {changed : Timestamp}
    (member : .updateStep id update changed ∈ Change.ofUpdates clock updates) :
    (id, update) ∈ updates := by
  obtain ⟨entry, inUpdates, now, same⟩ := Change.mem_ofUpdates member
  obtain ⟨rfl, rfl, _⟩ := Change.updateStep.inj same
  exact inUpdates

theorem Raises.of_cons (raises : Raises (change :: batch)) : Raises batch :=
  fun id expected update member =>
    raises id expected update (List.mem_cons_of_mem change member)

theorem Raises.append {first second : Batch} (firstRaises : Raises first)
    (secondRaises : Raises second) : Raises (first ++ second) := by
  intro id expected update member
  rcases List.mem_append.mp member with inFirst | inSecond
  · exact firstRaises id expected update inFirst
  · exact secondRaises id expected update inSecond

theorem isFresh_of_insertless (steps : insertedSteps batch = [])
    (processes : insertedProcesses batch = []) : IsFresh rows batch := by
  constructor <;> simp [steps, processes]

theorem IsFresh.steps_unique (keyed : rows.Keyed) (fresh : IsFresh rows batch) :
    ((rows.steps ++ insertedSteps batch).map Step.id).Nodup := by
  rw [List.map_append, List.nodup_append]
  refine ⟨keyed.steps, fresh.steps_nodup, ?_⟩
  intro first inRows second inserted same
  obtain ⟨step, member, rfl⟩ := List.mem_map.mp inserted
  exact fresh.steps step member (same ▸ inRows)

theorem IsFresh.overlay_unique (keyed : rows.Keyed) (fresh : IsFresh rows batch) :
    ((overlay batch (rows.owned id)).map Step.id).Nodup := by
  rw [map_id_overlay]
  refine (fresh.steps_unique keyed).sublist (List.Sublist.map Step.id ?_)
  exact List.Sublist.append_right List.filter_sublist _

theorem eq_or_version_lt_of_processAfter?
    (raises : ∀ {id expected update}, change = .updateProcess id expected update →
      expected < update.version)
    (kept : ∀ {inserted}, change = .insertProcess inserted → inserted.id ≠ process.id)
    (changed : change.processAfter? process = some after) :
    after = process ∨ process.version < after.version := by
  cases change with
  | insertProcess inserted =>
      simp only [Change.processAfter?, if_neg (kept rfl), Option.some.injEq] at changed
      exact .inl changed.symm
  | updateProcess id expected update =>
      simp only [Change.processAfter?] at changed
      split at changed
      · split at changed
        · rename_i expects
          cases changed
          right
          rw [expects]
          exact raises rfl
        · cases changed
      · cases changed
        exact .inl rfl
  | insertStep _ | updateStep _ _ _ | deleteStep _ =>
      cases changed
      exact .inl rfl

/-- The versions that a process goes through only grow, and a process whose
version has not changed has not changed at all. -/
theorem version_le_of_processAfter? (raises : Raises batch)
    (kept : ∀ inserted ∈ insertedProcesses batch, inserted.id ≠ process.id)
    (followed : processAfter? batch process = some after) :
    process.version ≤ after.version ∧
      (after.version = process.version → after = process) := by
  induction batch generalizing process with
  | nil =>
      cases followed
      exact ⟨Int.le_refl _, fun _ => rfl⟩
  | cons change batch induction =>
      rw [processAfter?_cons, Option.bind_eq_some_iff] at followed
      obtain ⟨middle, changed, rest⟩ := followed
      have middleId := Change.id_of_processAfter? changed
      have restKept : ∀ inserted ∈ insertedProcesses batch, inserted.id ≠ middle.id := by
        intro inserted member
        rw [middleId]
        exact kept inserted (mem_insertedProcesses_iff.mpr
          (List.mem_cons_of_mem change (mem_insertedProcesses_iff.mp member)))
      obtain ⟨restLe, restSame⟩ := induction raises.of_cons restKept rest
      have step : middle = process ∨ process.version < middle.version := by
        apply eq_or_version_lt_of_processAfter? _ _ changed
        · intro id expected update isFirst
          exact raises id expected update (isFirst ▸ List.mem_cons_self)
        · intro inserted isFirst
          exact kept inserted
            (mem_insertedProcesses_iff.mpr (isFirst ▸ List.mem_cons_self))
      rcases step with same | raised
      · subst same
        exact ⟨restLe, restSame⟩
      · exact ⟨by omega, fun same => by omega⟩

/-- An update of the process expects a version no older than the stored one, and
what it writes is no newer than what is stored in the end. -/
theorem expected_of_processAfter? (raises : Raises batch)
    (kept : ∀ inserted ∈ insertedProcesses batch, inserted.id ≠ process.id)
    (followed : processAfter? batch process = some after)
    {expected : Int} {update : ProcessUpdate}
    (member : .updateProcess process.id expected update ∈ batch) :
    process.version ≤ expected ∧ update.version ≤ after.version := by
  obtain ⟨first, second, rfl⟩ := List.append_of_mem member
  have firstRaises : Raises first := fun id expected update member =>
    raises id expected update (by simp [member])
  have secondRaises : Raises second := fun id expected update member =>
    raises id expected update (by simp [member])
  rw [processAfter?_append, Option.bind_eq_some_iff] at followed
  obtain ⟨middle, firstFollowed, rest⟩ := followed
  rw [processAfter?_cons, Option.bind_eq_some_iff] at rest
  obtain ⟨next, changed, secondFollowed⟩ := rest
  have middleId := id_of_processAfter? firstFollowed
  simp only [Change.processAfter?, middleId, if_true] at changed
  split at changed
  · rename_i expects
    cases changed
    have firstKept : ∀ inserted ∈ insertedProcesses first, inserted.id ≠ process.id := by
      intro inserted insertedMember
      exact kept inserted (mem_insertedProcesses_iff.mpr
        (by simp [mem_insertedProcesses_iff.mp insertedMember]))
    have secondKept : ∀ inserted ∈ insertedProcesses second,
        inserted.id ≠ (update.apply middle).id := by
      intro inserted insertedMember
      change inserted.id ≠ middle.id
      rw [middleId]
      exact kept inserted (mem_insertedProcesses_iff.mpr
        (by simp [mem_insertedProcesses_iff.mp insertedMember]))
    have before := (version_le_of_processAfter? firstRaises firstKept firstFollowed).1
    have afterwards :=
      (version_le_of_processAfter? secondRaises secondKept secondFollowed).1
    exact ⟨expects ▸ before, afterwards⟩
  · cases changed

theorem version_lt_of_processAfter? (raises : Raises batch)
    (kept : ∀ inserted ∈ insertedProcesses batch, inserted.id ≠ process.id)
    (followed : processAfter? batch process = some after) (updates : Updates process.id batch) :
    process.version < after.version := by
  obtain ⟨expected, update, member⟩ := updates
  obtain ⟨notNewer, notOlder⟩ := expected_of_processAfter? raises kept followed member
  exact Int.lt_of_le_of_lt notNewer (Int.lt_of_lt_of_le (raises _ _ _ member) notOlder)

/-- Two states of a process that both have the version the first update expects
have the same version. -/
theorem version_eq_of_processAfter? {first second : Process}
    (same : first.id = second.id)
    (updates : Updates first.id batch) (inserts : insertedProcesses batch = [])
    (firstFollowed : (processAfter? batch first).isSome)
    (secondFollowed : (processAfter? batch second).isSome) :
    first.version = second.version := by
  induction batch with
  | nil =>
      obtain ⟨_, _, member⟩ := updates
      cases member
  | cons change batch induction =>
      rw [processAfter?_cons] at firstFollowed secondFollowed
      by_cases concerned : ∃ expected update, change = .updateProcess first.id expected update
      · obtain ⟨expected, update, rfl⟩ := concerned
        have firstExpected : first.version = expected := by
          by_contra different
          simp [Change.processAfter?, different] at firstFollowed
        have secondExpected : second.version = expected := by
          by_contra different
          simp [Change.processAfter?, same, different] at secondFollowed
        exact firstExpected.trans secondExpected.symm
      · have unaffected : ∀ process : Process, process.id = first.id →
            change.processAfter? process = some process := by
          intro process keyed
          cases change with
          | insertProcess inserted => simp [insertedProcesses] at inserts
          | updateProcess id expected update =>
              have different : id ≠ process.id := by
                intro same
                subst same
                exact concerned ⟨expected, update, by rw [keyed]⟩
              simp [Change.processAfter?, different]
          | insertStep _ | updateStep _ _ _ | deleteStep _ => rfl
        rw [unaffected first rfl] at firstFollowed
        rw [unaffected second same.symm] at secondFollowed
        refine induction ?_ ?_ firstFollowed secondFollowed
        · obtain ⟨expected, update, member⟩ := updates
          rcases List.mem_cons.mp member with isFirst | inRest
          · exact absurd ⟨expected, update, isFirst.symm⟩ concerned
          · exact ⟨expected, update, inRest⟩
        · apply List.eq_nil_iff_forall_not_mem.mpr
          intro process member
          have inBatch := List.mem_cons_of_mem change (mem_insertedProcesses_iff.mp member)
          exact List.not_mem_nil (inserts ▸ mem_insertedProcesses_iff.mpr inBatch)

theorem respects_nil : Respects id owned [] where
  keeps_steps := by simp
  targets := by simp
  keeps_outcomes := by simp
  inserted_owned := by simp
  inserted_types := by simp
  inserted_types_nodup := by simp

/-- Further changes without insertions and deletions respect the steps if they keep
the outcomes that the overlay shows. -/
theorem Respects.append (respects : Respects id owned batch)
    (inserts : insertedSteps further = []) (keeps : ∀ step, .deleteStep step ∉ further)
    (targets : ∀ step update changed, .updateStep step update changed ∈ further →
      step ∈ (overlay batch owned).map Step.id)
    (outcomes : ∀ step ∈ overlay batch owned, step.isTerminal →
      (stepAfter further step).status = step.status) :
    Respects id owned (batch ++ further) where
  keeps_steps := by
    intro step member
    rcases List.mem_append.mp member with inBatch | inFurther
    · exact respects.keeps_steps step inBatch
    · exact keeps step inFurther
  targets := by
    intro step update changed member
    rw [map_id_overlay, insertedSteps_append, inserts, List.append_nil, ← map_id_overlay]
    rcases List.mem_append.mp member with inBatch | inFurther
    · exact respects.targets step update changed inBatch
    · exact targets step update changed inFurther
  keeps_outcomes := by
    intro step member terminal
    have kept := respects.keeps_outcomes step member terminal
    have shown : stepAfter batch step ∈ overlay batch owned :=
      List.mem_map_of_mem (List.mem_append_left _ member)
    have stillTerminal : (stepAfter batch step).isTerminal := by
      simpa [Step.isTerminal, kept] using terminal
    rw [stepAfter_append, outcomes _ shown stillTerminal, kept]
  inserted_owned := by simpa [inserts] using respects.inserted_owned
  inserted_types := by simpa [inserts] using respects.inserted_types
  inserted_types_nodup := by simpa [inserts] using respects.inserted_types_nodup

theorem Respects.append_of_concernsProcess (respects : Respects id owned batch)
    (concerned : ∀ change ∈ further, change.concernsProcess) :
    Respects id owned (batch ++ further) := by
  apply respects.append (insertedSteps_of_concernsProcess concerned)
  · intro step member
    simpa [Change.concernsProcess] using concerned _ member
  · intro step update changed member
    simpa [Change.concernsProcess] using concerned _ member
  · intro step _ _
    rw [stepAfter_of_concernsProcess concerned]

theorem Respects.of_concernsProcess (concerned : ∀ change ∈ batch, change.concernsProcess) :
    Respects id owned batch :=
  respects_nil.append_of_concernsProcess concerned

theorem Respects.append_ofUpdates (respects : Respects id owned batch)
    {updates : List (Uuid × StepUpdate)} {clock : Readings}
    (targets : ∀ entry ∈ updates, entry.1 ∈ (overlay batch owned).map Step.id)
    (outcomes : ∀ step ∈ overlay batch owned, step.isTerminal →
      (stepAfter (Change.ofUpdates clock updates) step).status = step.status) :
    Respects id owned (batch ++ Change.ofUpdates clock updates) := by
  apply respects.append insertedSteps_ofUpdates
  · intro step member
    obtain ⟨_, _, _, same⟩ := Change.mem_ofUpdates member
    cases same
  · intro step update changed member
    exact targets _ (mem_of_mem_ofUpdates member)
  · exact outcomes

/-- A new step of a type that the overlay does not show respects the steps. -/
theorem Respects.insertStep (respects : Respects id owned batch) {step : Step}
    (owner : step.process = id) (isNew : step.type ∉ (overlay batch owned).map Step.type) :
    Respects id owned (batch ++ [.insertStep step]) := by
  rw [map_type_overlay, List.map_append, List.mem_append, not_or] at isNew
  have inserted : insertedSteps (batch ++ [.insertStep step]) = insertedSteps batch ++ [step] :=
    insertedSteps_append
  refine ⟨?_, ?_, ?_, ?_, ?_, ?_⟩
  · intro target member
    simpa using respects.keeps_steps target (by simpa using member)
  · intro target update changed member
    rw [overlay_insertStep, List.map_append]
    exact List.mem_append_left _ (respects.targets target update changed (by simpa using member))
  · intro other member terminal
    rw [stepAfter_append]
    exact respects.keeps_outcomes other member terminal
  · rw [inserted]
    intro other member
    rcases List.mem_append.mp member with inBatch | isStep
    · exact respects.inserted_owned other inBatch
    · exact List.mem_singleton.mp isStep ▸ owner
  · rw [inserted]
    intro other member
    rcases List.mem_append.mp member with inBatch | isStep
    · exact respects.inserted_types other inBatch
    · exact List.mem_singleton.mp isStep ▸ isNew.1
  · rw [inserted, List.map_append, List.nodup_append]
    refine ⟨respects.inserted_types_nodup, by simp, ?_⟩
    intro first firstMember second secondMember same
    simp only [List.map_cons, List.map_nil, List.mem_singleton] at secondMember
    exact isNew.2 (secondMember ▸ same ▸ firstMember)

end Batch

end Workflow
