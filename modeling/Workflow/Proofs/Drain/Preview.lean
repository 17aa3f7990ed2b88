import Workflow.Proofs.Drain.Agenda

/-!
# The agenda as a preview of the store

An agenda *previews* a process if committing what is staged would respect the steps
of the process and leave exactly what the agenda depicts.  It does so right after
loading, and every operation of a drain, together with what the operation stages,
keeps it so.  Where identifiers collide nothing is promised.
-/

namespace Workflow

namespace Batch

variable {step : Step} {updates : List (Uuid × StepUpdate)} {clock : Readings}

theorem stepAfter_ofUpdates_of_notMem
    (unnamed : ∀ entry ∈ updates, entry.1 ≠ step.id) :
    stepAfter (Change.ofUpdates clock updates) step = step :=
  stepAfter_of_notMem fun _ _ member => unnamed _ (mem_of_mem_ofUpdates member) rfl

theorem isPending_stepAfter_ofUpdates (pending : step.isPending)
    (kept : ∀ entry ∈ updates, entry.1 = step.id → entry.2.status = .write (some .todo)) :
    (stepAfter (Change.ofUpdates clock updates) step).isPending := by
  induction updates generalizing step clock with
  | nil => exact pending
  | cons entry updates induction =>
      rw [Change.ofUpdates_cons, stepAfter_cons]
      apply induction
      · by_cases concerned : step.id = entry.1
        · have status := kept entry List.mem_cons_self concerned.symm
          simp [Change.stepAfter, concerned, StepUpdate.apply, Step.isPending, status]
        · simpa [Change.stepAfter, concerned] using pending
      · intro other member same
        rw [Change.id_stepAfter] at same
        exact kept other (List.mem_cons_of_mem entry member) same

end Batch

namespace Agenda

variable {agenda next : Agenda} {id : Uuid} {owned steps : List Step} {staged batch : Batch}
  {type : StepType}

/-! ### Loading -/

theorem ids_addPending (step : PendingStep) (groups : List (StepType × List Uuid)) :
    ((addPending step groups).flatMap Prod.snd).Perm (groups.flatMap Prod.snd ++ [step.id]) := by
  induction groups with
  | nil => exact List.Perm.refl _
  | cons group groups induction =>
      rw [addPending]
      split
      · simp only [List.flatMap_cons, List.append_assoc]
        exact List.Perm.append_left group.2 List.perm_append_comm
      · simp only [List.flatMap_cons, List.append_assoc]
        exact List.Perm.append_left group.2 induction

theorem ids_load (executable : List StepType) (steps : List PendingStep)
    (types : List StepType) :
    (load executable steps types).ids.Perm (steps.map PendingStep.id) := by
  have grouped : ∀ groups : List (StepType × List Uuid),
      ((steps.foldl (fun groups step => addPending step groups) groups).flatMap Prod.snd).Perm
        (groups.flatMap Prod.snd ++ steps.map PendingStep.id) := by
    induction steps with
    | nil =>
        intro groups
        simp
    | cons step steps induction =>
        intro groups
        apply (induction (addPending step groups)).trans
        apply ((ids_addPending step groups).append_right _).trans
        simp
  exact grouped []

theorem depicts_load (executable : List StepType) {pending : List PendingStep}
    {types : List StepType}
    (listed : ∀ entry ∈ pending, ∃ step ∈ owned, step.isPending ∧ step.id = entry.id)
    (nodup : (pending.map PendingStep.id).Nodup)
    (known : ∀ step ∈ owned, step.type ∈ types) :
    (load executable pending types).Depicts owned where
  pending := by
    intro id member
    obtain ⟨entry, inPending, rfl⟩ :=
      List.mem_map.mp ((ids_load executable pending types).subset member)
    obtain ⟨step, inOwned, isPending, same⟩ := listed entry inPending
    exact ⟨step, inOwned, same, isPending⟩
  nodup := (ids_load executable pending types).nodup_iff.mpr nodup
  known := fun step member => List.mem_append_left _ (known step member)

/-! ### Previews -/

/-- Committing what is staged respects the steps of a process and leaves what the
agenda depicts, provided that no identifiers collide. -/
def Previews (agenda : Agenda) (id : Uuid) (owned : List Step) (staged : Batch) : Prop :=
  ((Batch.overlay staged owned).map Step.id).Nodup →
    Batch.Respects id owned staged ∧ agenda.Depicts (Batch.overlay staged owned)

theorem Depicts.previews (depicts : agenda.Depicts owned) :
    agenda.Previews id owned [] := by
  intro _
  refine ⟨Batch.respects_nil, ?_⟩
  rwa [Batch.overlay_nil]

/-- Only the steps on the agenda and the known types matter. -/
theorem Previews.congr (previews : agenda.Previews id owned staged)
    (pending : next.pending = agenda.pending) (known : next.known = agenda.known) :
    next.Previews id owned staged := by
  intro unique
  obtain ⟨respects, depicts⟩ := previews unique
  have sameIds : next.ids = agenda.ids := by rw [ids, ids, pending]
  refine ⟨respects, ?_, ?_, ?_⟩
  · rw [sameIds]
    exact depicts.pending
  · rw [sameIds]
    exact depicts.nodup
  · rw [known]
    exact depicts.known

theorem Previews.append_of_concernsProcess (previews : agenda.Previews id owned staged)
    (concerned : ∀ change ∈ batch, change.concernsProcess) :
    agenda.Previews id owned (staged ++ batch) := by
  rw [Previews, Batch.overlay_append_of_concernsProcess concerned]
  intro unique
  obtain ⟨respects, depicts⟩ := previews unique
  exact ⟨respects.append_of_concernsProcess concerned, depicts⟩

/-- A turn of the agenda keeps it true to the steps. -/
theorem Depicts.turn (depicts : agenda.Depicts steps)
    {updates : List (Uuid × StepUpdate)} (clock : Readings)
    (turns : agenda.Turns updates next) :
    next.Depicts (steps.map (Batch.stepAfter (Change.ofUpdates clock updates))) where
  pending := by
    intro id member
    obtain ⟨step, stepMember, rfl, pending⟩ :=
      depicts.pending id (turns.remaining.subset member)
    refine ⟨_, List.mem_map_of_mem stepMember, Batch.id_stepAfter, ?_⟩
    apply Batch.isPending_stepAfter_ofUpdates pending
    intro entry inUpdates same
    exact turns.pending entry inUpdates (same ▸ member)
  nodup := depicts.nodup.sublist turns.remaining
  known := by
    intro step member
    obtain ⟨origin, originMember, rfl⟩ := List.mem_map.mp member
    rw [Batch.type_stepAfter, turns.known]
    exact depicts.known origin originMember

/-- A turn of the agenda stages updates of pending steps only. -/
theorem Previews.turn (previews : agenda.Previews id owned staged)
    {updates : List (Uuid × StepUpdate)} (clock : Readings)
    (turns : agenda.ids.Nodup → agenda.Turns updates next) :
    next.Previews id owned (staged ++ Change.ofUpdates clock updates) := by
  have inserts := @Batch.insertedSteps_ofUpdates updates clock
  intro unique
  rw [Batch.map_id_overlay, Batch.insertedSteps_append, inserts, List.append_nil,
    ← Batch.map_id_overlay] at unique
  obtain ⟨respects, depicts⟩ := previews unique
  have turned := turns depicts.nodup
  refine ⟨respects.append_ofUpdates ?_ ?_, ?_⟩
  · intro entry inUpdates
    obtain ⟨step, stepMember, same, _⟩ :=
      depicts.pending entry.1 (turned.targets entry inUpdates)
    exact same ▸ List.mem_map_of_mem stepMember
  · intro step member terminal
    -- The steps on the agenda are pending, so no update concerns a terminal step.
    have spared : ∀ entry ∈ updates, entry.1 ≠ step.id := by
      intro entry inUpdates same
      obtain ⟨target, targetMember, targetId, pending⟩ :=
        depicts.pending entry.1 (turned.targets entry inUpdates)
      have equal : target = step :=
        List.inj_on_of_nodup_map unique targetMember member (targetId.trans same)
      exact Step.not_isTerminal_of_isPending pending (equal ▸ terminal)
    rw [Batch.stepAfter_ofUpdates_of_notMem spared]
  · rw [Batch.overlay_append inserts]
    exact depicts.turn clock turned

theorem Depicts.addStep (depicts : agenda.Depicts steps) {step : Step}
    (unknown : step.type ∉ agenda.known) (isNew : step.id ∉ steps.map Step.id)
    (pending : step.isPending) :
    (agenda.addStep step.type step.id).Depicts (steps ++ [step]) where
  pending target member := by
    rw [ids_addStep unknown] at member
    rcases List.mem_append.mp member with listed | isStep
    · obtain ⟨other, otherMember, same, otherPending⟩ := depicts.pending target listed
      exact ⟨other, List.mem_append_left _ otherMember, same, otherPending⟩
    · exact ⟨step, List.mem_append_right _ (List.mem_singleton.mpr rfl),
        (List.mem_singleton.mp isStep).symm, pending⟩
  nodup := by
    rw [ids_addStep unknown, List.nodup_append]
    refine ⟨depicts.nodup, by simp, ?_⟩
    intro first listed second isStep same
    obtain ⟨other, otherMember, otherId, _⟩ := depicts.pending first listed
    rw [List.mem_singleton.mp isStep] at same
    exact isNew (same ▸ otherId ▸ List.mem_map_of_mem otherMember)
  known other member := by
    rw [known_addStep unknown]
    rcases List.mem_append.mp member with known | isStep
    · exact List.mem_cons_of_mem step.type (depicts.known other known)
    · exact List.mem_singleton.mp isStep ▸ List.mem_cons_self

theorem Previews.addStep (previews : agenda.Previews id owned staged) {step : Step}
    (unknown : step.type ∉ agenda.known) (owner : step.process = id)
    (pending : step.isPending) :
    (agenda.addStep step.type step.id).Previews id owned (staged ++ [.insertStep step]) := by
  intro unique
  obtain ⟨stagedUnique, isNew⟩ := Batch.isNew_of_nodup_overlay unique
  obtain ⟨respects, depicts⟩ := previews stagedUnique
  rw [respects.overlay_of_isNew isNew]
  refine ⟨respects.insertStep owner ?_, depicts.addStep unknown isNew pending⟩
  intro member
  obtain ⟨other, otherMember, same⟩ := List.mem_map.mp member
  exact unknown (same ▸ depicts.known other otherMember)

end Agenda

end Workflow
