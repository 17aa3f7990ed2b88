import Workflow.Manual
import Workflow.Proofs.Drain.Preview
import Workflow.Proofs.Manual.Resolution

/-!
# Manual contexts as previews of the store

A manual context *reflects* the steps of its process if every loaded step has the
status of the stored one, and each group of loaded steps is either untouched or
resolved as a group.  As long as what is staged matches the stored steps, every
operation keeps it so, and resolving a group for the second time changes nothing.
-/

namespace Workflow

namespace Batch

variable {step : Step} {updates : List (Uuid × StepUpdate)} {clock : Readings}

theorem status_stepAfter_ofUpdates {status : Option StepStatus}
    (named : ∃ entry ∈ updates, entry.1 = step.id)
    (agree : ∀ entry ∈ updates, entry.1 = step.id → entry.2.status = .write status) :
    (stepAfter (Change.ofUpdates clock updates) step).status = status := by
  induction updates generalizing step clock with
  | nil =>
      obtain ⟨_, member, _⟩ := named
      cases member
  | cons entry updates induction =>
      rw [Change.ofUpdates_cons, stepAfter_cons]
      by_cases later : ∃ other ∈ updates, other.1 = step.id
      · apply induction
        · rwa [Change.id_stepAfter]
        · intro other member same
          rw [Change.id_stepAfter] at same
          exact agree other (List.mem_cons_of_mem entry member) same
      · obtain ⟨other, member, same⟩ := named
        rcases List.mem_cons.mp member with rfl | inRest
        · rw [stepAfter_ofUpdates_of_notMem]
          · simp [Change.stepAfter, same, StepUpdate.apply, agree other member same]
          · intro next nextMember nextSame
            rw [Change.id_stepAfter] at nextSame
            exact later ⟨next, nextMember, nextSame⟩
        · exact absurd ⟨other, inRest, same⟩ later

end Batch

namespace Resolution

variable {chosen : Step → Bool} {status : StepStatus} {steps : List Step} {step : Step}

theorem assigned_map {change : Step → Step}
    (sameId : ∀ step, (change step).id = step.id)
    (sameAge : ∀ step, (change step).created = step.created)
    (sameGroup : ∀ step, chosen (change step) = chosen step) :
    assigned chosen status (steps.map change) (change step) =
      assigned chosen status steps step := by
  have sameLead : leads chosen (steps.map change) (change step) = leads chosen steps step := by
    simp [leads, List.all_map, Function.comp_def, Step.isNotAfter, sameId, sameAge, sameGroup]
  rw [assigned, assigned, sameLead]

theorem assigned_append {others : List Step}
    (unchosen : ∀ other ∈ others, chosen other = false) :
    assigned chosen status (steps ++ others) step = assigned chosen status steps step := by
  have sameLead : leads chosen (steps ++ others) step = leads chosen steps step := by
    rw [leads, List.all_append, ← leads, Bool.and_eq_left_iff_imp]
    intro _
    rw [List.all_eq_true]
    intro other member
    simp [unchosen other member]
  rw [assigned, assigned, sameLead]

end Resolution

namespace ManualContext

open Resolution

variable {context : ManualContext} {steps owned : List Step} {staged : Batch}
  {type : StepType} {clock : Readings}

def ofType (type : StepType) (step : Step) : Bool :=
  step.type == type

/-- What the steps of a type are resolved to: only the current ones get done. -/
def verdict (context : ManualContext) (type : StepType) : StepStatus :=
  if type = context.current then .done else .skipped

/-- The loaded steps are among the stored ones and have their statuses, each group of
them is pending or resolved, and the types of all stored steps are known. -/
structure Reflects (context : ManualContext) (steps : List Step) : Prop where
  unique : (context.steps.map Step.id).Nodup
  loaded : ∀ step ∈ context.steps, ∃ stored ∈ steps,
    stored.id = step.id ∧ stored.status = step.status
  groups : ∀ type,
    (∀ step ∈ context.steps, step.type = type → step.isPending) ∨
      ∀ step ∈ context.steps, step.type = type →
        step.status = some (assigned (ofType type) (context.verdict type) context.steps step)
  known : ∀ stored ∈ steps,
    stored.type ∈ (context.process.steps ++ context.steps).map Step.type

/-- The step after the group of a type has been resolved. -/
def settled (context : ManualContext) (type : StepType) (step : Step) : Step :=
  if ofType type step then
    { step with
      status := some (assigned (ofType type) (context.verdict type) context.steps step) }
  else step

theorem resolveType_fst (unique : (context.steps.map Step.id).Nodup) :
    (context.resolveType (context.verdict type) type).1 =
      { context with steps := context.steps.map (context.settled type) } := by
  have resolved : (resolve (ofType type) (context.verdict type) none context.steps).1 =
      context.steps.map (context.settled type) := resolve_fst unique
  exact congrArg (fun steps => { context with steps }) resolved

theorem mem_resolveType_snd (unique : (context.steps.map Step.id).Nodup)
    {entry : Uuid × StepUpdate} :
    entry ∈ (context.resolveType (context.verdict type) type).2 ↔
      ∃ step ∈ context.steps, step.type = type ∧
        entry = (step.id,
          .resolve (assigned (ofType type) (context.verdict type) context.steps step) none) := by
  change entry ∈ (resolve (ofType type) (context.verdict type) none context.steps).2 ↔ _
  rw [mem_resolve_snd unique]
  simp [ofType]

@[simp] theorem id_settled (step : Step) : (context.settled type step).id = step.id := by
  rw [settled]
  split <;> rfl

@[simp] theorem type_settled (step : Step) : (context.settled type step).type = step.type := by
  rw [settled]
  split <;> rfl

@[simp] theorem created_settled (step : Step) :
    (context.settled type step).created = step.created := by
  rw [settled]
  split <;> rfl

theorem status_stepAfter_resolveType (unique : (context.steps.map Step.id).Nodup)
    {step stored : Step} (member : step ∈ context.steps) (sameId : stored.id = step.id)
    (sameStatus : stored.status = step.status) :
    (Batch.stepAfter (Change.ofUpdates clock
      (context.resolveType (context.verdict type) type).2) stored).status =
      (context.settled type step).status := by
  have only : ∀ entry ∈ (context.resolveType (context.verdict type) type).2,
      entry.1 = stored.id → step.type = type ∧ entry = (step.id,
        .resolve (assigned (ofType type) (context.verdict type) context.steps step) none) := by
    intro entry inUpdates same
    obtain ⟨other, otherMember, otherType, rfl⟩ := (mem_resolveType_snd unique).mp inUpdates
    obtain rfl : other = step :=
      List.inj_on_of_nodup_map unique otherMember member (same.trans sameId)
    exact ⟨otherType, rfl⟩
  by_cases grouped : step.type = type
  · have isChosen : ofType type step := by simpa [ofType] using grouped
    rw [settled, if_pos isChosen]
    apply Batch.status_stepAfter_ofUpdates
    · exact ⟨_, (mem_resolveType_snd unique).mpr ⟨step, member, grouped, rfl⟩, sameId.symm⟩
    · intro entry inUpdates same
      rw [(only entry inUpdates same).2]
      rfl
  · have unchosen : ¬ofType type step := by simpa [ofType] using grouped
    rw [settled, if_neg unchosen, Batch.stepAfter_ofUpdates_of_notMem, sameStatus]
    intro entry inUpdates same
    exact grouped (only entry inUpdates same).1

theorem settled_of_ne {step : Step} (different : step.type ≠ type) :
    context.settled type step = step :=
  if_neg (by simpa [ofType] using different)

theorem status_settled {step : Step} (grouped : step.type = type) :
    (context.settled type step).status =
      some (assigned (ofType type) (context.verdict type) context.steps step) := by
  rw [settled, if_pos (by simpa [ofType] using grouped)]

/-- The statuses assigned to a group are the same after a group has been resolved. -/
theorem assigned_settled {other : StepType} {status : StepStatus} (step : Step) :
    assigned (ofType other) status (context.steps.map (context.settled type))
      (context.settled type step) = assigned (ofType other) status context.steps step :=
  assigned_map (by simp) (by simp) (by simp [ofType])

/-- Resolving a group reflects the stored steps after its updates. -/
theorem Reflects.resolveType (reflects : context.Reflects steps) (type : StepType)
    (clock : Readings) :
    (context.resolveType (context.verdict type) type).1.Reflects
      (steps.map (Batch.stepAfter
        (Change.ofUpdates clock (context.resolveType (context.verdict type) type).2))) := by
  rw [resolveType_fst reflects.unique]
  constructor
  · simpa [Function.comp_def] using reflects.unique
  · intro step member
    obtain ⟨origin, originMember, rfl⟩ := List.mem_map.mp member
    obtain ⟨stored, storedMember, sameId, sameStatus⟩ := reflects.loaded origin originMember
    refine ⟨_, List.mem_map_of_mem storedMember, ?_, ?_⟩
    · rw [Batch.id_stepAfter, id_settled, sameId]
    · exact status_stepAfter_resolveType reflects.unique originMember sameId sameStatus
  · intro other
    by_cases same : other = type
    · subst same
      right
      intro step member grouped
      obtain ⟨origin, originMember, rfl⟩ := List.mem_map.mp member
      rw [type_settled] at grouped
      rw [assigned_settled, status_settled grouped]
      rfl
    · rcases reflects.groups other with pending | resolved
      · left
        intro step member grouped
        obtain ⟨origin, originMember, rfl⟩ := List.mem_map.mp member
        rw [type_settled] at grouped
        rw [settled_of_ne (grouped ▸ same)]
        exact pending origin originMember grouped
      · right
        intro step member grouped
        obtain ⟨origin, originMember, rfl⟩ := List.mem_map.mp member
        rw [type_settled] at grouped
        rw [assigned_settled, settled_of_ne (grouped ▸ same)]
        exact resolved origin originMember grouped
  · intro stored member
    obtain ⟨origin, originMember, rfl⟩ := List.mem_map.mp member
    simpa [Function.comp_def] using reflects.known origin originMember

theorem Reflects.targets (reflects : context.Reflects steps) {entry : Uuid × StepUpdate}
    (member : entry ∈ (context.resolveType (context.verdict type) type).2) :
    entry.1 ∈ steps.map Step.id := by
  obtain ⟨step, stepMember, _, rfl⟩ := (mem_resolveType_snd reflects.unique).mp member
  obtain ⟨stored, storedMember, sameId, _⟩ := reflects.loaded step stepMember
  exact sameId ▸ List.mem_map_of_mem storedMember

/-- The updates of a group keep terminal outcomes: a pending group has none, and a
resolved group gets the same statuses again. -/
theorem Reflects.outcomes (reflects : context.Reflects steps)
    (storedUnique : (steps.map Step.id).Nodup) {stored : Step} (member : stored ∈ steps)
    (terminal : stored.isTerminal) :
    (Batch.stepAfter (Change.ofUpdates clock
      (context.resolveType (context.verdict type) type).2) stored).status = stored.status := by
  by_cases named : ∃ step ∈ context.steps, step.type = type ∧ step.id = stored.id
  · obtain ⟨step, stepMember, grouped, sameId⟩ := named
    obtain ⟨partner, partnerMember, partnerId, sameStatus⟩ := reflects.loaded step stepMember
    obtain rfl : partner = stored :=
      List.inj_on_of_nodup_map storedUnique partnerMember member (partnerId.trans sameId)
    rw [status_stepAfter_resolveType reflects.unique stepMember partnerId sameStatus,
      status_settled grouped, sameStatus]
    rcases reflects.groups type with pending | resolved
    · have isPending : partner.isPending := by
        simpa [Step.isPending, sameStatus] using pending step stepMember grouped
      exact absurd terminal (Step.not_isTerminal_of_isPending isPending)
    · exact (resolved step stepMember grouped).symm
  · rw [Batch.stepAfter_ofUpdates_of_notMem]
    intro entry inUpdates same
    obtain ⟨step, stepMember, grouped, rfl⟩ :=
      (mem_resolveType_snd reflects.unique).mp inUpdates
    exact named ⟨step, stepMember, grouped, same⟩

theorem Reflects.addStep (reflects : context.Reflects steps) {step : Step}
    (unknown : step.type ∉ (context.process.steps ++ context.steps).map Step.type)
    (isNew : step.id ∉ steps.map Step.id) (pending : step.isPending) :
    (context.addSteps [step]).Reflects (steps ++ [step]) := by
  have isNewHere : step.id ∉ context.steps.map Step.id := by
    intro member
    obtain ⟨other, otherMember, same⟩ := List.mem_map.mp member
    obtain ⟨stored, storedMember, sameId, _⟩ := reflects.loaded other otherMember
    exact isNew (same ▸ sameId ▸ List.mem_map_of_mem storedMember)
  have unknownHere : ∀ other ∈ context.steps, other.type ≠ step.type := by
    intro other member same
    exact unknown (same ▸ List.mem_map_of_mem (List.mem_append_right _ member))
  constructor
  · rw [addSteps, List.map_append, List.nodup_append]
    refine ⟨reflects.unique, by simp, ?_⟩
    intro first member second isStep same
    simp only [List.map_cons, List.map_nil, List.mem_singleton] at isStep
    exact isNewHere (isStep ▸ same ▸ member)
  · intro other member
    rcases List.mem_append.mp member with before | isStep
    · obtain ⟨stored, storedMember, same⟩ := reflects.loaded other before
      exact ⟨stored, List.mem_append_left _ storedMember, same⟩
    · rw [List.mem_singleton.mp isStep]
      exact ⟨step, List.mem_append_right _ (List.mem_singleton.mpr rfl), rfl, rfl⟩
  · intro type
    by_cases same : type = step.type
    · subst same
      left
      intro other member grouped
      rcases List.mem_append.mp member with before | isStep
      · exact absurd grouped (unknownHere other before)
      · exact List.mem_singleton.mp isStep ▸ pending
    · rcases reflects.groups type with allPending | resolved
      · left
        intro other member grouped
        rcases List.mem_append.mp member with before | isStep
        · exact allPending other before grouped
        · exact List.mem_singleton.mp isStep ▸ pending
      · right
        intro other member grouped
        rcases List.mem_append.mp member with before | isStep
        · rw [resolved other before grouped, addSteps, assigned_append]
          · rfl
          · intro added isAdded
            simpa [List.mem_singleton.mp isAdded, ofType] using Ne.symm same
        · exact absurd (List.mem_singleton.mp isStep ▸ grouped).symm same
  · intro stored member
    rw [addSteps, ← List.append_assoc, List.map_append]
    rcases List.mem_append.mp member with before | isStep
    · exact List.mem_append_left _ (reflects.known stored before)
    · exact List.mem_append_right _ (List.mem_map_of_mem isStep)

end ManualContext

end Workflow
