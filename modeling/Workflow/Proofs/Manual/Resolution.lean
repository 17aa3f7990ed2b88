import Workflow.Proofs.Drain.Agenda

/-!
# Resolving loaded steps

Resolving a group changes the loaded steps and yields updates for the stored ones.
Both give the same step the same status: the step that no other of the group
precedes gets the intended status, all others become duplicates.  Resolving the same
group once more therefore changes no status.
-/

namespace Workflow

namespace Step

variable {first second third : Step}

theorem isNotAfter_iff : first.isNotAfter second ↔
    first.created.instant < second.created.instant ∨
      first.created.instant = second.created.instant ∧ first.id.toNat ≤ second.id.toNat := by
  simp [isNotAfter]

theorem isNotAfter_trans (left : first.isNotAfter second) (right : second.isNotAfter third) :
    first.isNotAfter third := by
  rw [isNotAfter_iff] at *
  omega

theorem isNotAfter_total (first second : Step) :
    first.isNotAfter second ∨ second.isNotAfter first := by
  rw [isNotAfter_iff, isNotAfter_iff]
  omega

theorem id_eq_of_isNotAfter (left : first.isNotAfter second) (right : second.isNotAfter first) :
    first.id = second.id := by
  rw [isNotAfter_iff] at left right
  exact Uuid.eq_of_toNat_eq (by omega)

theorem pairwise_oldestFirst (steps : List Step) :
    (oldestFirst steps).Pairwise fun first second => first.isNotAfter second := by
  apply List.pairwise_mergeSort
  · intro _ _ _ left right
    exact isNotAfter_trans left right
  · intro left right
    simpa using isNotAfter_total left right

end Step

namespace Resolution

variable {chosen : Step → Bool} {status : StepStatus} {steps : List Step} {step : Step}

/-- Whether no chosen step precedes a step. -/
def leads (chosen : Step → Bool) (steps : List Step) (step : Step) : Bool :=
  steps.all fun other => !chosen other || step.isNotAfter other

/-- The status that resolving gives to a chosen step. -/
def assigned (chosen : Step → Bool) (status : StepStatus) (steps : List Step) (step : Step) :
    StepStatus :=
  if leads chosen steps step then status else .duplicate

theorem leads_iff : leads chosen steps step ↔
    ∀ other ∈ steps, chosen other → step.isNotAfter other := by
  simp only [leads, List.all_eq_true, Bool.or_eq_true, Bool.not_eq_true']
  constructor
  · intro all other member isChosen
    rcases all other member with unchosen | precedes
    · simp [isChosen] at unchosen
    · exact precedes
  · intro all other member
    cases isChosen : chosen other with
    | false => exact .inl rfl
    | true => exact .inr (all other member isChosen)

theorem mem_positions_iff {entry : Step × Nat} :
    entry ∈ positions chosen steps ↔
      steps[entry.2]? = some entry.1 ∧ chosen entry.1 := by
  rw [positions, List.mem_mergeSort, List.mem_filter, List.mem_zipIdx_iff_getElem?]

theorem pairwise_positions :
    (positions chosen steps).Pairwise fun left right => left.1.isNotAfter right.1 := by
  rw [positions]
  apply List.pairwise_mergeSort
  · intro _ _ _ left right
    exact Step.isNotAfter_trans left right
  · intro left right
    simpa using Step.isNotAfter_total left.1 right.1

theorem nodup_positions : ((positions chosen steps).map Prod.snd).Nodup := by
  rw [positions, ((List.mergeSort_perm _ _).map Prod.snd).nodup_iff]
  have all : (steps.zipIdx.map Prod.snd).Nodup := by
    rw [List.zipIdx_map_snd]
    exact List.nodup_range'
  exact all.sublist (List.Sublist.map Prod.snd List.filter_sublist)

theorem leads_iff_eq_zero (unique : (steps.map Step.id).Nodup) {index position : Nat}
    (found : (positions chosen steps)[index]? = some (step, position)) :
    leads chosen steps step ↔ index = 0 := by
  have ordered := @pairwise_positions chosen steps
  cases group : positions chosen steps with
  | nil => simp [group] at found
  | cons first rest =>
      rw [group] at found ordered
      obtain ⟨firstBefore, _⟩ := List.pairwise_cons.mp ordered
      have isChosen : ∀ entry ∈ first :: rest, steps[entry.2]? = some entry.1 ∧ chosen entry.1 :=
        fun entry member => mem_positions_iff.mp (group ▸ member)
      constructor
      · intro leading
        cases index with
        | zero => rfl
        | succ index =>
            have inRest : (step, position) ∈ rest :=
              List.mem_of_getElem? (List.getElem?_cons_succ ▸ found)
            obtain ⟨firstAt, firstChosen⟩ := isChosen first List.mem_cons_self
            have after := leads_iff.mp leading first.1 (List.mem_of_getElem? firstAt) firstChosen
            have sameId := Step.id_eq_of_isNotAfter after (firstBefore _ inRest)
            obtain ⟨stepAt, _⟩ := isChosen _ (List.mem_cons_of_mem first inRest)
            have samePlace : first.2 = position := by
              have inRange : first.2 < (steps.map Step.id).length := by
                simpa using (List.getElem?_eq_some_iff.mp firstAt).1
              apply (List.getElem?_inj inRange unique).mp
              rw [List.getElem?_map, List.getElem?_map, firstAt, stepAt]
              exact congrArg some sameId.symm
            have places := @nodup_positions chosen steps
            rw [group, List.map_cons, List.nodup_cons] at places
            exact absurd (samePlace ▸ List.mem_map_of_mem inRest) places.1
      · intro same
        subst same
        have isFirst : first = (step, position) := by simpa using found
        subst isFirst
        rw [leads_iff]
        intro other member otherChosen
        obtain ⟨place, placed⟩ := List.mem_iff_getElem?.mp member
        have inGroup : (other, place) ∈ (step, position) :: rest :=
          group ▸ mem_positions_iff.mpr ⟨placed, otherChosen⟩
        rcases List.mem_cons.mp inGroup with same | inRest
        · cases same
          exact (Step.isNotAfter_total step step).elim id id
        · exact firstBefore _ inRest

theorem exists_leads (unique : (steps.map Step.id).Nodup) (member : step ∈ steps)
    (isChosen : chosen step) :
    ∃ first ∈ steps, chosen first ∧ leads chosen steps first := by
  obtain ⟨place, placed⟩ := List.mem_iff_getElem?.mp member
  have inGroup : (step, place) ∈ positions chosen steps := mem_positions_iff.mpr ⟨placed, isChosen⟩
  cases group : positions chosen steps with
  | nil => simp [group] at inGroup
  | cons first rest =>
      have isFirst : (positions chosen steps)[0]? = some (first.1, first.2) := by rw [group]; rfl
      obtain ⟨firstPlaced, firstChosen⟩ :=
        mem_positions_iff.mp (List.mem_of_getElem? isFirst)
      exact ⟨first.1, List.mem_of_getElem? firstPlaced, firstChosen,
        (leads_iff_eq_zero unique isFirst).mpr rfl⟩

theorem head?_positions {index position : Nat}
    (found : (positions chosen steps)[index]? = some (step, position)) :
    (positions chosen steps).head?.map Prod.snd = some position ↔ index = 0 := by
  have there : ((positions chosen steps).map Prod.snd)[index]? = some position := by
    rw [List.getElem?_map, found]
    rfl
  have inRange : index < ((positions chosen steps).map Prod.snd).length :=
    (List.getElem?_eq_some_iff.mp there).1
  rw [← List.getElem?_inj inRange nodup_positions, there, List.getElem?_map,
    List.head?_eq_getElem?, eq_comm]

theorem resolve_fst (unique : (steps.map Step.id).Nodup) :
    (resolve chosen status none steps).1 = steps.map fun step =>
      if chosen step then { step with status := some (assigned chosen status steps step) }
      else step := by
  have paired : ∀ change : Step → Step,
      steps.map change = steps.zipIdx.map (change ∘ Prod.fst) := by
    intro change
    rw [← List.map_map, List.zipIdx_map_fst]
  rw [paired, resolve]
  apply List.map_congr_left
  intro pair member
  obtain ⟨step, position⟩ := pair
  by_cases isChosen : chosen step
  · have inGroup : (step, position) ∈ positions chosen steps :=
      mem_positions_iff.mpr ⟨List.mem_zipIdx_iff_getElem?.mp member, isChosen⟩
    obtain ⟨index, found⟩ := List.mem_iff_getElem?.mp inGroup
    have earliest : (positions chosen steps).head?.map Prod.snd = some position ↔
        leads chosen steps step :=
      (head?_positions found).trans (leads_iff_eq_zero unique found).symm
    simp [isChosen, earliest, assigned]
  · simp [isChosen]

/-- Resolving updates every step of the group to the status assigned to it. -/
theorem mem_resolve_snd (unique : (steps.map Step.id).Nodup) {entry : Uuid × StepUpdate} :
    entry ∈ (resolve chosen status none steps).2 ↔
      ∃ step ∈ steps, chosen step ∧
        entry = (step.id, .resolve (assigned chosen status steps step) none) := by
  have atIndex : ∀ {index position : Nat} {step : Step},
      (positions chosen steps)[index]? = some (step, position) →
      statusAt status index = assigned chosen status steps step := by
    intro index position step found
    simp only [statusAt, assigned, ← leads_iff_eq_zero unique found]
  rw [resolve, mem_updates_iff]
  constructor
  · intro isUpdated
    obtain ⟨index, found, resolved⟩ := isUpdated
    rw [List.getElem?_map, Option.map_eq_some_iff] at found
    obtain ⟨⟨step, position⟩, found, same⟩ := found
    obtain ⟨placed, isChosen⟩ := mem_positions_iff.mp (List.mem_of_getElem? found)
    refine ⟨step, List.mem_of_getElem? placed, isChosen, Prod.ext same.symm ?_⟩
    rw [resolved, atIndex found]
  · intro isChosen
    obtain ⟨step, member, isChosen, rfl⟩ := isChosen
    obtain ⟨position, placed⟩ := List.mem_iff_getElem?.mp member
    obtain ⟨index, found⟩ := List.mem_iff_getElem?.mp
      (mem_positions_iff.mpr ⟨placed, isChosen⟩ : (step, position) ∈ positions chosen steps)
    refine ⟨index, ?_, by rw [atIndex found]⟩
    rw [List.getElem?_map, found]
    rfl

end Resolution

end Workflow
