import Mathlib.Data.List.Forall2
import Workflow.Proofs.Drain.Outcome
import Workflow.Proofs.Manual.Resolution
import Workflow.Proofs.Rows.Keyed

/-!
# What becomes of each step

A result tells the status of its own type, skips further types and schedules others.
These lists can name a type twice, name types that have no pending step, or name the
type that has been run.  Here it is told row by row what comes of all this: each row of
the process is concerned by at most one part of the result, and most rows by none.

Of the type that has been run the oldest pending step takes the status, and it is still
pending if this is what the result says, unless the result skips its own type.
-/

namespace Workflow

namespace Step

/-- The step once it has been given a status and, if there is one, a message. -/
def given (now : Timestamp) (status : StepStatus) (message : Option String) (step : Step) : Step :=
  { step with
    status := some status
    message := message.or step.message
    changed := some now }

variable {now : Timestamp} {type : StepType} {status : StepStatus} {message : Option String}
  {oldest : Option Step} {step : Step}

theorem apply_resolve :
    (StepUpdate.resolve status message).apply now step = step.given now status message := by
  cases message <;> rfl

theorem resolve_eq_given (isDue : step.isDue type) :
    step.resolve now type status message oldest =
      step.given now (if oldest = some step then status else .duplicate) message := by
  rw [resolve, if_pos isDue, apply_resolve]

theorem isDue_of_isPending (pending : step.isPending) : step.isDue step.type :=
  isDue_iff.mpr ⟨pending, rfl⟩

end Step

namespace Steps

variable {stamps : Stamps} {type other : StepType} {types : List StepType} {status : StepStatus}
  {message : Option String} {steps before after : List Step} {step : Step}

/-- The step is the oldest of the pending ones of a type: by creation, then by identifier. -/
structure IsOldest (type : StepType) (steps : List Step) (step : Step) : Prop where
  member : step ∈ steps
  isDue : step.isDue type
  first : ∀ other ∈ steps, other.isDue type → step.isNotAfter other

theorem pairwise_due : (due type steps).Pairwise fun first second => first.isNotAfter second := by
  rw [due]
  exact Step.pairwise_oldestFirst _

theorem isOldest_of_due_eq_cons {rest : List Step} (listed : due type steps = step :: rest) :
    IsOldest type steps step := by
  obtain ⟨member, isDue⟩ := mem_due_iff.mp (listed ▸ List.mem_cons_self : step ∈ due type steps)
  refine ⟨member, isDue, fun other otherMember otherDue => ?_⟩
  have ordered := @pairwise_due type steps
  rw [listed] at ordered
  have inList : other ∈ step :: rest := listed ▸ mem_due_iff.mpr ⟨otherMember, otherDue⟩
  rcases List.mem_cons.mp inList with rfl | later
  · exact (Step.isNotAfter_total other other).elim id id
  · exact List.rel_of_pairwise_cons ordered later

theorem head?_due_iff (unique : (steps.map Step.id).Nodup) :
    (due type steps).head? = some step ↔ IsOldest type steps step := by
  constructor
  · intro isHead
    obtain ⟨rest, listed⟩ := List.head?_eq_some_iff.mp isHead
    exact isOldest_of_due_eq_cons listed
  · intro isOldest
    have listed := mem_due_iff.mpr ⟨isOldest.member, isOldest.isDue⟩
    cases group : due type steps with
    | nil => simp [group] at listed
    | cons head rest =>
        have isHead := isOldest_of_due_eq_cons group
        have sameId := Step.id_eq_of_isNotAfter (isHead.first step isOldest.member isOldest.isDue)
          (isOldest.first head isHead.member isHead.isDue)
        exact congrArg some (List.inj_on_of_nodup_map unique isHead.member isOldest.member sameId)

theorem exists_isOldest (member : step ∈ steps) (isDue : step.isDue type) :
    ∃ oldest, IsOldest type steps oldest := by
  cases group : due type steps with
  | nil =>
      have listed := mem_due_iff.mpr ⟨member, isDue⟩
      simp [group] at listed
  | cons head rest => exact ⟨head, isOldest_of_due_eq_cons group⟩

/-! ### Skipping -/

/-- Each type is skipped as if it were the only one, and once. -/
theorem skip_eq_map : skip stamps types steps = steps.map fun step =>
    if step.isPending ∧ step.type ∈ types then
      step.resolve (stamps step) step.type .skipped none (due step.type steps).head?
    else step := by
  induction types generalizing steps with
  | nil => simp [skip]
  | cons type types induction =>
      have next : skip stamps (type :: types) steps =
          skip stamps types (resolve stamps type .skipped none steps) := rfl
      rw [next, induction, resolve, List.map_map]
      apply List.map_congr_left
      intro step member
      rw [Function.comp_apply]
      by_cases isDue : step.isDue type
      · -- What has been skipped is no longer pending, so that it is skipped only once.
        obtain ⟨pending, isType⟩ := Step.isDue_iff.mp isDue
        have settled : ¬(step.resolve (stamps step) type .skipped none
            (due type steps).head?).isPending := by
          intro still
          have isDue := Step.isDue_of_isPending still
          rw [Step.type_resolve, isType] at isDue
          cases (Step.isDue_resolve_iff.mp isDue).2.2
        rw [if_neg fun both => settled both.1,
          if_pos ⟨pending, isType ▸ List.mem_cons_self⟩, isType]
      · rw [Step.resolve_of_not_isDue isDue]
        by_cases pending : step.isPending
        · have different : step.type ≠ type := fun same =>
            isDue (Step.isDue_iff.mpr ⟨pending, same⟩)
          have sameDue := @due_resolve_of_ne stamps type step.type .skipped none steps different
          rw [resolve] at sameDue
          simp only [pending, true_and, List.mem_cons, different, false_or, sameDue]
        · simp [pending]

/-! ### Scheduling -/

theorem map_type_of_isScheduled {process : Uuid} {added : List Step}
    (scheduled : List.Forall₂ (Step.IsScheduled process) types added) :
    added.map Step.type = types := by
  induction scheduled with
  | nil => rfl
  | cons isScheduled _ induction =>
      obtain ⟨id, now, rfl⟩ := isScheduled
      rw [List.map_cons, induction]
      rfl

theorem isScheduled_of_mem {process : Uuid} {added : List Step}
    (scheduled : List.Forall₂ (Step.IsScheduled process) types added) (member : step ∈ added) :
    step.type ∈ types ∧ step.IsScheduled process step.type := by
  obtain ⟨type, inTypes, isScheduled⟩ := exists_of_mem_forall₂ scheduled.flip member
  obtain ⟨id, now, rfl⟩ := isScheduled
  exact ⟨inTypes, id, now, rfl⟩

theorem nodup_lacking : (lacking types steps).Nodup :=
  nodup_eraseDups _

theorem exists_filter_eq_singleton {β : Type} [DecidableEq β] {key : Step → β} {value : β}
    (unique : (steps.map key).Nodup) (member : value ∈ steps.map key) :
    ∃ step ∈ steps, key step = value ∧ steps.filter (fun row => key row == value) = [step] := by
  obtain ⟨step, inSteps, rfl⟩ := List.mem_map.mp member
  refine ⟨step, inSteps, rfl, ?_⟩
  rw [List.filter_congr (q := (· == step))]
  · rw [List.filter_beq, List.count_eq_one_of_mem unique.of_map inSteps]
    rfl
  · intro row rowMember
    rw [Bool.eq_iff_iff, beq_iff_eq, beq_iff_eq]
    exact ⟨List.inj_on_of_nodup_map unique rowMember inSteps, congrArg key⟩

/-! ### Steps that are still pending -/

/-- The oldest pending step of a type is still the oldest one if it is still pending. -/
theorem exists_head?_due_settle (unique : (steps.map Step.id).Nodup)
    (isOldest : IsOldest type steps step) :
    ∃ row, (due type (settle stamps type .todo message steps)).head? = some row ∧
      row.id = step.id := by
  have isHead := (head?_due_iff unique).mpr isOldest
  rw [settle]
  split
  · exact ⟨step, isHead, rfl⟩
  · obtain ⟨rest, listed⟩ := List.head?_eq_some_iff.mp isHead
    have alone := @map_id_due_resolve_todo stamps type message steps unique
    rw [listed, List.map_cons, List.take_succ_cons, List.take_zero, List.map_eq_singleton_iff]
      at alone
    obtain ⟨row, alone, sameId⟩ := alone
    exact ⟨row, by rw [alone, List.head?_cons], sameId⟩

end Steps

/-! ### Row by row -/

/-- The pending rows of a type have been resolved: the oldest has been given a status, and all
others have become its duplicates.  If there is a message, they all carry it. -/
structure Steps.Resolved (type : StepType) (status : StepStatus) (message : Option String)
    (before after : List Step) : Prop where
  oldest : ∀ step, IsOldest type before step → ∃ now, step.given now status message ∈ after
  duplicates : ∀ step ∈ before, step.isDue type → ¬IsOldest type before step →
    ∃ now, step.given now .duplicate message ∈ after

theorem Steps.resolved_of_forall (stamps : Stamps) {type : StepType} {status : StepStatus}
    {message : Option String} {before after : List Step} (unique : (before.map Step.id).Nodup)
    (each : ∀ step ∈ before, step.isDue type →
      step.given (stamps step)
        (if (due type before).head? = some step then status else .duplicate) message ∈ after) :
    Resolved type status message before after where
  oldest step isOldest := by
    have given := each step isOldest.member isOldest.isDue
    rw [if_pos ((head?_due_iff unique).mpr isOldest)] at given
    exact ⟨stamps step, given⟩
  duplicates step member isDue younger := by
    have given := each step member isDue
    rw [if_neg fun isHead => younger ((head?_due_iff unique).mp isHead)] at given
    exact ⟨stamps step, given⟩

namespace StepResult

/-- The result says that its step is still pending, and nothing else about it. -/
def IsSilent (result : StepResult) : Prop :=
  result.status = .todo ∧ result.message = none

instance (result : StepResult) : Decidable result.IsSilent :=
  inferInstanceAs (Decidable (_ ∧ _))

/-- What becomes of a row. -/
def becomes (result : StepResult) (settled skipped : Stamps) (type : StepType)
    (before : List Step) (step : Step) : Step :=
  if step.isDue type then
    if result.IsSilent then step
    else step.resolve (settled step) type result.status result.message (Steps.due type before).head?
  else if step.isPending ∧ step.type ∈ result.skip.getD [] then
    step.resolve (skipped step) step.type .skipped none (Steps.due step.type before).head?
  else step

/-- What the result of a type does to the rows of a process, row by row. -/
structure Effect (result : StepResult) (process : Uuid) (type : StepType)
    (before after : List Step) : Prop where
  /-- All rows stay in their places, and new ones come behind them. -/
  rows : before.map Step.id <+: after.map Step.id
  unique : (after.map Step.id).Nodup
  resolved : ¬result.IsSilent → Steps.Resolved type result.status result.message before after
  silent : result.IsSilent → ∀ step ∈ before, step.isDue type → step ∈ after
  skipped : ∀ other ∈ result.skip.getD [], other ≠ type →
    Steps.Resolved other .skipped none before after
  /-- Each type that is scheduled and that the process does not have gets one pending row. -/
  scheduled : ∀ other ∈ result.schedule.getD [], other ∉ before.map Step.type →
    ∃ step, after.filter (fun row => row.type == other) = [step] ∧ step.IsScheduled process other
  added : ∀ step ∈ after, step.id ∉ before.map Step.id →
    step.type ∈ result.schedule.getD [] ∧ step.type ∉ before.map Step.type
  /-- All other rows are unchanged, above all those that were no longer pending. -/
  others : ∀ step ∈ before,
    (step.isPending → step.type ≠ type ∧ step.type ∉ result.skip.getD []) → step ∈ after

variable {result : StepResult} {settled skipped : Stamps} {process : Uuid} {type : StepType}
  {before after : List Step} {step : Step}

open Outcome

theorem resolved_eq_map (apart : result.status = .todo → type ∉ result.skip.getD []) :
    (ran type result).resolved settled skipped before =
      before.map (result.becomes settled skipped type before) := by
  rw [resolved, Steps.settle]
  split
  case isTrue silent =>
    rw [Steps.skip_eq_map]
    apply List.map_congr_left
    intro step _
    rw [becomes, if_pos (show result.IsSilent from silent)]
    by_cases isDue : step.isDue type
    · have isType := (Step.isDue_iff.mp isDue).2
      rw [if_pos isDue, if_neg fun both => apart silent.1 (isType ▸ both.2)]
    · rw [if_neg isDue]
  case isFalse spoken =>
    rw [Steps.skip_eq_map, Steps.resolve, List.map_map]
    apply List.map_congr_left
    intro step _
    rw [Function.comp_apply, becomes, if_neg (show ¬result.IsSilent from spoken)]
    by_cases isDue : step.isDue type
    · rw [if_pos isDue, if_neg]
      intro both
      have isType := (Step.isDue_iff.mp isDue).2
      have still := Step.isDue_of_isPending both.1
      rw [Step.type_resolve, isType] at still both
      exact apart (Step.isDue_resolve_iff.mp still).2.2 both.2
    · rw [Step.resolve_of_not_isDue isDue, if_neg isDue]
      by_cases pending : step.isPending
      · have different : step.type ≠ type := fun same =>
          isDue (Step.isDue_iff.mpr ⟨pending, same⟩)
        have sameDue := @Steps.due_resolve_of_ne settled type step.type result.status
          result.message before different
        rw [Steps.resolve] at sameDue
        rw [sameDue]
      · simp [pending]

theorem becomes_of_isDue (isDue : step.isDue type) (spoken : ¬result.IsSilent) :
    result.becomes settled skipped type before step = step.given (settled step)
      (if (Steps.due type before).head? = some step then result.status else .duplicate)
      result.message := by
  rw [becomes, if_pos isDue, if_neg spoken, Step.resolve_eq_given isDue]

theorem becomes_of_skipped {other : StepType} (isDue : step.isDue other) (different : other ≠ type)
    (isSkipped : other ∈ result.skip.getD []) :
    result.becomes settled skipped type before step = step.given (skipped step)
      (if (Steps.due other before).head? = some step then .skipped else .duplicate) none := by
  obtain ⟨pending, rfl⟩ := Step.isDue_iff.mp isDue
  have undue := Step.not_isDue_of_isDue isDue different.symm
  rw [becomes, if_neg undue, if_pos ⟨pending, isSkipped⟩, Step.resolve_eq_given isDue]

theorem becomes_of_others
    (others : step.isPending → step.type ≠ type ∧ step.type ∉ result.skip.getD []) :
    result.becomes settled skipped type before step = step := by
  have undue : ¬step.isDue type := fun isDue =>
    (others (Step.isDue_iff.mp isDue).1).1 (Step.isDue_iff.mp isDue).2
  rw [becomes, if_neg undue, if_neg fun both => (others both.1).2 both.2]

/-- **What becomes of each row.**  Unless a step that is still pending is to be skipped, each
row is concerned by one part of the result at most. -/
theorem effect_of_applies (applies : (ran type result).Applies process before after)
    (unique : (after.map Step.id).Nodup)
    (apart : result.status = .todo → type ∉ result.skip.getD []) :
    result.Effect process type before after := by
  obtain ⟨settled, skipped, added, scheduled, rfl⟩ := applies
  have sameIds : ((ran type result).resolved settled skipped before).map Step.id =
      before.map Step.id := by
    simp [resolved]
  have sameTypes : ((ran type result).resolved settled skipped before).map Step.type =
      before.map Step.type := map_type_resolved
  have uniqueBefore : (before.map Step.id).Nodup := by
    rw [List.map_append, sameIds] at unique
    exact unique.of_append_left
  have kept : ∀ step ∈ before, result.becomes settled skipped type before step ∈
      (ran type result).resolved settled skipped before ++ added := by
    intro step member
    rw [resolved_eq_map apart]
    exact List.mem_append_left added (List.mem_map_of_mem member)
  constructor
  case rows =>
    rw [List.map_append, sameIds]
    exact List.prefix_append _ _
  case unique => exact unique
  case resolved =>
    intro spoken
    refine Steps.resolved_of_forall settled uniqueBefore fun step member isDue => ?_
    exact becomes_of_isDue isDue spoken ▸ kept step member
  case silent =>
    intro silent step member isDue
    have same : result.becomes settled skipped type before step = step := by
      rw [becomes, if_pos isDue, if_pos silent]
    exact same ▸ kept step member
  case skipped =>
    intro other isSkipped different
    refine Steps.resolved_of_forall skipped uniqueBefore fun step member isDue => ?_
    exact becomes_of_skipped isDue different isSkipped ▸ kept step member
  case scheduled =>
    intro other isScheduled isNew
    have typesAdded := Steps.map_type_of_isScheduled scheduled
    have lacks := Steps.mem_lacking_iff.mpr ⟨isScheduled, isNew⟩
    obtain ⟨step, member, rfl, alone⟩ := Steps.exists_filter_eq_singleton
      (typesAdded ▸ Steps.nodup_lacking) (typesAdded ▸ lacks)
    have none : ((ran type result).resolved settled skipped before).filter
        (fun row => row.type == step.type) = [] := by
      rw [List.filter_eq_nil_iff]
      intro row inRows isOther
      exact isNew (sameTypes ▸ List.mem_map.mpr ⟨row, inRows, by simpa using isOther⟩)
    exact ⟨step, by rw [List.filter_append, none, alone, List.nil_append],
      (Steps.isScheduled_of_mem scheduled member).2⟩
  case added =>
    intro step member isNew
    rcases List.mem_append.mp member with before | later
    · exact absurd (sameIds ▸ List.mem_map_of_mem before) isNew
    · exact Steps.mem_lacking_iff.mp (Steps.isScheduled_of_mem scheduled later).1
  case others =>
    intro step member others
    exact becomes_of_others others ▸ kept step member

/-- **What becomes of a step that is still pending.**  It is pending afterwards unless the result
skips its own type, which skips it. -/
theorem exists_final (applies : (ran type result).Applies process before after)
    (unique : (after.map Step.id).Nodup) (isTodo : result.status = .todo)
    (isOldest : Steps.IsOldest type before step) :
    ∃ final, after.filter (fun row => row.id == step.id) = [final] ∧ final.type = type ∧
      final.status = some (if type ∈ result.skip.getD [] then .skipped else .todo) := by
  obtain ⟨stamps, skipped, added, _, rfl⟩ := applies
  let settled := Steps.settle stamps type result.status result.message before
  have uniqueBefore : (before.map Step.id).Nodup := by
    rw [List.map_append] at unique
    simpa [resolved] using unique.of_append_left
  obtain ⟨row, isHead, sameId⟩ : ∃ row, (Steps.due type settled).head? = some row ∧
      row.id = step.id := by
    simp only [settled, isTodo]
    exact Steps.exists_head?_due_settle uniqueBefore isOldest
  obtain ⟨member, isDue⟩ := Steps.mem_due_iff.mp (List.mem_of_mem_head? isHead)
  obtain ⟨pending, isType⟩ := Step.isDue_iff.mp isDue
  obtain ⟨final, member, sameId, isType, status⟩ : ∃ final ∈
      Steps.skip skipped (result.skip.getD []) settled, final.id = step.id ∧ final.type = type ∧
        final.status = some (if type ∈ result.skip.getD [] then .skipped else .todo) := by
    have skips := List.mem_map_of_mem (f := fun step =>
      if step.isPending ∧ step.type ∈ result.skip.getD [] then
        step.resolve (skipped step) step.type .skipped none (Steps.due step.type settled).head?
      else step) member
    rw [← Steps.skip_eq_map] at skips
    refine ⟨_, skips, ?_⟩
    by_cases isSkipped : type ∈ result.skip.getD []
    · rw [if_pos ⟨pending, isType ▸ isSkipped⟩, isType, Step.resolve_eq_given isDue,
        if_pos isHead, if_pos isSkipped]
      exact ⟨sameId, isType, rfl⟩
    · rw [if_neg fun both => isSkipped (isType ▸ both.2), if_neg isSkipped]
      exact ⟨sameId, isType, by simpa [Step.isPending] using pending⟩
  have inAfter := List.mem_append_left added member
  obtain ⟨other, otherMember, same, alone⟩ :=
    Steps.exists_filter_eq_singleton unique (List.mem_map_of_mem inAfter)
  obtain rfl := List.inj_on_of_nodup_map unique otherMember inAfter same
  exact ⟨other, sameId ▸ alone, isType, status⟩

end StepResult

end Workflow
