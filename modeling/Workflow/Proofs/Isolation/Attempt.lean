import Workflow.Proofs.Drain.Preview
import Workflow.Proofs.Isolation.Clerk

/-!
# A drain keeps to its process

A drain stages updates of steps that it has read, and new steps of its own.  Whatever a
result says, its agenda lists no others.  An attempt is put together from its parts.
-/

namespace Workflow

open Workflow.Action

namespace Agenda

variable {agenda : Agenda} {type : StepType}

/-- Only steps of the agenda are updated, and no others are on the agenda afterwards. -/
structure Narrows (agenda : Agenda) (after : Agenda × List (Uuid × StepUpdate)) : Prop where
  remaining : after.1.ids ⊆ agenda.ids
  targets : ∀ entry ∈ after.2, entry.1 ∈ agenda.ids

theorem narrows_settle (agenda : Agenda) (type : StepType) (status : StepStatus)
    (message : Option String) : agenda.Narrows (agenda.settle type status message) := by
  simp only [settle]
  split
  · exact ⟨List.Subset.refl _, by simp⟩
  · refine ⟨?_, fun _ member => mem_ids_of_mem_stepsOf (Resolution.mem_of_mem_updates member)⟩
    dsimp only
    split
    · exact ids_keepOldest_sublist.subset
    · exact ids_dropType_sublist.subset

theorem narrows_skipType (agenda : Agenda) (type : StepType) :
    agenda.Narrows (agenda.skipType type) := by
  simp only [skipType]
  split
  · exact ⟨ids_dropType_sublist.subset, by simp⟩
  · exact ⟨ids_dropType_sublist.subset,
      fun _ member => mem_ids_of_mem_stepsOf (Resolution.mem_of_mem_updates member)⟩

theorem narrows_skip (agenda : Agenda) (types : List StepType) :
    agenda.Narrows (agenda.skip types) := by
  induction types generalizing agenda with
  | nil => exact ⟨List.Subset.refl _, by simp [skip]⟩
  | cons type types induction =>
      have first := agenda.narrows_skipType type
      have others := induction (agenda.skipType type).1
      refine ⟨fun _ listed => first.remaining (others.remaining listed), fun entry member => ?_⟩
      rcases List.mem_append.mp member with inFirst | later
      · exact first.targets entry inFirst
      · exact first.remaining (others.targets entry later)

theorem narrows_afterResult (agenda : Agenda) (type : StepType) (result : StepResult) :
    agenda.Narrows (agenda.afterResult type result) := by
  have settled := agenda.narrows_settle type result.status result.message
  have skipped := narrows_skip (agenda.settle type result.status result.message).1
    (result.skip.getD [])
  refine ⟨fun _ listed => settled.remaining (skipped.remaining listed), fun entry member => ?_⟩
  rcases List.mem_append.mp member with first | later
  · exact settled.targets entry first
  · exact settled.remaining (skipped.targets entry later)

/-- All steps of the agenda were made for one process. -/
def IsFor (owner : Uuid → Uuid) (process : Uuid) (agenda : Agenda) : Prop :=
  ∀ step ∈ agenda.ids, owner step = process

variable {owner : Uuid → Uuid} {process : Uuid}

theorem IsFor.addSteps (isFor : agenda.IsFor owner process) {created : List (StepType × Uuid)}
    (made : ∀ step ∈ created, owner step.2 = process) :
    (agenda.addSteps created).IsFor owner process := by
  induction created generalizing agenda with
  | nil => exact isFor
  | cons step created induction =>
      obtain ⟨madeFirst, madeRest⟩ := List.forall_mem_cons.mp made
      refine induction ?_ madeRest
      change (agenda.addStep step.1 step.2).IsFor owner process
      rw [addStep]
      split
      · exact isFor
      · intro listed member
        have either : listed ∈ agenda.ids ∨ listed = step.2 := by simpa [ids] using member
        rcases either with before | rfl
        · exact isFor listed before
        · exact madeFirst

theorem IsFor.next? (isFor : agenda.IsFor owner process) {rest : Agenda}
    (found : agenda.next? = some (type, rest)) : rest.IsFor owner process := by
  obtain ⟨_, _, same⟩ := Option.map_eq_some_iff.mp found
  cases same
  exact isFor

theorem isFor_load {executable types : List StepType} {steps : List PendingStep}
    (made : ∀ step ∈ steps, owner step.id = process) :
    (load executable steps types).IsFor owner process := by
  intro listed member
  obtain ⟨step, inSteps, rfl⟩ := List.mem_map.mp ((ids_load executable steps types).subset member)
  exact made step inSteps

end Agenda

namespace Clerk

variable {σ : Type} {site : Site σ} {id : Uuid} {visits : List Turn} {clerk : Clerk σ}
  {term : LeaseTerm} {failure : Failure} {registry : Registry} {executor : ProcessType}
  {agenda : Agenda} {type : StepType}

theorem stageSteps_obeys {types : List StepType} (confined : clerk.Confined site id visits) :
    Obeys (attemptRules site id)
      (fun created clerk => (∀ step ∈ created, site.owner step.2 = id) ∧
        clerk.Confined site id visits)
      (Broken site id visits) (Drain.stageSteps id types) clerk := by
  induction types generalizing clerk with
  | nil => exact obeys_pure ⟨by simp, confined⟩
  | cons type types induction =>
      rw [Drain.stageSteps]
      refine ask_bind confined rfl fun _ step _ answers confined => ?_
      obtain ⟨_, ⟨made, _⟩, _⟩ := answers.moves
      refine (induction confined).bind fun created clerk holds => obeys_pure ⟨?_, holds.2⟩
      exact List.forall_mem_cons.mpr ⟨made, holds.1⟩

theorem stageUpdates_obeys {updates : List (Uuid × StepUpdate)}
    (confined : clerk.Confined site id visits)
    (targets : ∀ entry ∈ updates, site.owner entry.1 = id) :
    Obeys (attemptRules site id) (fun _ => Confined site id visits) (Broken site id visits)
      (Drain.stageUpdates updates) clerk := by
  rw [Drain.stageUpdates]
  split
  · exact obeys_pure confined
  · rw [← bind_pure (ask (.stageUpdates updates))]
    exact ask_bind confined targets fun _ _ _ _ confined => obeys_pure confined

section Term

variable (calm : ∀ failure, term = .error failure → failure.isCancellation → site.cancels)
include calm

theorem renewIfNeeded_obeys (clean : clerk.Clean site id visits) :
    Obeys (attemptRules site id) (fun _ => Clean site id visits) (Broken site id visits)
      (Drain.renewIfNeeded executor type (Attempt.settle term)) clerk := by
  rw [Drain.renewIfNeeded]
  refine clean_bind clean rfl rfl fun _ reply _ _ answers clean => ?_
  refine obeys_ofExcept_bind (fun needed _ => ?_) ?_
  · split
    · exact settle_obeys calm clean.toConfined .leaseRequested
    · exact obeys_pure clean
  · rintro failure rfl
    exact ⟨clean.toConfined, answers.cancels⟩

theorem runQueue_obeys (clean : clerk.Clean site id visits) (isFor : agenda.IsFor site.owner id) :
    Obeys (attemptRules site id) (fun _ => Clean site id visits) (Broken site id visits)
      (Drain.runQueue executor id (Attempt.settle term) agenda) clerk := by
  induction size : agenda.measure using Nat.strongRecOn generalizing agenda clerk with
  | ind size induction =>
      subst size
      rw [Drain.runQueue]
      refine clean_bind clean rfl rfl fun _ cancelled _ _ _ clean => ?_
      split
      · exact note_obeys clean
      split
      · exact obeys_pure clean
      rename_i type rest found
      refine (renewIfNeeded_obeys calm clean).bind fun goesOn clerk clean => ?_
      split
      · refine clean_bind clean rfl rfl fun _ reply _ _ answers clean => ?_
        refine obeys_ofExcept_bind (fun result _ => ?_) ?_
        · have narrows := rest.narrows_afterResult type result
          have restFor := isFor.next? found
          refine (stageUpdates_obeys clean.toConfined
            fun entry member => restFor _ (narrows.targets entry member)).bind ?_
          intro _ clerk confined
          refine (stageSteps_obeys confined).bind fun created clerk holds => ?_
          obtain ⟨made, confined⟩ := holds
          refine ask_bind confined rfl fun _ _ _ _ confined => ?_
          refine (settle_obeys calm confined _).bind fun goesOn clerk clean => ?_
          have nextFor : ((rest.afterResult type result).1.addSteps created).IsFor site.owner id :=
            Agenda.IsFor.addSteps (fun step listed => restFor step (narrows.remaining listed)) made
          split
          · split
            · exact note_obeys clean
            · refine induction _ ?_ clean nextFor rfl
              exact Nat.lt_of_le_of_lt (Agenda.measure_addSteps_le _ _)
                (Nat.lt_of_le_of_lt (Agenda.measure_afterResult_le _ _ _)
                  (Agenda.measure_of_next? found))
          · exact obeys_pure clean
        · rintro failure rfl
          exact ⟨clean.toConfined, answers.cancels⟩
      · exact obeys_pure clean

theorem drain_obeys {processType : ProcessType} (clean : clerk.Clean site id visits) :
    Obeys (attemptRules site id) (fun _ => Clean site id visits) (Broken site id visits)
      (registry.drain id processType (Attempt.settle term)) clerk := by
  rw [Registry.drain]
  split
  · exact obeys_throw ⟨clean.toConfined, fun cancelled => by cases cancelled⟩
  · rename_i registration _
    refine clean_bind clean rfl rfl fun _ reply _ before answers clean => ?_
    refine obeys_ofExcept_bind ?_ ?_
    rotate_left
    · rintro failure rfl
      exact ⟨clean.toConfined, answers.cancels⟩
    rintro steps rfl
    have made := answers.made before.attributed
    refine clean_bind clean rfl rfl fun _ reply _ _ answers clean => ?_
    refine obeys_ofExcept_bind ?_ ?_
    rotate_left
    · rintro failure rfl
      exact ⟨clean.toConfined, answers.cancels⟩
    intro types _
    refine clean_bind clean rfl rfl fun _ reply _ _ answers clean => ?_
    refine obeys_ofExcept_bind ?_ ?_
    rotate_left
    · rintro failure rfl
      exact ⟨clean.toConfined, answers.cancels⟩
    intro preparation _
    refine (stageSteps_obeys clean.toConfined).bind fun created clerk holds => ?_
    refine (settle_obeys calm holds.2 _).bind fun goesOn clerk clean => ?_
    split
    · exact runQueue_obeys calm clean ((Agenda.isFor_load made).addSteps holds.1)
    · exact obeys_pure clean

theorem work_obeys {process : Process} (clean : clerk.Clean site id visits)
    (holds : process.id = id) :
    Obeys (attemptRules site id) (fun _ => Clean site id visits) (Broken site id visits)
      (Attempt.work registry term process) clerk := by
  subst holds
  have reports : ∀ clerk : Clerk σ, clerk.Clean site process.id visits →
      Obeys (attemptRules site process.id) (fun _ => Clean site process.id visits)
        (Broken site process.id visits)
        (do
          let drained ← ask .held
          note (.drained drained.id drained.version)) clerk := by
    intro clerk clean
    exact clean_bind clean rfl rfl fun _ _ _ _ _ clean => note_obeys clean
  rw [Attempt.work]
  refine (acquire_obeys calm clean).bind fun isLeased clerk clean => ?_
  split
  · refine (drain_obeys calm clean).bind fun _ clerk clean => ?_
    refine release_bind clean (fun clerk confined => ?_) fun clerk clean => reports clerk clean
    exact (save_obeys confined).bind fun _ clerk clean => reports clerk clean
  · exact obeys_pure clean

/-- **An attempt leaves nothing behind.**  Whatever it is answered and whatever others do, all
that an attempt saves is for its process, and nothing is staged when it ends.  It fails only
if it is cancelled. -/
theorem attempt_obeys (registry : Registry) (clean : clerk.Clean site id visits) :
    Obeys (attemptRules site id) (fun _ => Clean site id visits)
      (fun failure clerk => clerk.Clean site id visits ∧ failure.isCancellation ∧ site.cancels)
      (registry.attempt term) clerk := by
  rw [Registry.attempt]
  refine clean_bind clean rfl rfl fun _ process _ before answers clean => ?_
  obtain ⟨_, ⟨rfl, _⟩, _⟩ := answers.moves
  refine (work_obeys calm clean before.holds).outcome_bind ?_ ?_
  · intro _ clerk clean
    exact obeys_pure clean
  · intro failure clerk broken
    exact recover_obeys broken

end Term

end Clerk

end Workflow
