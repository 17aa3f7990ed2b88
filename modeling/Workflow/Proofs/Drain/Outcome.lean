import Mathlib.Data.List.Basic
import Mathlib.Data.List.Nodup
import Workflow.Drain

/-!
# What results do to steps

The meaning of a result is told here on the steps of a process alone, without the
picture that a drain has of them.  A result gives the pending steps of its type a
status, skips the pending steps of further types, and adds a pending step for every
scheduled type that the process does not have.  Of several pending steps of a type
only the oldest gets the status, and all others become duplicates.

The clock is read anew for each row that is updated.
-/

namespace Workflow

/-- For each row the reading of the clock at which it is updated. -/
abbrev Stamps := Step → Timestamp

namespace Step

/-- The step is pending and has a type. -/
def isDue (type : StepType) (step : Step) : Bool :=
  step.isPending && step.type == type

/-- The step after its type has been resolved, given the oldest pending step of the
type: this one gets the status, and the others become duplicates. -/
def resolve (now : Timestamp) (type : StepType) (status : StepStatus) (message : Option String)
    (oldest : Option Step) (step : Step) : Step :=
  if step.isDue type then
    (StepUpdate.resolve (if oldest = some step then status else .duplicate) message).apply
      now step
  else step

/-- The step is the one that is scheduled for a type. -/
def IsScheduled (process : Uuid) (type : StepType) (step : Step) : Prop :=
  ∃ id now, step = fresh id type .todo process now

variable {now : Timestamp} {type other : StepType} {status : StepStatus}
  {message : Option String} {oldest : Option Step} {step : Step}

theorem isDue_iff : step.isDue type ↔ step.isPending ∧ step.type = type := by
  simp [isDue]

@[simp] theorem id_resolve : (step.resolve now type status message oldest).id = step.id := by
  rw [resolve]
  split <;> rfl

@[simp] theorem type_resolve :
    (step.resolve now type status message oldest).type = step.type := by
  rw [resolve]
  split <;> rfl

theorem resolve_of_not_isDue (undue : ¬step.isDue type) :
    step.resolve now type status message oldest = step :=
  if_neg undue

theorem not_isDue_of_isDue (isDue : step.isDue type) (different : other ≠ type) :
    ¬step.isDue other := by
  rw [isDue_iff] at *
  exact fun also => different (also.2.symm.trans isDue.2)

/-- Of a type that is resolved, only the oldest step can stay pending. -/
theorem isDue_resolve_iff : (step.resolve now type status message oldest).isDue type ↔
    step.isDue type ∧ oldest = some step ∧ status = .todo := by
  by_cases isDue : step.isDue type
  · rw [isDue_iff, type_resolve, isPending, resolve, if_pos isDue]
    have isType := (isDue_iff.mp isDue).2
    by_cases isOldest : oldest = some step <;>
      simp [isOldest, isDue, isType, StepUpdate.apply, StepUpdate.resolve]
  · rw [resolve_of_not_isDue isDue]
    simp [isDue]

theorem isDue_resolve_of_ne (different : other ≠ type) :
    (step.resolve now type status message oldest).isDue other = step.isDue other := by
  by_cases isDue : step.isDue type
  · have undue := not_isDue_of_isDue isDue different
    have isType := (isDue_iff.mp isDue).2
    have stillUndue : ¬(step.resolve now type status message oldest).isDue other := by
      rw [isDue_iff, type_resolve]
      exact fun also => different (also.2.symm.trans isType)
    rw [Bool.eq_iff_iff]
    exact iff_of_false stillUndue undue
  · rw [resolve_of_not_isDue isDue]

end Step

namespace Steps

/-- The pending steps of a type, oldest first. -/
def due (type : StepType) (steps : List Step) : List Step :=
  oldestFirst (steps.filter (Step.isDue type))

/-- Gives the oldest pending step of a type a status and makes the others duplicates. -/
def resolve (stamps : Stamps) (type : StepType) (status : StepStatus)
    (message : Option String) (steps : List Step) : List Step :=
  steps.map fun step => step.resolve (stamps step) type status message (due type steps).head?

/-- Records how the step of a type ended.  Without a message a step that is still
pending is left alone, and so are its duplicates. -/
def settle (stamps : Stamps) (type : StepType) (status : StepStatus)
    (message : Option String) (steps : List Step) : List Step :=
  if status = .todo ∧ message = none then steps else resolve stamps type status message steps

def skip (stamps : Stamps) (types : List StepType) (steps : List Step) : List Step :=
  types.foldl (fun steps type => resolve stamps type .skipped none steps) steps

/-- The types among the requested ones that no step has, each once. -/
def lacking (types : List StepType) (steps : List Step) : List StepType :=
  (types.filter fun type => !(steps.map Step.type).contains type).eraseDups

variable {stamps others : Stamps} {type other : StepType} {status : StepStatus}
  {message : Option String} {steps : List Step} {step : Step}

theorem mem_lacking_iff {types : List StepType} :
    type ∈ lacking types steps ↔ type ∈ types ∧ type ∉ steps.map Step.type := by
  simp [lacking, List.mem_eraseDups]

theorem mem_due_iff : step ∈ due type steps ↔ step ∈ steps ∧ step.isDue type := by
  simp [due, oldestFirst]

@[simp] theorem map_id_resolve :
    (resolve stamps type status message steps).map Step.id = steps.map Step.id := by
  rw [resolve, List.map_map]
  exact List.map_congr_left fun step _ => Step.id_resolve

@[simp] theorem map_type_resolve :
    (resolve stamps type status message steps).map Step.type = steps.map Step.type := by
  rw [resolve, List.map_map]
  exact List.map_congr_left fun step _ => Step.type_resolve

@[simp] theorem map_id_settle :
    (settle stamps type status message steps).map Step.id = steps.map Step.id := by
  rw [settle]
  split
  · rfl
  · exact map_id_resolve

@[simp] theorem map_type_settle :
    (settle stamps type status message steps).map Step.type = steps.map Step.type := by
  rw [settle]
  split
  · rfl
  · exact map_type_resolve

@[simp] theorem map_id_skip {types : List StepType} :
    (skip stamps types steps).map Step.id = steps.map Step.id := by
  induction types generalizing steps with
  | nil => rfl
  | cons type types induction => exact induction.trans map_id_resolve

@[simp] theorem map_type_skip {types : List StepType} :
    (skip stamps types steps).map Step.type = steps.map Step.type := by
  induction types generalizing steps with
  | nil => rfl
  | cons type types induction => exact induction.trans map_type_resolve

theorem lacking_congr {types : List StepType} {rows : List Step}
    (same : rows.map Step.type = steps.map Step.type) :
    lacking types rows = lacking types steps := by
  rw [lacking, lacking, same]

/-- Only the readings for the pending steps of the type count. -/
theorem resolve_congr (same : ∀ step ∈ steps, step.isDue type → stamps step = others step) :
    resolve stamps type status message steps = resolve others type status message steps := by
  apply List.map_congr_left
  intro step member
  by_cases isDue : step.isDue type
  · rw [same step member isDue]
  · rw [Step.resolve_of_not_isDue isDue, Step.resolve_of_not_isDue isDue]

/-- Rows that are resolved one by one are resolved at some readings. -/
theorem exists_resolve_of_forall {update : Step → Step} (each : ∀ step ∈ steps, ∃ now,
    update step = step.resolve now type status message (due type steps).head?) :
    ∃ stamps, steps.map update = resolve stamps type status message steps := by
  have _ : Inhabited Timestamp := ⟨⟨0, 0⟩⟩
  choose! stamps updated using each
  exact ⟨stamps, List.map_congr_left updated⟩

theorem resolve_of_due_eq_nil (nothing : due type steps = []) :
    resolve stamps type status message steps = steps := by
  rw [resolve, List.map_congr_left (g := fun step => step), List.map_id']
  intro step member
  apply Step.resolve_of_not_isDue
  intro isDue
  have listed := mem_due_iff.mpr ⟨member, isDue⟩
  simp [nothing] at listed

theorem mem_resolve_of_ne (member : step ∈ steps) (different : step.type ≠ type) :
    step ∈ resolve stamps type status message steps :=
  List.mem_map.mpr ⟨step, member,
    Step.resolve_of_not_isDue fun isDue => different (Step.isDue_iff.mp isDue).2⟩

theorem mem_settle_of_ne (member : step ∈ steps) (different : step.type ≠ type) :
    step ∈ settle stamps type status message steps := by
  rw [settle]
  split
  · exact member
  · exact mem_resolve_of_ne member different

theorem mem_skip {types : List StepType} (member : step ∈ steps) (kept : step.type ∉ types) :
    step ∈ skip stamps types steps := by
  induction types generalizing steps with
  | nil => exact member
  | cons type types induction =>
      obtain ⟨different, kept⟩ := not_or.mp (List.mem_cons.not.mp kept)
      exact induction (mem_resolve_of_ne member different) kept

/-- What a type that is skipped leaves pending is of another type. -/
theorem not_isDue_of_mem_resolve (ended : status ≠ .todo)
    (member : step ∈ resolve stamps type status message steps) : ¬step.isDue type := by
  intro isDue
  obtain ⟨origin, _, rfl⟩ := List.mem_map.mp member
  exact ended (Step.isDue_resolve_iff.mp isDue).2.2

/-- Only the readings for pending steps count. -/
theorem skip_congr {types : List StepType}
    (same : ∀ step ∈ steps, step.isPending → stamps step = others step) :
    skip stamps types steps = skip others types steps := by
  induction types generalizing steps with
  | nil => rfl
  | cons type types induction =>
      have first : resolve stamps type .skipped none steps =
          resolve others type .skipped none steps :=
        resolve_congr fun step member isDue => same step member (Step.isDue_iff.mp isDue).1
      refine (induction fun step member pending => ?_).trans (congrArg (skip others types) first)
      obtain ⟨origin, inSteps, rfl⟩ := List.mem_map.mp member
      have undue := not_isDue_of_mem_resolve (by simp) member
      by_cases isDue : origin.isDue type
      · refine absurd (Step.isDue_iff.mpr ⟨pending, ?_⟩) undue
        exact Step.type_resolve.trans (Step.isDue_iff.mp isDue).2
      · rw [Step.resolve_of_not_isDue isDue] at pending ⊢
        exact same origin inSteps pending

theorem exists_skip_cons {types : List StepType} :
    ∃ both : Stamps, skip others types (resolve stamps type .skipped none steps) =
      skip both (type :: types) steps := by
  refine ⟨fun step => if step.isDue type then stamps step else others step, ?_⟩
  have first : resolve stamps type .skipped none steps =
      resolve (fun step => if step.isDue type then stamps step else others step) type .skipped
        none steps :=
    resolve_congr fun step _ isDue => (if_pos isDue).symm
  rw [first]
  exact skip_congr fun step member pending =>
    (if_neg (not_isDue_of_mem_resolve (by simp) member)).symm

theorem due_resolve_of_ne (different : other ≠ type) :
    due other (resolve stamps type status message steps) = due other steps := by
  rw [due, resolve, List.filter_map]
  have sameDue : (Step.isDue other ∘
      fun step => step.resolve (stamps step) type status message (due type steps).head?) =
        Step.isDue other := by
    funext step
    exact Step.isDue_resolve_of_ne different
  rw [sameDue, List.map_congr_left (g := fun step => step), List.map_id', due]
  intro step member
  apply Step.resolve_of_not_isDue
  exact Step.not_isDue_of_isDue (List.mem_filter.mp member).2 (Ne.symm different)

/-- Under another status no step of the type stays pending. -/
theorem due_resolve_of_ne_todo (ended : status ≠ .todo) :
    due type (resolve stamps type status message steps) = [] := by
  apply List.eq_nil_iff_forall_not_mem.mpr
  intro step member
  obtain ⟨resolved, isDue⟩ := mem_due_iff.mp member
  exact not_isDue_of_mem_resolve ended resolved isDue

theorem map_id_due_resolve_todo (unique : (steps.map Step.id).Nodup) :
    (due type (resolve stamps type .todo message steps)).map Step.id =
      ((due type steps).map Step.id).take 1 := by
  rw [due, resolve, List.filter_map]
  cases listed : due type steps with
  | nil =>
      have nothing : steps.filter (Step.isDue type ∘
          fun step => step.resolve (stamps step) type .todo message ([] : List Step).head?) =
            [] := by
        rw [List.filter_eq_nil_iff]
        intro step _ isDue
        have isOldest := (Step.isDue_resolve_iff.mp isDue).2.1
        cases isOldest
      rw [nothing]
      simp [oldestFirst]
  | cons oldest rest =>
      obtain ⟨member, isDue⟩ :=
        mem_due_iff.mp (listed ▸ List.mem_cons_self : oldest ∈ due type steps)
      have alone : steps.filter (Step.isDue type ∘
          fun step => step.resolve (stamps step) type .todo message (oldest :: rest).head?) =
            [oldest] := by
        rw [List.filter_congr (q := (· == oldest))]
        · rw [List.filter_beq, List.count_eq_one_of_mem unique.of_map member]
          rfl
        · intro step _
          rw [Bool.eq_iff_iff, Function.comp_apply, Step.isDue_resolve_iff]
          by_cases isOldest : step = oldest
          · simp [isOldest, isDue]
          · simp [isOldest, Ne.symm isOldest]
      rw [alone]
      simp [oldestFirst]

end Steps

/-- What an executor has told: how a process is prepared, or how a step of a type ended. -/
inductive Outcome where
  | prepared (preparation : Preparation)
  | ran (type : StepType) (result : StepResult)

namespace Outcome

/-- The types for which steps are scheduled. -/
def scheduled : Outcome → List StepType
  | prepared preparation => preparation.schedule.getD []
  | ran _ result => result.schedule.getD []

/-- The steps after the statuses that an outcome gives them.  A step that is still pending can
also be skipped, so that it is updated twice. -/
def resolved (settled skipped : Stamps) (outcome : Outcome) (steps : List Step) : List Step :=
  match outcome with
  | prepared _ => steps
  | ran type result =>
    Steps.skip skipped (result.skip.getD [])
      (Steps.settle settled type result.status result.message steps)

/-- An outcome is applied as a whole: statuses, skipped types and scheduled steps. -/
def Applies (process : Uuid) (outcome : Outcome) (before after : List Step) : Prop :=
  ∃ settled skipped added,
    List.Forall₂ (Step.IsScheduled process) (Steps.lacking outcome.scheduled before) added ∧
      after = outcome.resolved settled skipped before ++ added

/-- The steps of a process after some outcomes, one applied after the other. -/
inductive Applied (process : Uuid) (origin : List Step) : List Outcome → List Step → Prop where
  | nil : Applied process origin [] origin
  | snoc {outcomes : List Outcome} {outcome : Outcome} {before after : List Step} :
      Applied process origin outcomes before → outcome.Applies process before after →
        Applied process origin (outcomes ++ [outcome]) after

/-- The last of some outcomes was applied to what the others have made of the steps. -/
theorem Applied.exists_of_snoc {process : Uuid} {origin after : List Step}
    {outcomes : List Outcome} {outcome : Outcome}
    (applied : Applied process origin (outcomes ++ [outcome]) after) :
    ∃ before, Applied process origin outcomes before ∧ outcome.Applies process before after := by
  generalize whole : outcomes ++ [outcome] = all at applied
  cases applied with
  | nil => simp at whole
  | snoc earlier applies =>
      obtain ⟨rfl, last⟩ := List.append_inj' whole rfl
      obtain rfl := List.singleton_inj.mp last
      exact ⟨_, earlier, applies⟩

/-- The result of a step leaves alone what is neither of its type nor skipped. -/
theorem Applies.mem_of_ne {process : Uuid} {type : StepType} {result : StepResult}
    {before after : List Step} {step : Step}
    (applies : (ran type result).Applies process before after)
    (member : step ∈ before) (different : step.type ≠ type)
    (kept : step.type ∉ result.skip.getD []) : step ∈ after := by
  obtain ⟨settled, skipped, added, _, rfl⟩ := applies
  exact List.mem_append_left added (Steps.mem_skip (Steps.mem_settle_of_ne member different) kept)

@[simp] theorem map_type_resolved {settled skipped : Stamps} {outcome : Outcome}
    {steps : List Step} :
    (outcome.resolved settled skipped steps).map Step.type = steps.map Step.type := by
  cases outcome with
  | prepared preparation => rfl
  | ran type result => simp [resolved]

end Outcome

end Workflow
