import Mathlib.Logic.Function.Basic
import Workflow.Proofs.Drain.Outcome
import Workflow.Proofs.Rows.Keyed

/-!
# Verdicts on pending steps

Resolving types one after the other decides what becomes of every pending step.  The
first decision on a type is final: its steps are no longer pending, so resolving the
type once more changes nothing.  Up to the times at which steps are written, the steps
in the end depend only on the verdict on each type, not on the order of the decisions.
-/

namespace Workflow

/-- The step without the times at which it was written. -/
def Step.undated (step : Step) : Step :=
  { step with created := ⟨0, 0⟩, changed := none }

/-- The pending steps that are new for some types, each under its identifier, without the
times at which they were written. -/
def Steps.scheduled (process : Uuid) (entries : List (StepType × Uuid)) : List Step :=
  entries.map fun (type, id) => .fresh id type .todo process ⟨0, 0⟩

theorem Steps.map_undated_freshEach {process : Uuid} {clock : Readings}
    {entries : List (StepType × Uuid)} :
    (Step.freshEach process clock entries).map Step.undated = scheduled process entries := by
  have stamped : (clock.stamp entries).map Prod.fst = entries := Readings.map_fst_stamp
  conv_rhs => rw [← stamped]
  rw [Step.freshEach, scheduled, List.map_map, List.map_map]
  rfl

/-- What is decided on the pending steps of each type, if anything is. -/
abbrev Verdict := StepType → Option StepStatus

namespace Verdict

/-- The verdict that decides on one type only. -/
def only (type : StepType) (status : StepStatus) : Verdict :=
  Function.update (fun _ => none) type (some status)

/-- Types that are still undecided are skipped. -/
def skip (types : List StepType) (verdict : Verdict) : Verdict :=
  fun type => (verdict type).or (if type ∈ types then some .skipped else none)

/-- No step stays pending by decision. -/
def IsFinal (verdict : Verdict) : Prop :=
  ∀ type, verdict type ≠ some .todo

/-- The status that a decision gives to one of some steps: of its type the oldest pending
step gets it, and the others become duplicates. -/
def statusOf (steps : List Step) (status : StepStatus) (step : Step) : StepStatus :=
  if (Steps.due step.type steps).head? = some step then status else .duplicate

/-- A step of some steps after the decision on its type. -/
def apply (verdict : Verdict) (steps : List Step) (step : Step) : Step :=
  match verdict step.type with
  | some status =>
    if step.isPending then { step with status := some (statusOf steps status step) } else step
  | none => step

/-- Up to times, the steps are the original ones after the decisions.  Steps of an
undecided type have not been written. -/
def Settles (verdict : Verdict) (origin steps : List Step) : Prop :=
  List.Forall₂ (fun before after =>
    after.undated = (verdict.apply origin before).undated ∧
      (verdict before.type = none → after = before)) origin steps

variable {verdict other : Verdict} {origin steps : List Step} {before after : Step}
  {type : StepType} {status : StepStatus} {now : Timestamp}

theorem isFinal_only (ended : status ≠ .todo) : (only type status).IsFinal := by
  intro other
  rw [only]
  by_cases same : other = type <;> simp [same, ended]

theorem IsFinal.skip (final : verdict.IsFinal) (types : List StepType) :
    (verdict.skip types).IsFinal := by
  intro type
  have decided := final type
  rw [Verdict.skip]
  cases found : verdict type with
  | some status => simpa [found] using decided
  | none =>
      rw [Option.none_or]
      split <;> simp

theorem skip_cons (types : List StepType) :
    verdict.skip (type :: types) = (verdict.skip [type]).skip types := by
  funext other
  rw [skip, skip, skip]
  cases verdict other with
  | some status => rfl
  | none =>
      by_cases same : other = type <;> simp [same]

theorem skip_eq_update (undecided : verdict type = none) :
    verdict.skip [type] = Function.update verdict type (some .skipped) := by
  funext other
  rw [skip]
  by_cases same : other = type
  · simp [same, undecided]
  · simp [same]

theorem skip_eq_self (decided : verdict type = some status) : verdict.skip [type] = verdict := by
  funext other
  rw [skip]
  by_cases same : other = type
  · simp [same, decided]
  · simp [same]

@[simp] theorem type_apply : (verdict.apply origin before).type = before.type := by
  rw [apply]
  split
  · split <;> rfl
  · rfl

theorem type_eq_of_undated (same : after.undated = (verdict.apply origin before).undated) :
    after.type = before.type := by
  have sameType : after.undated.type = (verdict.apply origin before).undated.type :=
    congrArg Step.type same
  exact sameType.trans type_apply

theorem not_isPending_of_decided (final : verdict.IsFinal)
    (same : after.undated = (verdict.apply origin before).undated)
    (decided : verdict before.type = some status) : ¬after.isPending := by
  have sameStatus : after.status = (verdict.apply origin before).status :=
    (congrArg Step.status same : after.undated.status = _)
  rw [Step.isPending, sameStatus, apply, decided]
  by_cases pending : before.isPending
  · have ended : status ≠ .todo := fun isTodo => final before.type (isTodo ▸ decided)
    simp only [pending, if_true, statusOf]
    split <;> simp [ended]
  · simp only [pending, Bool.false_eq_true, if_false]
    exact pending

/-! ### Decisions one after the other -/

theorem settles_refl (steps : List Step) : Settles (fun _ => none) steps steps :=
  List.forall₂_same.mpr fun _ _ => ⟨rfl, fun _ => rfl⟩

theorem Settles.map_undated (settles : verdict.Settles origin steps) :
    steps.map Step.undated = (origin.map (verdict.apply origin)).map Step.undated := by
  rw [List.map_map, ← List.forall₂_eq_eq_eq, List.forall₂_map_left_iff,
    List.forall₂_map_right_iff]
  exact settles.flip.imp fun _ _ related => related.1

theorem Settles.due_of_undecided (settles : verdict.Settles origin steps)
    (undecided : verdict type = none) : Steps.due type steps = Steps.due type origin := by
  have sameDue : steps.filter (Step.isDue type) = origin.filter (Step.isDue type) := by
    refine filter_eq_of_forall₂ settles ?_
    intro before after related
    by_cases grouped : before.type = type
    · exact .inl (related.2 (grouped ▸ undecided))
    · refine .inr ⟨?_, ?_⟩ <;> rw [Bool.eq_false_iff] <;> intro isDue
      · exact grouped (Step.isDue_iff.mp isDue).2
      · exact grouped ((type_eq_of_undated related.1).symm.trans (Step.isDue_iff.mp isDue).2)
  rw [Steps.due, Steps.due, sameDue]

/-- A type that has been decided on is due no more. -/
theorem Settles.due_of_decided (settles : verdict.Settles origin steps) (final : verdict.IsFinal)
    (decided : verdict type = some status) : Steps.due type steps = [] := by
  have undue : ∀ after ∈ steps, ¬after.isDue type := by
    intro after member isDue
    have decidedOn : after.undated ∈ (origin.map (verdict.apply origin)).map Step.undated :=
      settles.map_undated ▸ List.mem_map_of_mem member
    rw [List.map_map] at decidedOn
    obtain ⟨before, _, related⟩ := List.mem_map.mp decidedOn
    obtain ⟨isPending, grouped⟩ := Step.isDue_iff.mp isDue
    rw [type_eq_of_undated related.symm] at grouped
    exact not_isPending_of_decided final related.symm (grouped ▸ decided) isPending
  rw [Steps.due, List.filter_eq_nil_iff.mpr undue, oldestFirst, List.mergeSort_nil]

/-- To resolve an undecided type is to decide on it. -/
theorem Settles.resolve (settles : verdict.Settles origin steps) (undecided : verdict type = none)
    (status : StepStatus) (stamps : Stamps) :
    Settles (Function.update verdict type (some status)) origin
      (Steps.resolve stamps type status none steps) := by
  rw [Steps.resolve, settles.due_of_undecided undecided, Settles, List.forall₂_map_right_iff]
  refine List.Forall₂.imp ?_ settles
  intro before after related
  by_cases grouped : before.type = type
  · obtain rfl : after = before := related.2 (grouped ▸ undecided)
    refine ⟨?_, fun none => by simp [grouped] at none⟩
    by_cases pending : after.isPending
    · simp [Step.resolve, Step.isDue, apply, statusOf, pending, grouped, Step.undated,
        StepUpdate.apply, StepUpdate.resolve]
    · simp [Step.resolve, Step.isDue, apply, pending, grouped]
  · have undue : ¬after.isDue type := by
      intro isDue
      exact grouped ((type_eq_of_undated related.1).symm.trans (Step.isDue_iff.mp isDue).2)
    rw [Step.resolve_of_not_isDue undue, apply, Function.update_of_ne grouped]
    exact related

/-- To skip types is to decide on those that are undecided. -/
theorem Settles.skip (settles : verdict.Settles origin steps) (final : verdict.IsFinal)
    (types : List StepType) (stamps : Stamps) :
    (verdict.skip types).Settles origin (Steps.skip stamps types steps) := by
  induction types generalizing verdict steps with
  | nil =>
      have unchanged : verdict.skip [] = verdict := by
        funext type
        simp [Verdict.skip]
      exact unchanged.symm ▸ settles
  | cons type types induction =>
      rw [skip_cons]
      refine induction ?_ (final.skip [type])
      change (verdict.skip [type]).Settles origin (Steps.resolve stamps type .skipped none steps)
      cases found : verdict type with
      | some status =>
          rw [skip_eq_self found, Steps.resolve_of_due_eq_nil (settles.due_of_decided final found)]
          exact settles
      | none =>
          rw [skip_eq_update found]
          exact settles.resolve found .skipped stamps

theorem map_apply_congr
    (agree : ∀ step ∈ steps, step.isPending → verdict step.type = other step.type) :
    steps.map (verdict.apply steps) = steps.map (other.apply steps) := by
  apply List.map_congr_left
  intro step member
  rw [apply, apply]
  by_cases pending : step.isPending
  · rw [agree step member pending]
  · cases verdict step.type <;> cases other step.type <;> simp [pending]

end Verdict

end Workflow
