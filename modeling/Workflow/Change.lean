import Workflow.Failure
import Workflow.Update

/-!
# Staged changes

Writes are collected as changes and committed as one batch, in the order in which
they were staged.  An update of a process carries the version it expects to find,
and the version it writes is always larger.
-/

namespace Workflow

inductive Change where
  | insertProcess (process : Process)
  | insertStep (step : Step)
  | updateProcess (process : Uuid) (expected : Int) (update : ProcessUpdate)
  | updateStep (step : Uuid) (update : StepUpdate) (changed : Timestamp)
  | deleteStep (step : Uuid)
deriving DecidableEq, Repr

/-- The changes of one commit, in the order in which they were staged. -/
abbrev Batch := List Change

namespace Change

/-- The update of a process, refused unless it raises the version. -/
def guardedUpdate (process : Uuid) (expected : Int) (update : ProcessUpdate) :
    Except Failure Change :=
  if update.version ≤ expected then .error .versionNotRaised
  else .ok (.updateProcess process expected update)

/-- Updates of steps as changes, each of which records a reading of its own. -/
def ofUpdates (clock : Readings) (updates : List (Uuid × StepUpdate)) : Batch :=
  (clock.stamp updates).map fun ((step, update), now) => .updateStep step update now

variable {clock : Readings} {first second updates : List (Uuid × StepUpdate)}

@[simp] theorem ofUpdates_nil : ofUpdates clock [] = [] := rfl

theorem ofUpdates_cons {entry : Uuid × StepUpdate} : ofUpdates clock (entry :: updates) =
    .updateStep entry.1 entry.2 (clock 0) :: ofUpdates (clock.after 1) updates := rfl

theorem ofUpdates_append : ofUpdates clock (first ++ second) =
    ofUpdates clock first ++ ofUpdates (clock.after first.length) second := by
  rw [ofUpdates, Readings.stamp_append, List.map_append, ofUpdates, ofUpdates]

theorem mem_ofUpdates {change : Change} (member : change ∈ ofUpdates clock updates) :
    ∃ entry ∈ updates, ∃ now, change = .updateStep entry.1 entry.2 now := by
  obtain ⟨entry, inStamped, rfl⟩ := List.mem_map.mp member
  exact ⟨entry.1, Readings.mem_of_mem_stamp inStamped, entry.2, rfl⟩

end Change

end Workflow
