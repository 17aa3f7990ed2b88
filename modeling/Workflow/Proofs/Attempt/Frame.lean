import Workflow.Proofs.Attempt.Contract
import Workflow.Proofs.Rows.Frame

/-!
# What a worker leaves alone

A worker changes the row of no process but the one that it holds, as long as executors
change none.  What it saves therefore leaves the rows of all other processes as they
are.
-/

namespace Workflow

/-- Executors change the rows of no processes. -/
def Habits.SpareProcesses (habits : Habits) : Prop :=
  ∀ change, habits.mayStage change → change.concernsProcess = false

theorem Habits.silent_spareProcesses : silent.SpareProcesses := fun _ => False.elim

namespace Scene

variable {habits : Habits} {scene next : Scene} {request : Request} {reply : request.Reply}

/-- Of all processes, what is staged changes only the row of the one that is held. -/
def IsTidy (scene : Scene) : Prop :=
  Batch.ChangesOnly scene.held.id scene.staged

theorem isTidy_of_unstaged (unstaged : scene.staged = []) : scene.IsTidy := by
  rw [IsTidy, unstaged]
  exact Batch.changesOnly_nil

theorem IsTidy.of_station (tidy : scene.IsTidy)
    (same : next.toStation = scene.toStation) : next.IsTidy := by
  have sameHeld : next.held = scene.held := congrArg Station.held same
  have sameStaged : next.staged = scene.staged := congrArg Station.staged same
  rw [IsTidy, sameHeld, sameStaged]
  exact tidy

theorem IsTidy.stage (tidy : scene.IsTidy) {batch : Batch}
    (spares : ∀ change ∈ batch, change.concernsProcess = false) : (scene.stage batch).IsTidy :=
  Batch.ChangesOnly.append tidy (Batch.changesOnly_of_sparing spares)

theorem IsTidy.answer (tidy : scene.IsTidy) (spares : habits.SpareProcesses)
    (mayAsk : scene.MayAsk habits request)
    (answers : scene.Answers habits request reply next) : next.IsTidy := by
  cases request with
  | hold _ => cases mayAsk
  | note _ | now | isCancelled | discover _ | eligiblePage _ _ _ | consult _ =>
      obtain rfl := answers
      exact tidy
  | discard =>
      obtain rfl := answers
      exact isTidy_of_unstaged rfl
  | held =>
      obtain ⟨_, rfl⟩ := answers
      exact tidy
  | lease operation =>
      simp only [Answers] at answers
      split at answers
      · rename_i performed
        obtain ⟨_, rfl⟩ := answers
        have follows := LeaseOp.follows_of_perform performed
        have sameId := follows.id_eq
        refine Batch.ChangesOnly.append (sameId ▸ tidy) ?_
        intro change member _
        obtain ⟨update, rfl⟩ := follows.member member
        exact ⟨_, update, by rw [← sameId]; rfl⟩
      · obtain ⟨_, rfl⟩ := answers
        exact tidy
  | pendingSteps _ | stepTypes _ =>
      obtain ⟨_, _, rfl⟩ := answers
      exact tidy
  | stageUpdates _ =>
      obtain ⟨now, rfl⟩ := answers
      apply tidy.stage
      intro change member
      obtain ⟨_, _, rfl⟩ := List.mem_map.mp member
      rfl
  | stageStep _ _ =>
      obtain ⟨now, rfl⟩ := answers
      apply tidy.stage
      simp [Change.concernsProcess]
  | prepare _ _ _ | needsLease _ _ | execute _ _ _ _ =>
      obtain ⟨_, batch, allowed, rfl⟩ := answers
      exact tidy.stage fun change member => spares change (allowed change member)
  | save =>
      cases reply with
      | error failure =>
          obtain ⟨left, origin, rfl⟩ := answers
          rcases origin with rfl | rfl
          · exact isTidy_of_unstaged rfl
          · exact tidy
      | ok _ =>
          obtain ⟨_, _, rfl⟩ := answers
          exact isTidy_of_unstaged rfl

/-- A committed save raises the version of the process that is held. -/
theorem MaySave.version_lt (maySave : scene.MaySave habits) (tidy : scene.IsTidy) {after : Rows}
    (commits : scene.Commits habits after) {stored : Process}
    (found : scene.rows.process? scene.held.id = some stored) :
    ∃ final, after.process? scene.held.id = some final ∧ stored.version < final.version := by
  obtain ⟨final, followed, finalFound⟩ := Rows.process?_commit commits.1 found
  have storedId := Rows.id_of_process? found
  refine ⟨final, finalFound, ?_⟩
  apply Batch.version_lt_of_processAfter? maySave.raises ?_ followed (storedId ▸ maySave.updates)
  rw [tidy.insertedProcesses_eq]
  simp

end Scene

end Workflow
