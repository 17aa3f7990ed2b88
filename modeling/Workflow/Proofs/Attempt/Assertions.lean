import Workflow.Proofs.Attempt.Contract
import Workflow.Proofs.Drain.Preview

/-!
# Assertions about an attempt

What holds at the stations of an attempt: before anything has been saved, while the
lease is held, right after a change of the held copy has been staged, and after a
save has failed.  None of it can be destroyed by others.

The copy of a worker is *anchored*: the stored process is at least as new as the
copy, and equal to it if it has the same version.  A batch that expects the version
of the copy is therefore committed only if nobody else has written in the meantime.
-/

namespace Workflow

namespace Scene

variable {habits : Habits} {id : Uuid} {scene later : Scene} {agenda : Agenda}
  {lease : Field (Option Timestamp)} {assertion : Scene → Prop} {now : Timestamp}

/-- Nothing has been staged or saved, and the copy is not leased at the last reading
of the clock. -/
structure Beginning (id : Uuid) (scene : Scene) : Prop where
  keyed : scene.rows.Keyed
  holds : scene.held.id = id
  anchored : scene.rows.Anchors scene.held
  unstaged : scene.staged = []
  unsaved : scene.saves = []

/-- The beginning, after the clock has shown that the copy is not leased. -/
structure Free (id : Uuid) (now : Timestamp) (scene : Scene) : Prop extends Beginning id scene where
  reading : scene.reading = some now
  free : scene.held.isLeased now = false

/-- All saves were committed, and the copy is leased and as the last of them left
the process. -/
structure Leased (habits : Habits) (id : Uuid) (scene : Scene) : Prop where
  keyed : scene.rows.Keyed
  holds : scene.held.id = id
  anchored : scene.rows.Anchors scene.held
  leased : scene.held.lease.isSome
  raises : Batch.Raises scene.staged
  inserts : (∃ process, process ∈ Batch.insertedProcesses scene.staged) → habits.newIds
  saves : ∃ rows earlier, scene.saves = .committed rows :: earlier ∧
    (∀ saved ∈ earlier, saved.isCommitted) ∧ rows.process? id = some scene.held

/-- The lease is held, and the agenda previews the process as long as nobody else has
written it. -/
structure Working (habits : Habits) (id : Uuid) (agenda : Agenda) (scene : Scene) : Prop
    extends Leased habits id scene where
  previews : habits.guarded → scene.rows.process? id = some scene.held →
    agenda.Previews id (scene.rows.owned id) scene.staged

/-- The last save failed, and the copy has a version that the worker has not stored. -/
structure Stranded (id : Uuid) (failure : Failure) (scene : Scene) : Prop where
  keyed : scene.rows.Keyed
  holds : scene.held.id = id
  saves : ∃ earlier, scene.saves = .failed failure :: earlier ∧
    (∀ saved ∈ earlier, saved.isCommitted) ∧
    ∀ rows older, earlier = .committed rows :: older →
      ∃ base, rows.process? id = some base ∧ base.lease.isSome ∧
        base.version < scene.held.version

/-- How an attempt stands after a failure. -/
inductive Broken (habits : Habits) (id : Uuid) (failure : Failure) (scene : Scene) : Prop where
  | unleased {now : Timestamp} (free : scene.Free id now)
  | leased (leased : scene.Leased habits id)
      (origin : habits.mayFail failure ∨ failure.IsSwallowed)
  | stranded (stranded : scene.Stranded id failure)

/-- If all saves were committed, the last of them left the process without a lease.
This is not certain where something may fail like a lost race or a cancellation. -/
def Returned (habits : Habits) (id : Uuid) (scene : Scene) : Prop :=
  (∀ failure, habits.mayFail failure → failure.IsSwallowed) →
    (∀ saved ∈ scene.saves, saved.isCommitted) →
      ∀ rows earlier, scene.saves = .committed rows :: earlier →
        ∃ base, rows.process? id = some base ∧ base.lease = none

/-- What an attempt leaves behind. -/
structure Ended (habits : Habits) (id : Uuid) (scene : Scene) : Prop where
  unstaged : scene.staged = []
  returned : scene.Returned habits id

/-- The scene after one more update of the copy has been staged. -/
def update (scene : Scene) (lease : Field (Option Timestamp)) : Scene :=
  (scene.hold { scene.held with
    version := scene.held.version + 1
    lease := lease.apply scene.held.lease }).stage
    [.updateProcess scene.held.id scene.held.version ⟨scene.held.version + 1, lease⟩]

/-- An assertion held before the last update of the copy. -/
def Updated (assertion : Scene → Prop) (lease : Field (Option Timestamp)) (scene : Scene) :
    Prop :=
  ∃ before, assertion before ∧ scene = before.update lease

/-! ### Stability -/

theorem stable_beginning : Stable habits (Beginning id) := by
  intro scene later begins meanwhile
  have advanced := meanwhile.rows
  constructor
  · exact advanced.keyed begins.keyed
  · exact meanwhile.held ▸ begins.holds
  · exact meanwhile.held ▸ begins.anchored.advance advanced
  · exact meanwhile.staged ▸ begins.unstaged
  · exact meanwhile.saves ▸ begins.unsaved

theorem stable_free : Stable habits (Free id now) := by
  intro scene later free meanwhile
  refine ⟨stable_beginning _ _ free.toBeginning meanwhile, ?_, ?_⟩
  · exact meanwhile.reading ▸ free.reading
  · exact meanwhile.held ▸ free.free

theorem stable_leased : Stable habits (Leased habits id) := by
  intro scene later leased meanwhile
  have advanced := meanwhile.rows
  constructor
  · exact advanced.keyed leased.keyed
  · exact meanwhile.held ▸ leased.holds
  · exact meanwhile.held ▸ leased.anchored.advance advanced
  · exact meanwhile.held ▸ leased.leased
  · exact meanwhile.staged ▸ leased.raises
  · exact meanwhile.staged ▸ leased.inserts
  · exact meanwhile.held ▸ meanwhile.saves ▸ leased.saves

/-- If the copy of a lease holder is current, nobody else has written. -/
theorem Leased.current_of_meanwhile (leased : scene.Leased habits id)
    (meanwhile : scene.Meanwhile habits later)
    (current : later.rows.process? id = some later.held) :
    scene.rows.process? id = some scene.held ∧
      (habits.guarded → later.rows.owned id = scene.rows.owned id) := by
  have holds := leased.holds
  subst holds
  rw [meanwhile.held] at current
  exact leased.anchored.current_of_advances meanwhile.rows current

theorem stable_working : Stable habits (Working habits id agenda) := by
  intro scene later working meanwhile
  refine ⟨stable_leased _ _ working.toLeased meanwhile, ?_⟩
  intro guarded current
  obtain ⟨before, sameSteps⟩ := working.current_of_meanwhile meanwhile current
  rw [sameSteps guarded, meanwhile.staged]
  exact working.previews guarded before

theorem stable_stranded {failure : Failure} : Stable habits (Stranded id failure) := by
  intro scene later stranded meanwhile
  constructor
  · exact meanwhile.rows.keyed stranded.keyed
  · exact meanwhile.held ▸ stranded.holds
  · exact meanwhile.held ▸ meanwhile.saves ▸ stranded.saves

theorem stable_broken {failure : Failure} : Stable habits (Broken habits id failure) := by
  intro scene later broken meanwhile
  cases broken with
  | unleased free => exact .unleased (stable_free _ _ free meanwhile)
  | leased leased origin => exact .leased (stable_leased _ _ leased meanwhile) origin
  | stranded stranded => exact .stranded (stable_stranded _ _ stranded meanwhile)

theorem stable_returned : Stable habits (Returned habits id) := by
  intro scene later returned meanwhile
  rw [Returned, meanwhile.saves]
  exact returned

theorem stable_ended : Stable habits (Ended habits id) := fun _ _ ended meanwhile =>
  ⟨meanwhile.staged.trans ended.unstaged, stable_returned _ _ ended.returned meanwhile⟩

theorem Stable.and {other : Scene → Prop} (first : Stable habits assertion)
    (second : Stable habits other) : Stable habits fun scene => assertion scene ∧ other scene :=
  fun _ _ holds meanwhile => ⟨first _ _ holds.1 meanwhile, second _ _ holds.2 meanwhile⟩

theorem stable_unstaged : Stable habits fun scene => scene.staged = [] :=
  fun _ _ unstaged meanwhile => meanwhile.staged.trans unstaged

theorem stable_reading : Stable habits fun scene => scene.reading = some now :=
  fun _ _ reading meanwhile => meanwhile.reading.trans reading

theorem Stable.discard (stable : Stable habits assertion) :
    Stable habits fun scene => assertion scene.discard := by
  intro scene later holds meanwhile
  refine stable _ _ holds ⟨?_, meanwhile.rows⟩
  exact congrArg (fun station : Station => { station with staged := [] }) meanwhile.station

theorem stable_updated (stable : Stable habits assertion) :
    Stable habits (Updated assertion lease) := by
  intro scene later holds meanwhile
  obtain ⟨before, holds, rfl⟩ := holds
  refine ⟨{ before with rows := later.rows }, stable _ _ holds ⟨rfl, meanwhile.rows⟩, ?_⟩
  have station := meanwhile.station
  cases later
  simp only at station
  subst station
  rfl

/-! ### Small changes -/

theorem Leased.holdsLease (leased : scene.Leased habits id) : scene.HoldsLease := by
  obtain ⟨rows, earlier, saves, succeeded, found⟩ := leased.saves
  exact ⟨leased.leased, rows, earlier, saves, succeeded, leased.holds.symm ▸ found⟩

theorem Leased.discard (leased : scene.Leased habits id) : scene.discard.Leased habits id where
  keyed := leased.keyed
  holds := leased.holds
  anchored := leased.anchored
  leased := leased.leased
  raises := by simp [Scene.discard, Batch.Raises]
  inserts := by simp [Scene.discard]
  saves := leased.saves

theorem Broken.discard {failure : Failure} (broken : scene.Broken habits id failure) :
    scene.discard.Broken habits id failure := by
  cases broken with
  | @unleased now free =>
      have unstaged : scene.discard.Free id now := { free with unstaged := rfl }
      exact .unleased unstaged
  | leased leased origin => exact .leased leased.discard origin
  | stranded stranded => exact .stranded ⟨stranded.keyed, stranded.holds, stranded.saves⟩

theorem Working.read (working : scene.Working habits id agenda) (now : Timestamp) :
    (scene.read now).Working habits id agenda :=
  { working with }

theorem Working.stage (working : scene.Working habits id agenda) {batch : Batch}
    {next : Agenda} (raises : Batch.Raises batch)
    (inserts : (∃ process, process ∈ Batch.insertedProcesses batch) → habits.newIds)
    (previews : habits.guarded → ∀ owned, agenda.Previews id owned scene.staged →
      next.Previews id owned (scene.staged ++ batch)) :
    (scene.stage batch).Working habits id next where
  keyed := working.keyed
  holds := working.holds
  anchored := working.anchored
  leased := working.leased
  raises := working.raises.append raises
  inserts := by
    intro inserted
    obtain ⟨process, member⟩ := inserted
    rw [Scene.stage, Batch.insertedProcesses_append, List.mem_append] at member
    rcases member with before | added
    · exact working.inserts ⟨process, before⟩
    · exact inserts ⟨process, added⟩
  saves := working.saves
  previews := fun guarded current =>
    previews guarded _ (working.previews guarded current)

theorem returned_of_unsaved (unsaved : scene.saves = []) : scene.Returned habits id := by
  intro _ _ rows earlier saves
  rw [unsaved] at saves
  cases saves

theorem Stranded.returned {failure : Failure} (stranded : scene.Stranded id failure) :
    scene.Returned habits id := by
  intro _ succeeded
  obtain ⟨earlier, saves, _⟩ := stranded.saves
  have committed := succeeded (.failed failure) (saves ▸ List.mem_cons_self)
  cases committed

/-- Only a lost race or a cancellation leaves the lease where it is. -/
theorem Broken.returned {failure : Failure} (broken : scene.Broken habits id failure)
    (passed : ¬failure.IsSwallowed) : scene.Returned habits id := by
  cases broken with
  | unleased free => exact returned_of_unsaved free.unsaved
  | leased leased origin =>
      intro harmless
      rcases origin with mayFail | swallowed
      · exact absurd (harmless failure mayFail) passed
      · exact absurd swallowed passed
  | stranded stranded => exact stranded.returned

/-- Whoever has broken off without a lease has given it back. -/
theorem Broken.returned_of_not_leased {failure : Failure}
    (broken : scene.Broken habits id failure) (unleased : ¬scene.held.lease.isSome) :
    scene.Returned habits id := by
  cases broken with
  | unleased free => exact returned_of_unsaved free.unsaved
  | leased leased => exact absurd leased.leased unleased
  | stranded stranded => exact stranded.returned

/-! ### Saving an update -/

variable {before : Scene} {after : Rows} {failure : Failure} {left : Batch}

theorem staged_update : (before.update lease).staged = before.staged ++
    [.updateProcess before.held.id before.held.version
      ⟨before.held.version + 1, lease⟩] := rfl

theorem raises_update (raises : Batch.Raises before.staged) :
    Batch.Raises (before.update lease).staged := by
  apply raises.append
  intro target expected update member
  simp only [List.mem_singleton, Change.updateProcess.injEq] at member
  obtain ⟨_, rfl, rfl⟩ := member
  exact Int.lt_succ before.held.version

theorem updates_update : Batch.Updates before.held.id (before.update lease).staged :=
  ⟨_, _, List.mem_append_right _ (List.mem_singleton.mpr rfl)⟩

theorem insertedProcesses_update :
    Batch.insertedProcesses (before.update lease).staged =
      Batch.insertedProcesses before.staged := by
  simp [staged_update, Batch.insertedProcesses]

/-- An update of an anchored copy is committed only if the copy is current, and then
the stored process becomes the updated copy. -/
theorem process?_of_commits_update (anchored : before.rows.Anchors before.held)
    (raises : Batch.Raises before.staged)
    (inserts : (∃ process, process ∈ Batch.insertedProcesses before.staged) → habits.newIds)
    (commits : (before.update lease).Commits habits after) :
    before.rows.process? before.held.id = some before.held ∧
      after.process? before.held.id = some (before.update lease).held := by
  obtain ⟨committed, fresh⟩ := commits
  obtain ⟨stored, found, older, same⟩ := anchored
  have storedId : stored.id = before.held.id := Rows.id_of_process? found
  have kept : ∀ inserted ∈ Batch.insertedProcesses before.staged, inserted.id ≠ stored.id := by
    intro inserted member equal
    refine (fresh (inserts ⟨inserted, member⟩)).processes inserted ?_ ?_
    · rwa [insertedProcesses_update]
    · exact equal ▸ List.mem_map_of_mem (findRow?_eq_some found).1
  obtain ⟨final, followed, finalFound⟩ := Rows.process?_commit committed found
  rw [staged_update, Batch.processAfter?_append, Option.bind_eq_some_iff] at followed
  obtain ⟨middle, first, last⟩ := followed
  have middleId : middle.id = before.held.id := (Batch.id_of_processAfter? first).trans storedId
  rw [Batch.processAfter?_cons, Option.bind_eq_some_iff] at last
  obtain ⟨updated, changed, reached⟩ := last
  obtain rfl : updated = final := Option.some.inj reached
  simp only [Change.processAfter?, middleId, if_true] at changed
  split at changed
  · rename_i expected
    cases changed
    -- The copy is at least as new as what the earlier changes leave, so these change nothing.
    obtain ⟨firstLe, firstSame⟩ := Batch.version_le_of_processAfter? raises kept first
    obtain rfl : middle = stored := firstSame (by omega)
    obtain rfl : middle = before.held := same expected
    exact ⟨found, finalFound⟩
  · cases changed

/-- What is staged besides the update respects the steps, and so does the whole. -/
theorem Working.respects_update (working : before.Working habits id agenda)
    (guarded : habits.guarded) (commits : (before.update lease).Commits habits after) :
    Batch.Respects id (before.rows.owned id) (before.update lease).staged ∧
      agenda.Depicts (Batch.overlay (before.update lease).staged (before.rows.owned id)) := by
  have holds := working.holds
  subst holds
  obtain ⟨current, _⟩ :=
    process?_of_commits_update working.anchored working.raises working.inserts commits
  have concerned : ∀ change ∈ [Change.updateProcess before.held.id before.held.version
      ⟨before.held.version + 1, lease⟩], change.concernsProcess := by
    simp [Change.concernsProcess]
  have unique : ((Batch.overlay (before.update lease).staged
      (before.rows.owned before.held.id)).map Step.id).Nodup :=
    (commits.fresh guarded).overlay_unique working.keyed
  rw [staged_update, Batch.overlay_append_of_concernsProcess concerned] at unique ⊢
  obtain ⟨respects, depicts⟩ := working.previews guarded current unique
  exact ⟨respects.append_of_concernsProcess concerned, depicts⟩

theorem Free.maySave_update {expiry : Option Timestamp} (free : before.Free id now) :
    (before.update (.write expiry)).MaySave habits := by
  have nothing : before.staged = [] := free.unstaged
  have raises : Batch.Raises before.staged := by simp [nothing, Batch.Raises]
  have noInserts : ¬∃ process, process ∈ Batch.insertedProcesses before.staged := by
    simp [nothing]
  refine ⟨raises_update raises, updates_update, ?_, ?_, .beginning now ?_ ?_ ?_ ?_⟩
  · rw [insertedProcesses_update]
    exact fun inserts => absurd inserts noInserts
  · intro _ _ _
    apply Batch.Respects.of_concernsProcess
    simp [staged_update, nothing, Change.concernsProcess]
  · exact free.unsaved
  · exact free.reading
  · simp only [staged_update, nothing, Batch.writesLease, Change.writesLease, List.nil_append,
      List.any_cons, List.any_nil, Bool.or_false, beq_iff_eq]
    rfl
  · intro after commits
    obtain ⟨current, _⟩ := process?_of_commits_update free.anchored raises
      (fun inserts => absurd inserts noInserts) commits
    exact ⟨before.held, current, free.free⟩

theorem Leased.maySave_update (leased : before.Leased habits id)
    (respects : habits.guarded → ∀ after, (before.update lease).Commits habits after →
      Batch.Respects id (before.rows.owned id) (before.update lease).staged) :
    (before.update lease).MaySave habits := by
  have holds := leased.holds
  subst holds
  obtain ⟨rows, earlier, saves, succeeded, found⟩ := leased.saves
  refine ⟨raises_update leased.raises, updates_update, ?_, respects,
    .going saves succeeded found leased.leased ?_⟩
  · rw [insertedProcesses_update]
    exact leased.inserts
  · intro after commits
    exact (process?_of_commits_update leased.anchored leased.raises leased.inserts commits).1

theorem Leased.maySave_update_of_unstaged (leased : before.Leased habits id)
    (unstaged : before.staged = []) : (before.update lease).MaySave habits := by
  apply leased.maySave_update
  intro _ _ _
  apply Batch.Respects.of_concernsProcess
  simp [staged_update, unstaged, Change.concernsProcess]

theorem Stranded.maySave_update (stranded : before.Stranded id failure)
    (nothing : before.staged = [])
    (swallowed : failure.IsSwallowed) : (before.update (.write none)).MaySave habits := by
  have holds := stranded.holds
  subst holds
  obtain ⟨earlier, saves, succeeded, unstored⟩ := stranded.saves
  have alone : (before.update (.write none)).staged =
      [.updateProcess before.held.id before.held.version
        ⟨before.held.version + 1, .write none⟩] := by
    simp [staged_update, nothing]
  refine ⟨raises_update ?_, updates_update, ?_, ?_,
    .ending saves succeeded swallowed alone unstored⟩
  · simp [nothing, Batch.Raises]
  · simp [insertedProcesses_update, nothing]
  · intro _ _ _
    apply Batch.Respects.of_concernsProcess
    simp [alone, Change.concernsProcess]

theorem Working.maySave_update (working : before.Working habits id agenda) :
    (before.update lease).MaySave habits :=
  working.toLeased.maySave_update fun guarded _ commits =>
    (working.respects_update guarded commits).1

theorem leased_commit_update (keyed : before.rows.Keyed) (holds : before.held.id = id)
    (succeeded : ∀ saved ∈ before.saves, saved.isCommitted)
    (leased : (before.update lease).held.lease.isSome)
    (commits : (before.update lease).Commits habits after)
    (found : after.process? id = some (before.update lease).held) :
    ((before.update lease).commit after).Leased habits id where
  keyed := Rows.keyed_commit keyed commits.1
  holds := holds
  anchored := Rows.anchors_of_process? found
  leased := leased
  raises := by simp [Batch.Raises, commit]
  inserts := by simp [commit]
  saves := ⟨after, before.saves, rfl, succeeded, found⟩

theorem Free.commit {expiry : Timestamp} (free : before.Free id now)
    (commits : (before.update (.write (some expiry))).Commits habits after) :
    ((before.update (.write (some expiry))).commit after).Leased habits id := by
  have holds := free.holds
  subst holds
  have nothing : before.staged = [] := free.unstaged
  obtain ⟨_, found⟩ := process?_of_commits_update free.anchored
    (by simp [nothing, Batch.Raises]) (by simp [nothing]) commits
  refine leased_commit_update free.keyed rfl ?_ rfl commits found
  simp [free.unsaved]

/-- While the lease is held, a committed unit of work becomes what the agenda depicts. -/
theorem Working.commit (working : before.Working habits id agenda)
    (leased : (before.update lease).held.lease.isSome)
    (commits : (before.update lease).Commits habits after) :
    ((before.update lease).commit after).Working habits id agenda := by
  have holds := working.holds
  subst holds
  obtain ⟨rows, earlier, saves, succeeded, _⟩ := working.saves
  obtain ⟨_, found⟩ :=
    process?_of_commits_update working.anchored working.raises working.inserts commits
  refine ⟨leased_commit_update working.keyed rfl ?_ leased commits found, ?_⟩
  · simpa [saves, Saved.isCommitted] using succeeded
  · intro guarded _
    obtain ⟨respects, depicts⟩ := working.respects_update guarded commits
    obtain ⟨own, _⟩ :=
      Rows.owned_commit working.keyed (commits.fresh guarded) respects commits.1
    apply Agenda.Depicts.previews
    exact own ▸ depicts

theorem returned_commit (anchored : before.rows.Anchors before.held)
    (raises : Batch.Raises before.staged)
    (inserts : (∃ process, process ∈ Batch.insertedProcesses before.staged) → habits.newIds)
    (commits : (before.update (.write none)).Commits habits after) :
    ((before.update (.write none)).commit after).Returned habits before.held.id := by
  intro _ _ rows earlier saves
  cases saves
  exact ⟨_, (process?_of_commits_update anchored raises inserts commits).2, rfl⟩

theorem Leased.returned_commit (leased : before.Leased habits id)
    (commits : (before.update (.write none)).Commits habits after) :
    ((before.update (.write none)).commit after).Returned habits id := by
  have holds := leased.holds
  subst holds
  exact Scene.returned_commit leased.anchored leased.raises leased.inserts commits

theorem Broken.returned_commit (broken : before.Broken habits id failure)
    (commits : (before.update (.write none)).Commits habits after) :
    ((before.update (.write none)).commit after).Returned habits id := by
  cases broken with
  | unleased free =>
      have holds := free.holds
      subst holds
      have nothing : before.staged = [] := free.unstaged
      exact Scene.returned_commit free.anchored (by simp [nothing, Batch.Raises])
        (by simp [nothing]) commits
  | leased leased => exact leased.returned_commit commits
  | stranded stranded =>
      intro _ succeeded
      obtain ⟨earlier, saves, _⟩ := stranded.saves
      have committed := succeeded (.failed failure)
        (List.mem_cons_of_mem _ (saves ▸ List.mem_cons_self))
      cases committed

theorem returned_fail : (before.fail failure left).Returned habits id := by
  intro _ succeeded
  have committed := succeeded (.failed failure) List.mem_cons_self
  cases committed

theorem Free.fail (free : before.Free id now) :
    ((before.update lease).fail failure left).Stranded id failure where
  keyed := free.keyed
  holds := free.holds
  saves := ⟨before.saves, rfl, by simp [free.unsaved], by simp [free.unsaved]⟩

theorem Leased.fail (leased : before.Leased habits id) :
    ((before.update lease).fail failure left).Stranded id failure where
  keyed := leased.keyed
  holds := leased.holds
  saves := by
    obtain ⟨rows, earlier, saves, succeeded, found⟩ := leased.saves
    refine ⟨before.saves, rfl, ?_, ?_⟩
    · simpa [saves, Saved.isCommitted] using succeeded
    · intro last older same
      rw [saves] at same
      cases same
      exact ⟨before.held, found, leased.leased, Int.lt_succ before.held.version⟩

end Scene

end Workflow
