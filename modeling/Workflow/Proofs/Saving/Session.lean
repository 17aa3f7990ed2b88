import Workflow.Proofs.Saving.Stores
import Workflow.Proofs.Session.Attempt
import Workflow.Proofs.Tables.Agreement

/-!
# Saving what is staged

A participant of a session stages changes, saves them or clears them.  Until it saves, the
store does not change, and a save commits all that is staged or nothing.  Whatever becomes of
a save, nothing stays staged.
-/

namespace Workflow.Session

/-- The store keeps its rows itself, each under one identifier. -/
def Store.IsLocal : Store → Prop
  | .rows stored => stored.Keyed
  | .tables stored => stored.Keyed
  | .server _ => False

/-- All changes of a batch take place in a store, in order. -/
def Store.TakesAll (batch : Batch) : Store → Store → Prop
  | .rows stored, .rows after => stored.view.TakesAll Eq batch after.view
  | .tables stored, .tables after => stored.view.TakesAll Tables.ShowsTime batch after.view
  | _, _ => False

/-- No failure is due when the participant calls a method. -/
def Participant.CanCall (method : Method) (participant : Participant) : Prop :=
  (Act.countCall method participant.faults).2 = none

/-- What a participant stages takes place as a whole and in order, once it saves. -/
structure World.SavesInOrder (name : String) (world : World) : Prop where
  /-- All that is staged takes place, or a failure is reported and the store does not change. -/
  whole :
    ((Act.save name).run world).1 = .ok () ∧
        world.store.TakesAll (world.participant name).staged ((Act.save name).run world).2.store ∨
      ∃ failure, ((Act.save name).run world).1 = .error failure ∧
        ((Act.save name).run world).2.store = world.store
  /-- Rows in memory report nothing but a conflict, and exactly when there is one. -/
  conflict : ∀ rows, world.store = .rows rows →
    ((∃ failure, ((Act.save name).run world).1 = .error failure ∧ failure.isStale) ↔
        rows.view.Conflicts Eq (world.participant name).staged) ∧
      ∀ failure, ((Act.save name).run world).1 = .error failure → failure.isStale
  nothing_staged : (((Act.save name).run world).2.participant name).staged = []
  /-- Staging adds at the end of what is staged, and the store does not change by it. -/
  unseen : ∀ batch, ((Act.stage name batch).run world).2.store = world.store ∧
    (((Act.stage name batch).run world).2.participant name).staged =
      (world.participant name).staged ++ batch
  /-- After clearing, a save changes nothing. -/
  cleared :
    let cleared := ((Act.clear name).run world).2
    cleared.store = world.store ∧ (cleared.participant name).staged = [] ∧
      ((Act.save name).run cleared).1 = .ok () ∧
        ((Act.save name).run cleared).2.store = world.store

variable {name : String} {world : World} {store : Store} {batch : Batch}

/-- A local store commits a batch as a whole, or it reports a failure and stays as it is. -/
theorem Store.commit_run (isLocal : store.IsLocal) :
    let committed := (Store.commit batch).run.run store
    (committed.1 = .ok () ∧ store.TakesAll batch committed.2 ∧ committed.2.IsLocal) ∨
      ∃ failure, committed = (.error failure, store) := by
  cases store with
  | rows rows =>
      rw [Store.commit_rows]
      cases committed : rows.commit batch with
      | ok after =>
          rw [Rows.save_eq_ok_iff.mpr committed]
          exact .inl ⟨rfl, Rows.takesAll_of_commit committed, Rows.keyed_commit isLocal committed⟩
      | error failure =>
          rw [Rows.save_eq_error_iff.mpr ⟨committed, rfl⟩]
          exact .inr ⟨failure, rfl⟩
  | tables tables =>
      rw [Store.commit_tables]
      dsimp only
      rw [Tables.save]
      cases committed : tables.commit batch with
      | ok after =>
          obtain ⟨takes, keyed⟩ := Tables.takesAll_of_commit isLocal committed
          exact .inl ⟨rfl, takes, keyed⟩
      | error failure => exact .inr ⟨failure, rfl⟩
  | server connection => exact isLocal.elim

theorem Store.commit_nil_run (isLocal : store.IsLocal) :
    (Store.commit []).run.run store = (.ok (), store) := by
  cases store with
  | rows rows => rfl
  | tables tables => rfl
  | server connection => exact isLocal.elim

namespace Act

theorem call_run_of_canCall {α : Type} {method : Method} {action : Act (Except Failure α)}
    (canCall : (world.participant name).CanCall method) :
    ∃ faults, (Act.call name method action).run world =
      action.run (world.withParticipant { world.participant name with faults }) := by
  refine ⟨(countCall method (world.participant name).faults).1, ?_⟩
  have asked : (Act.participant name).run world = (world.participant name, world) := rfl
  have passed : ∀ {β γ : Type} (value : Id β) (next : β → Id γ), value >>= next = next value :=
    fun _ _ => rfl
  rw [Participant.CanCall] at canCall
  simp only [Act.call, StateT.run_bind, asked, passed, canCall]
  rfl

/-- The world in which nothing is staged by a participant any more, which is reported. -/
def unstaged (name : String) (world : World) : World :=
  let cleared := world.withParticipant { world.participant name with staged := [] }
  { cleared with log := cleared.log.push (.saving (world.participant name).staged.length) }

theorem saving_run :
    (Post.saving name).run world =
      if (world.participant name).staged.isEmpty then (.ok (), world)
      else (access (Store.commit (world.participant name).staged)).run (unstaged name world) := by
  have unfolded : (Post.saving name).run world =
      (if (world.participant name).staged.isEmpty then pure (.ok ()) else do
        setParticipant { world.participant name with staged := [] }
        note (.saving (world.participant name).staged.length)
        access (Store.commit (world.participant name).staged)
          : Act (Except Failure Unit)) world := rfl
  rw [unfolded]
  split <;> rfl

theorem unstaged_spec :
    (unstaged name world).store = world.store ∧
      ((unstaged name world).participant name).staged = [] := by
  let emptied : Participant := { world.participant name with staged := [] }
  have alike : (world.withParticipant emptied).Alike (unstaged name world) := ⟨rfl, rfl, rfl⟩
  have isNamed : emptied.name = name := World.participant_name
  constructor
  · exact alike.store.trans (World.store_withParticipant emptied)
  · rw [alike.participant_eq, World.participant_withParticipant isNamed]

/-- A save asks the store to commit what is staged, which is no longer staged by then. -/
theorem save_run (canCall : (world.participant name).CanCall .save) :
    ∃ cleared : World, cleared.store = world.store ∧ (cleared.participant name).staged = [] ∧
      ((world.participant name).staged = [] ∧ (save name).run world = (.ok (), cleared) ∨
        (world.participant name).staged ≠ [] ∧ (save name).run world =
          (access (Store.commit (world.participant name).staged)).run cleared) := by
  obtain ⟨faults, called⟩ := @call_run_of_canCall name world Unit .save (Post.saving name) canCall
  let participant : Participant := { world.participant name with faults }
  let calling : World := world.withParticipant participant
  have isNamed : participant.name = name := World.participant_name
  have sameStore : calling.store = world.store := World.store_withParticipant participant
  have isCalling : calling.participant name = participant :=
    World.participant_withParticipant isNamed
  have sameStaged : (calling.participant name).staged = (world.participant name).staged := by
    rw [isCalling]
  have saved : (save name).run world = (Post.saving name).run calling := called
  rw [saved, saving_run, sameStaged]
  cases staged : (world.participant name).staged with
  | nil => exact ⟨calling, sameStore, sameStaged.trans staged, .inl ⟨rfl, rfl⟩⟩
  | cons change batch =>
      obtain ⟨unchanged, nothing⟩ := @unstaged_spec name calling
      exact ⟨unstaged name calling, unchanged.trans sameStore, nothing,
        .inr ⟨List.cons_ne_nil change batch, rfl⟩⟩

theorem clear_spec :
    ((clear name).run world).2.store = world.store ∧
      (((clear name).run world).2.participant name).staged = [] ∧
      (((clear name).run world).2.participant name).faults = (world.participant name).faults := by
  obtain ⟨noted, alike, cleared | ⟨cleared, nothing⟩⟩ := @clear_run name world
  · let emptied : Participant := { noted.participant name with staged := [] }
    have isNamed : emptied.name = name := World.participant_name
    have isEmptied := @World.participant_withParticipant name noted emptied isNamed
    rw [cleared]
    refine ⟨(World.store_withParticipant emptied).trans alike.store,
      congrArg Participant.staged isEmptied, ?_⟩
    have sameFaults : (noted.participant name).faults = (world.participant name).faults :=
      congrArg Participant.faults (alike.participant_eq name)
    exact (congrArg Participant.faults isEmptied).trans sameFaults
  · rw [cleared]
    exact ⟨alike.store, nothing, congrArg Participant.faults (alike.participant_eq name)⟩

theorem stage_spec :
    ((stage name batch).run world).2.store = world.store ∧
      (((stage name batch).run world).2.participant name).staged =
        (world.participant name).staged ++ batch := by
  let added : Participant :=
    { world.participant name with staged := (world.participant name).staged ++ batch }
  have isNamed : added.name = name := World.participant_name
  have isAdded := @World.participant_withParticipant name world added isNamed
  rw [stage_run]
  constructor
  · exact World.store_withParticipant added
  · exact congrArg Participant.staged isAdded

/-- What a save reports and leaves is what the store answers to the batch. -/
theorem save_spec (canCall : (world.participant name).CanCall .save)
    (isLocal : world.store.IsLocal) {outcome : Except Failure Unit} {after : Store}
    (committed : (Store.commit (world.participant name).staged).run.run world.store =
      (outcome, after)) :
    ((save name).run world).1 = outcome ∧ ((save name).run world).2.store = after ∧
      (((save name).run world).2.participant name).staged = [] := by
  obtain ⟨cleared, sameStore, nothing, ⟨isEmpty, run⟩ | ⟨_, run⟩⟩ := save_run canCall
  · rw [isEmpty, Store.commit_nil_run isLocal] at committed
    cases committed
    rw [run]
    exact ⟨rfl, sameStore, nothing⟩
  · rw [← sameStore] at committed
    rw [run, access_run committed]
    exact ⟨rfl, rfl, nothing⟩

end Act

/-- **A save is atomic and ordered.**  In both kinds of local store it makes all changes that
are staged, in their order and nothing else, or it reports a failure and changes no row. -/
theorem saves_in_order (isLocal : world.store.IsLocal)
    (canCall : (world.participant name).CanCall .save) : world.SavesInOrder name := by
  generalize committed : (Store.commit (world.participant name).staged).run.run world.store = answer
  obtain ⟨outcome, after⟩ := answer
  obtain ⟨reports, leaves, nothing⟩ := Act.save_spec canCall isLocal committed
  constructor
  · have commits := @Store.commit_run world.store (world.participant name).staged isLocal
    rw [committed] at commits
    rw [reports, leaves]
    rcases commits with ⟨succeeds, takes, _⟩ | ⟨failure, fails⟩
    · exact .inl ⟨succeeds, takes⟩
    · cases fails
      exact .inr ⟨failure, rfl, rfl⟩
  · intro rows isRows
    rw [isRows, Store.commit_rows] at committed
    cases committed
    have failed {failure : Failure} :
        (rows.save (world.participant name).staged).1 = .error failure →
          rows.commit (world.participant name).staged = .error failure := fun fails =>
      (Rows.save_eq_error_iff.mp (Prod.ext fails rfl)).1
    rw [reports, ← Rows.commit_eq_error_iff]
    refine ⟨⟨?_, ?_⟩, fun failure fails => Rows.isStale_of_commit_eq_error (failed fails)⟩
    · rintro ⟨failure, fails, _⟩
      exact ⟨failure, failed fails⟩
    · rintro ⟨failure, refused⟩
      rw [Rows.save_eq_error_iff.mpr ⟨refused, rfl⟩]
      exact ⟨failure, rfl, Rows.isStale_of_commit_eq_error refused⟩
  · exact nothing
  · exact fun batch => Act.stage_spec
  · obtain ⟨sameStore, nothing, sameFaults⟩ := @Act.clear_spec name world
    have stillLocal : ((Act.clear name).run world).2.store.IsLocal := sameStore ▸ isLocal
    have canStill : (((Act.clear name).run world).2.participant name).CanCall .save := by
      rw [Participant.CanCall, sameFaults]
      exact canCall
    have commits := Store.commit_nil_run stillLocal
    rw [← nothing] at commits
    obtain ⟨succeeds, leaves, _⟩ := Act.save_spec canStill stillLocal commits
    exact ⟨sameStore, nothing, succeeds, leaves.trans sameStore⟩

/-- The world of a session that begins with a store and one participant. -/
def World.opening (store : Store) (participant : Participant) : World where
  store := store
  pageSize := 100
  participants := [participant]
  clock := ⟨0, 0⟩
  since := 0
  seconds := 0
  ids := []
  generated := 0
  share := 0
  scripts := []
  taken := []
  objects := #[]
  handles := []
  log := #[]
  traces := #[]
  cancelled := false
  cancelAt := none
  discoveries := []

/-- The last change of a batch names a step that the batch itself has inserted and deleted, so
nothing of the batch is saved. -/
theorem nothing_saved_after_own_deletion :
    let process := Process.fresh (.ofNat 1) .setupDim
    let step := Step.fresh (.ofNat 2) .createSubaccount .todo process.id ⟨0, 0⟩
    let world := World.opening (.rows ⟨[process], []⟩) ⟨"worker", [
      .insertStep step,
      .updateProcess process.id 0 ⟨1, .keep⟩,
      .updateStep step.id ⟨.keep, .write none⟩ ⟨1, 0⟩,
      .updateProcess process.id 1 ⟨2, .write (some ⟨9, 0⟩)⟩,
      .deleteStep step.id,
      .updateStep step.id ⟨.write (some .done), .keep⟩ ⟨2, 0⟩], []⟩
    world.SavesInOrder "worker" ∧
      (∃ failure, ((Act.save "worker").run world).1 = .error failure ∧ failure.isStale) ∧
      ((Act.save "worker").run world).2.store = world.store := by
  intro process step world
  have isLocal : world.store.IsLocal := ⟨by decide, by decide⟩
  have saves : world.SavesInOrder "worker" := saves_in_order isLocal rfl
  have refused : Rows.commit ⟨[process], []⟩ (world.participant "worker").staged =
      .error (.missingStep step.id) := rfl
  obtain ⟨failure, reported, isStale⟩ :=
    (saves.conflict _ rfl).1.mpr (Rows.commit_eq_error_iff.mp ⟨_, refused⟩)
  refine ⟨saves, ⟨failure, reported, isStale⟩, ?_⟩
  rcases saves.whole with ⟨succeeded, _⟩ | ⟨_, _, unchanged⟩
  · cases reported.symm.trans succeeded
  · exact unchanged

end Workflow.Session
