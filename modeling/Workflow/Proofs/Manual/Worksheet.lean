import Mathlib.Logic.Relation
import Workflow.Proofs.Manual.Extension
import Workflow.Proofs.Tables.Agreement

/-!
# Operations by hand, in any order

An operator works on a context that was loaded and checked, while nobody else writes to the
store.  The operations can come in any order and any number of times.  After each of them every
type is untouched or resolved as a group, and what is staged would be saved and would leave in
the store what the context shows.
-/

namespace Workflow

/-! ### Loading -/

/-- All time stamps are on the clock of universal time. -/
structure Rows.IsUtc (rows : Rows) : Prop where
  processes : ∀ process ∈ rows.processes, process.atUtc = process
  steps : ∀ step ∈ rows.steps, step.atUtc = step

/-- What a store answers that holds some rows: in memory, or in tables that record them. -/
inductive Rows.Loads (rows : Rows) (id : Uuid) (filter : Option (List StepType)) :
    Option Loaded → Prop where
  | memory : Loads rows id filter (rows.load? id filter)
  | tables {tables : Tables} {loaded : Option Loaded} (records : tables.Records rows)
      (utc : rows.IsUtc) (answered : tables.load? id filter = .ok loaded) :
      Loads rows id filter loaded

theorem Rows.Loads.eq {rows : Rows} {id : Uuid} {filter : Option (List StepType)}
    {loaded : Option Loaded} (loads : rows.Loads id filter loaded) :
    loaded = rows.load? id filter := by
  cases loads with
  | memory => rfl
  | tables records utc answered =>
      rw [records.load?_eq] at answered
      cases answered
      cases found : rows.process? id with
      | none => simp [Rows.load?, Rows.detail?, found]
      | some process =>
          have sameProcess := utc.processes process (findRow?_eq_some found).1
          have sameSteps : (rows.stepsOf id).map Step.atUtc = rows.stepsOf id := by
            rw [List.map_congr_left (g := fun step => step), List.map_id']
            intro step member
            have owned : step ∈ rows.owned id := (List.mergeSort_perm _ _).mem_iff.mp member
            exact utc.steps step (Rows.mem_owned_iff.mp owned).1
          have sameLoaded : ((rows.stepsOf id).filter fun step =>
              step.isPending && allowed filter step.type).map Step.atUtc =
                (rows.stepsOf id).filter fun step =>
                  step.isPending && allowed filter step.type := by
            rw [List.map_congr_left (g := fun step => step), List.map_id']
            intro step member
            exact List.map_inj_left.mp (sameSteps.trans (List.map_id' _).symm) step
              (List.mem_of_mem_filter member)
          simp only [Rows.load?, Rows.detail?, found, Option.map_some, Loaded.atUtc,
            Loaded.ofDetail, ProcessDetail.atUtc, Process.withSteps, sameSteps, sameLoaded,
            sameProcess]

/-! ### The worksheet -/

/-- An operator's context, what has been staged for it, and the store as it was loaded. -/
structure Worksheet where
  rows : Rows
  context : ManualContext
  staged : Batch

namespace Worksheet

variable {sheet next later : Worksheet}

abbrev id (sheet : Worksheet) : Uuid :=
  sheet.context.process.id

/-- One operation.  The identifiers that it may give to steps are new.  An operation that is
refused leaves everything as it was. -/
inductive Move (sheet : Worksheet) : Worksheet → Prop where
  | perform {clock : Readings} {ids : List Uuid} {operation : ManualOp} {context : ManualContext}
      {batch : Batch} (distinct : ids.Nodup)
      (isNew : ∀ id ∈ ids,
        id ∉ sheet.rows.steps.map Step.id ∧ id ∉ sheet.context.steps.map Step.id)
      (performed : sheet.context.perform clock ids operation = .ok (context, batch)) :
      Move sheet { sheet with context, staged := sheet.staged ++ batch }
  | refuse {clock : Readings} {ids : List Uuid} {operation : ManualOp} {failure : Failure}
      (refused : sheet.context.perform clock ids operation = .error failure) : Move sheet sheet

/-- The worksheets that begin with a process that has been loaded and checked. -/
inductive Reachable : Worksheet → Prop where
  | check {rows : Rows} {id : Uuid} {filter : Option (List StepType)} {loaded : Option Loaded}
      {current : StepType} {owner : String} {now : Timestamp} {context : ManualContext}
      (keyed : rows.Keyed) (loads : rows.Loads id filter loaded)
      (checked : ManualContext.check loaded current owner now = .ok context) :
      Reachable ⟨rows, context, []⟩
  | move {sheet next : Worksheet} : Reachable sheet → Move sheet next → Reachable next

/-- What is staged leads from the stored process and its steps to the context. -/
structure Sound (sheet : Worksheet) : Prop where
  keyed : sheet.rows.Keyed
  mirrors : sheet.context.Mirrors sheet.rows sheet.staged
  row : ∃ stored, sheet.rows.process? sheet.id = some stored ∧
    Batch.processAfter? sheet.staged stored = some sheet.context.process.toProcess
  only : Batch.ChangesOnly sheet.id sheet.staged
  fresh : Batch.IsFresh sheet.rows sheet.staged
  listed : ∀ step ∈ Batch.insertedSteps sheet.staged,
    step.id ∈ sheet.context.steps.map Step.id
  finds : Batch.Finds (sheet.rows.steps.map Step.id) sheet.staged

theorem previews (mirrors : sheet.context.Mirrors sheet.rows sheet.staged)
    (row : ∃ stored, sheet.rows.process? sheet.id = some stored ∧
      Batch.processAfter? sheet.staged stored = some sheet.context.process.toProcess)
    (only : Batch.ChangesOnly sheet.id sheet.staged) :
    sheet.context.Previews (sheet.rows.owned sheet.id) sheet.staged := by
  obtain ⟨stored, found, followed⟩ := row
  obtain ⟨base, baseId, anchored, reached, previews⟩ := mirrors.row
  have storedId : stored.id = sheet.id := Rows.id_of_process? found
  have isBase : base = stored := by
    by_cases updates : Batch.Updates sheet.id sheet.staged
    · obtain ⟨current, currentFound, _, same⟩ := anchored
      rw [baseId, found] at currentFound
      obtain rfl := Option.some.inj currentFound
      refine (same ?_).symm
      refine (Batch.isSome_processAfter?_iff only updates baseId storedId (by simp [reached])).mp ?_
      simp [followed]
    · have onlySteps := only.onlySteps updates
      rw [onlySteps.processAfter?] at reached followed
      exact Option.some.inj (reached.trans followed.symm)
  exact previews (isBase ▸ found)

theorem Sound.reflects (sound : sheet.Sound) :
    Batch.Respects sheet.id (sheet.rows.owned sheet.id) sheet.staged ∧
      sheet.context.Reflects (Batch.overlay sheet.staged (sheet.rows.owned sheet.id)) :=
  previews sound.mirrors sound.row sound.only (sound.fresh.overlay_unique sound.keyed)

theorem sound_of_check {rows : Rows} {id : Uuid} {filter : Option (List StepType)}
    {loaded : Option Loaded} {current : StepType} {owner : String} {now : Timestamp}
    {context : ManualContext} (keyed : rows.Keyed) (loads : rows.Loads id filter loaded)
    (checked : ManualContext.check loaded current owner now = .ok context) :
    Sound ⟨rows, context, []⟩ := by
  rw [loads.eq] at checked
  obtain ⟨stored, found, isContext⟩ := ManualContext.exists_of_check checked
  have storedId : stored.id = id := Rows.id_of_process? found
  refine ⟨keyed, ManualContext.mirrors_of_check keyed checked, ⟨stored, ?_, ?_⟩,
    Batch.changesOnly_nil, Batch.isFresh_of_insertless rfl rfl, by simp, trivial⟩
  · subst isContext
    exact storedId ▸ found
  · subst isContext
    rfl

theorem Sound.finds_append (sound : sheet.Sound) {batch : Batch}
    (respects : Batch.Respects sheet.id (sheet.rows.owned sheet.id) (sheet.staged ++ batch))
    (inserts : Batch.insertedSteps batch = [] ∨
      ∃ steps : List Step, batch = steps.map .insertStep) :
    Batch.Finds (sheet.rows.steps.map Step.id) (sheet.staged ++ batch) := by
  apply Batch.finds_append sound.finds respects.keeps_steps
  intro change member
  cases change with
  | insertProcess _ | updateProcess _ _ _ | insertStep _ => trivial
  | deleteStep step => exact absurd (List.mem_append_right _ member) (respects.keeps_steps step)
  | updateStep step update now =>
      rcases inserts with nothing | ⟨steps, rfl⟩
      · have target := respects.targets step update now (List.mem_append_right _ member)
        rw [Batch.map_id_overlay, Batch.insertedSteps_append, nothing, List.append_nil,
          List.map_append] at target
        rcases List.mem_append.mp target with isStored | isInserted
        · exact List.mem_append_left _
            ((List.Sublist.map Step.id List.filter_sublist).subset isStored)
        · exact List.mem_append_right _ isInserted
      · simp at member

/-- The identifiers of inserted steps are new, and the context shows all of them. -/
theorem Sound.inserted_perform (sound : sheet.Sound) {context : ManualContext} {batch : Batch}
    {clock : Readings} {ids : List Uuid} {operation : ManualOp} (distinct : ids.Nodup)
    (isNew : ∀ id ∈ ids, id ∉ sheet.rows.steps.map Step.id ∧ id ∉ sheet.context.steps.map Step.id)
    (performed : sheet.context.perform clock ids operation = .ok (context, batch)) :
    let inserted := Batch.insertedSteps (sheet.staged ++ batch)
    (∀ step ∈ inserted, step.id ∉ sheet.rows.steps.map Step.id) ∧
      (inserted.map Step.id).Nodup ∧
      ∀ step ∈ inserted, step.id ∈ context.steps.map Step.id := by
  have shown : ∀ step ∈ Batch.insertedSteps sheet.staged,
      step.id ∈ context.steps.map Step.id := by
    intro step member
    obtain ⟨other, otherMember, same⟩ := List.mem_map.mp (sound.listed step member)
    obtain ⟨kept, keptMember, keeps⟩ :=
      (sound.reflects.2.extends_perform performed).keeps other otherMember
    exact same ▸ keeps.id ▸ List.mem_map_of_mem keptMember
  rcases ManualContext.insertedSteps_perform performed with nothing | ⟨types, rfl, rfl⟩
  · simp only [Batch.insertedSteps_append, nothing, List.append_nil]
    exact ⟨sound.fresh.steps, sound.fresh.steps_nodup, shown⟩
  · simp only [Batch.insertedSteps_append, Batch.insertedSteps_insertSteps]
    have given : ((sheet.context.newSteps types ids clock).map Step.id).Sublist ids :=
      ManualContext.map_id_newSteps_sublist types
    have isGiven {step : Step} (member : step ∈ sheet.context.newSteps types ids clock) :
        step.id ∈ ids := given.subset (List.mem_map_of_mem member)
    refine ⟨?_, ?_, ?_⟩
    · intro step member
      rcases List.mem_append.mp member with before | added
      · exact sound.fresh.steps step before
      · exact (isNew step.id (isGiven added)).1
    · rw [List.map_append, List.nodup_append]
      refine ⟨sound.fresh.steps_nodup, distinct.sublist given, ?_⟩
      rintro _ before _ added rfl
      obtain ⟨step, member, same⟩ := List.mem_map.mp before
      exact (isNew _ (given.subset added)).2 (same ▸ sound.listed step member)
    · intro step member
      rcases List.mem_append.mp member with before | added
      · exact shown step before
      · exact List.mem_map_of_mem (List.mem_append_right _ added)

theorem Sound.perform (sound : sheet.Sound) {context : ManualContext} {batch : Batch}
    {clock : Readings} {ids : List Uuid} {operation : ManualOp} (distinct : ids.Nodup)
    (isNew : ∀ id ∈ ids, id ∉ sheet.rows.steps.map Step.id ∧ id ∉ sheet.context.steps.map Step.id)
    (performed : sheet.context.perform clock ids operation = .ok (context, batch)) :
    Sound { sheet with context, staged := sheet.staged ++ batch } := by
  have sameId : context.process.id = sheet.id :=
    (sound.reflects.2.extends_perform performed).owner
  have mirrors := sound.mirrors.perform performed
  have only : Batch.ChangesOnly context.process.id (sheet.staged ++ batch) :=
    sameId ▸ sound.only.append (ManualContext.changesOnly_perform performed)
  have row : ∃ stored, sheet.rows.process? context.process.id = some stored ∧
      Batch.processAfter? (sheet.staged ++ batch) stored = some context.process.toProcess := by
    obtain ⟨stored, found, followed⟩ := sound.row
    refine ⟨stored, sameId ▸ found, ?_⟩
    rw [Batch.processAfter?_append, followed]
    exact ManualContext.processAfter?_perform performed
  obtain ⟨steps, distinct, listed⟩ := sound.inserted_perform distinct isNew performed
  have processes := only.insertedProcesses_eq
  have fresh : Batch.IsFresh sheet.rows (sheet.staged ++ batch) := by
    refine ⟨steps, distinct, ?_, ?_, ?_⟩ <;> simp [processes]
  have preview := @previews { sheet with context, staged := sheet.staged ++ batch } mirrors row only
  obtain ⟨respects, _⟩ := preview (fresh.overlay_unique sound.keyed)
  have inserts : Batch.insertedSteps batch = [] ∨
      ∃ steps : List Step, batch = steps.map .insertStep := by
    rcases ManualContext.insertedSteps_perform performed with nothing | ⟨types, isBatch, _⟩
    · exact .inl nothing
    · exact .inr ⟨_, isBatch⟩
  exact ⟨sound.keyed, mirrors, row, only, fresh, listed,
    sound.finds_append (sameId ▸ respects) inserts⟩

theorem Sound.move (sound : sheet.Sound) (moved : Move sheet next) : next.Sound := by
  cases moved with
  | perform distinct isNew performed => exact sound.perform distinct isNew performed
  | refuse _ => exact sound

theorem Reachable.sound (reachable : Reachable sheet) : sheet.Sound := by
  induction reachable with
  | check keyed loads checked => exact sound_of_check keyed loads checked
  | move _ moved induction => exact induction.move moved

theorem rows_eq_of_moves (moves : Relation.ReflTransGen Move sheet next) :
    next.rows = sheet.rows := by
  induction moves with
  | refl => rfl
  | tail _ moved induction => cases moved <;> exact induction

/-- Any number of operations extends the context. -/
theorem Sound.moves (sound : sheet.Sound) (moves : Relation.ReflTransGen Move sheet next) :
    next.Sound ∧ sheet.context.Extends next.context := by
  induction moves with
  | refl => exact ⟨sound, .refl _⟩
  | tail _ moved induction =>
      obtain ⟨sound, extended⟩ := induction
      refine ⟨sound.move moved, ?_⟩
      cases moved with
      | perform _ _ performed => exact extended.trans (sound.reflects.2.extends_perform performed)
      | refuse _ => exact extended

/-- What is staged would be saved now, and the store would show what the context shows. -/
theorem Sound.save (sound : sheet.Sound) :
    ∃ after, sheet.rows.save sheet.staged = (.ok (), after) ∧
      (∀ step ∈ sheet.context.steps, ∃ stored, after.step? step.id = some stored ∧
        stored.process = sheet.id ∧ stored.status = step.status) ∧
      sheet.rows.KeepsOutcomes after ∧ sheet.rows.AddsNewTypes after := by
  obtain ⟨stored, found, followed⟩ := sound.row
  obtain ⟨respects, reflects⟩ := sound.reflects
  obtain ⟨after, committed⟩ := (Rows.exists_commit_iff sound.keyed sound.only found).mpr
    ⟨by simp [followed], sound.finds⟩
  obtain ⟨own, _⟩ := Rows.owned_commit sound.keyed sound.fresh respects committed
  have keyed := Rows.keyed_commit sound.keyed committed
  refine ⟨after, Rows.save_eq_ok_iff.mpr committed, ?_,
    Rows.keepsOutcomes_commit sound.keyed sound.fresh respects committed,
    Rows.addsNewTypes_commit sound.keyed sound.fresh respects committed⟩
  intro step member
  obtain ⟨final, finalMember, sameId, sameStatus⟩ := reflects.loaded step member
  obtain ⟨isStored, owner⟩ := Rows.mem_owned_iff.mp (own ▸ finalMember)
  exact ⟨final, (findRow?_eq_some_iff keyed.steps).mpr ⟨isStored, sameId⟩, owner, sameStatus⟩

/-- **Operations by hand compose.**  However many operations follow a load, in whatever order:

* each type of the context is wholly pending, or its earliest step is done if it is the current
  type and skipped otherwise, and all others are duplicates;
* the context keeps its steps and their terminal statuses, and takes in no step of a type that
  the process or the context had;
* only a request for a lease that somebody holds is refused;
* as long as nobody else writes, a save succeeds, and the store shows each step of the context
  with the status that the context shows.  No stored outcome changes, and no stored type is
  inserted again.  The same holds of tables that record the store, if they can hold what is
  staged. -/
theorem operations_compose (reachable : Reachable sheet)
    (moves : Relation.ReflTransGen Move sheet next) :
    (∀ type, next.context.IsGrouped type) ∧
      sheet.context.Extends next.context ∧
      (∀ clock ids operation,
        (∃ failure, next.context.perform clock ids operation = .error failure) ↔
          (∃ expiry, operation = .requestLease expiry) ∧
            next.context.process.isLeased (clock 0)) ∧
      next.rows = sheet.rows ∧
      (∃ after, next.rows.save next.staged = (.ok (), after) ∧
        (∀ step ∈ next.context.steps, ∃ stored, after.step? step.id = some stored ∧
          stored.process = next.id ∧ stored.status = step.status) ∧
        next.rows.KeepsOutcomes after ∧ next.rows.AddsNewTypes after) ∧
      ∀ tables : Tables, tables.Records next.rows → next.staged.IsAdmissible next.rows →
        ∃ after, tables.save next.staged = (.ok (), after) ∧
          ∀ step ∈ next.context.steps, ∃ row ∈ after.steps,
            row.id = step.id ∧ some row.status = step.status := by
  obtain ⟨sound, extended⟩ := reachable.sound.moves moves
  have saves := sound.save
  refine ⟨sound.reflects.2.isGrouped, extended,
    fun clock ids operation => ManualContext.perform_eq_error_iff, rows_eq_of_moves moves, saves,
    ?_⟩
  intro tables records admissible
  obtain ⟨after, saved, shows, _⟩ := saves
  obtain ⟨sameReport, recorded⟩ := records.save admissible
  rw [saved] at sameReport recorded
  refine ⟨_, Prod.ext sameReport rfl, ?_⟩
  intro step member
  obtain ⟨stored, found, _, sameStatus⟩ := shows step member
  obtain ⟨isStored, sameId⟩ := findRow?_eq_some found
  have storable := recorded.storableSteps stored isStored
  refine ⟨stored.record, ?_, sameId, ?_⟩
  · rw [recorded.steps]
    exact List.mem_map_of_mem isStored
  · obtain ⟨status, hasStatus⟩ := Option.ne_none_iff_exists'.mp storable.status
    simp [Step.record, hasStatus, ← sameStatus]

/-- Both types have duplicates.  A step of a new type is scheduled twice, a lease is asked for,
the other type is skipped twice, and the current step is finalized. -/
theorem composed_for_duplicates :
    ∃ sheet next : Worksheet, Reachable sheet ∧ Relation.ReflTransGen Move sheet next ∧
      (sheet.rows.owned sheet.id).length = 4 ∧
      (next.context.IsGrouped .createSubaccount ∧
        next.context.IsGrouped .createServicemanagerBindings) ∧
      ∃ after, next.rows.save next.staged = (.ok (), after) := by
  let process := Process.fresh (.ofNat 1) .setupDim
  let rows : Rows := ⟨[process], [
    .fresh (.ofNat 2) .createSubaccount .todo process.id ⟨3, 0⟩,
    .fresh (.ofNat 3) .createSubaccount .todo process.id ⟨2, 0⟩,
    .fresh (.ofNat 4) .createServicemanagerBindings .todo process.id ⟨2, 0⟩,
    .fresh (.ofNat 5) .createServicemanagerBindings .todo process.id ⟨1, 0⟩]⟩
  let context := ManualContext.ofRows rows process .createSubaccount
  have checked : ManualContext.check (rows.load? process.id none) .createSubaccount "" ⟨4, 0⟩ =
      .ok context := ManualContext.check_eq_ok rfl rfl ⟨_, List.mem_cons_self, by decide⟩ ""
  have begins : Reachable ⟨rows, context, []⟩ := .check ⟨by decide, by decide⟩ .memory checked
  have isNew : ∀ id ∈ [Uuid.ofNat 9], id ∉ rows.steps.map Step.id ∧
      id ∉ context.steps.map Step.id := by
    intro id given
    obtain rfl := List.mem_singleton.mp given
    have absent : Uuid.ofNat 9 ∉ rows.steps.map Step.id := by decide
    refine ⟨absent, fun present => absent ?_⟩
    obtain ⟨step, member, same⟩ := List.mem_map.mp present
    have stored := List.mem_mergeSort.mp (List.mem_of_mem_filter member)
    exact same ▸ List.mem_map_of_mem (List.mem_of_mem_filter stored)
  have unused {sheet : Worksheet} : ∀ id ∈ ([] : List Uuid),
      id ∉ sheet.rows.steps.map Step.id ∧ id ∉ sheet.context.steps.map Step.id := by simp
  let opened : Worksheet := ⟨rows, context, []⟩
  have scheduled := Relation.ReflTransGen.single (@Move.perform opened (fun _ => ⟨5, 0⟩) [.ofNat 9]
    (.schedule [.assignEntitlements, .assignEntitlements]) _ _ (by decide) isNew rfl)
  have leased := scheduled.tail (@Move.perform _ (fun _ => ⟨5, 0⟩) []
    (.requestLease ⟨9, 0⟩) _ _ List.nodup_nil unused rfl)
  have skipped := leased.tail (@Move.perform _ (fun _ => ⟨6, 0⟩) []
    (.skip [.createServicemanagerBindings, .createSubaccount]) _ _ List.nodup_nil unused rfl)
  have again := skipped.tail (@Move.perform _ (fun _ => ⟨7, 0⟩) []
    (.skip [.createServicemanagerBindings]) _ _ List.nodup_nil unused rfl)
  have finalized := again.tail
    (@Move.perform _ (fun _ => ⟨8, 0⟩) [] .finalize _ _ List.nodup_nil unused rfl)
  obtain ⟨grouped, _, _, _, ⟨after, saved, _⟩, _⟩ := operations_compose begins finalized
  exact ⟨_, _, begins, finalized, rfl, ⟨grouped _, grouped _⟩, after, saved⟩

end Worksheet

end Workflow
