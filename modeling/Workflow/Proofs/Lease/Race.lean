import Mathlib.Logic.Function.Basic
import Mathlib.Logic.Relation
import Workflow.Proofs.Lease.Mirror
import Workflow.Session.World

/-!
# Racing for a process

Any number of workers hold copies of one process.  Each of them changes its copy,
stages what it does and saves, in any order.  A worker that saves after somebody
else has saved is refused, because its first update expects the version that its
copy had when it was loaded, and the stored version has only grown since.
-/

namespace Workflow

/-- The outcome of saving a batch, and the store afterwards. -/
def Rows.save (rows : Rows) (batch : Batch) : Except Failure Unit × Rows :=
  match rows.commit batch with
  | .ok after => (.ok (), after)
  | .error failure => (.error failure, rows)

/-- The step that a change expects to find. -/
def Change.target? : Change → Option Uuid
  | updateStep step _ _ => some step
  | deleteStep step => some step
  | _ => none

/-- A copy of a process, what is staged for it, and how many updates had been
committed when the copy was loaded or last saved. -/
structure Holding where
  copy : Process
  staged : Batch
  seen : Nat

/-- A shared store, the number of updates committed so far, and who holds what. -/
structure Race (ω : Type) where
  rows : Rows
  commits : Nat
  holdings : ω → Option Holding

variable {ω : Type} [DecidableEq ω]

namespace Race

/-- The race after a worker has changed what it holds. -/
def put (race : Race ω) (worker : ω) (holding : Option Holding) : Race ω :=
  { race with holdings := Function.update race.holdings worker holding }

/-- What a worker can do about the process with an identifier. -/
inductive Move (id : Uuid) (race : Race ω) : Race ω → Prop where
  | load (worker : ω) {copy : Process}
      (found : race.rows.process? id = some copy) :
      Move id race (race.put worker (some ⟨copy, [], race.commits⟩))
  | lease (worker : ω) {holding : Holding} {operation : LeaseOp} {after : Process}
      {batch : Batch}
      (holds : race.holdings worker = some holding)
      (performed : operation.perform holding.copy = .ok (after, batch)) :
      Move id race
        (race.put worker (some ⟨after, holding.staged ++ batch, holding.seen⟩))
  /-- An operation on a step that is stored and not deleted by what is already staged. -/
  | stage (worker : ω) {holding : Holding} {change : Change} {step : Uuid}
      (holds : race.holdings worker = some holding)
      (targets : change.target? = some step)
      (present : step ∈ race.rows.steps.map Step.id)
      (kept : .deleteStep step ∉ holding.staged) :
      Move id race
        (race.put worker (some ⟨holding.copy, holding.staged ++ [change], holding.seen⟩))
  | save (worker : ω) {holding : Holding} {after : Rows}
      (holds : race.holdings worker = some holding)
      (updates : Batch.Updates id holding.staged)
      (saved : race.rows.save holding.staged = (.ok (), after)) :
      Move id race
        { put race worker (some ⟨holding.copy, [], race.commits + 1⟩) with
          rows := after
          commits := race.commits + 1 }
  /-- The copy of a refused worker is no longer what it has loaded, so it is given up. -/
  | fail (worker : ω) {holding : Holding} {failure : Failure} {after : Rows}
      (holds : race.holdings worker = some holding)
      (updates : Batch.Updates id holding.staged)
      (saved : race.rows.save holding.staged = (.error failure, after)) :
      Move id race { put race worker none with rows := after }

/-- The races that begin with nobody holding a copy. -/
inductive Reachable (id : Uuid) : Race ω → Prop where
  | start (rows : Rows) : Reachable id ⟨rows, 0, fun _ => none⟩
  | move {race next : Race ω} :
      Reachable id race → Move id race next → Reachable id next

end Race

/-! ### Saving -/

namespace Rows

variable {rows after : Rows} {batch : Batch} {failure : Failure}

theorem save_eq_ok_iff : rows.save batch = (.ok (), after) ↔ rows.commit batch = .ok after := by
  cases committed : rows.commit batch <;> simp [save, committed]

theorem save_eq_error_iff :
    rows.save batch = (.error failure, after) ↔
      rows.commit batch = .error failure ∧ after = rows := by
  cases committed : rows.commit batch <;> simp [save, committed, eq_comm]

theorem mem_ids_commit {step : Uuid} (committed : rows.commit batch = .ok after)
    (present : step ∈ rows.steps.map Step.id) (kept : .deleteStep step ∉ batch) :
    step ∈ after.steps.map Step.id := by
  induction batch generalizing rows with
  | nil =>
      cases committed
      exact present
  | cons change batch induction =>
      obtain ⟨middle, applied, rest⟩ := commit_cons_eq_ok.mp committed
      refine induction rest ?_ fun member => kept (List.mem_cons_of_mem change member)
      cases change with
      | insertProcess process =>
          cases applied
          exact present
      | updateProcess id expected update =>
          obtain ⟨_, _, _, rfl⟩ := apply_updateProcess_eq_ok.mp applied
          exact present
      | insertStep inserted =>
          cases applied
          exact mem_map_key_putRow present
      | updateStep id update changed =>
          obtain ⟨_, _, rfl⟩ := apply_updateStep_eq_ok.mp applied
          exact mem_map_key_putRow present
      | deleteStep id =>
          obtain ⟨_, rfl⟩ := apply_deleteStep_eq_ok.mp applied
          obtain ⟨row, member, rfl⟩ := List.mem_map.mp present
          have different : row.id ≠ id := by
            intro same
            subst same
            exact kept List.mem_cons_self
          exact List.mem_map_of_mem (List.mem_filter.mpr ⟨member, by simpa using different⟩)

end Rows

namespace Session

theorem Store.commit_rows (rows : Rows) (batch : Batch) :
    (Store.commit batch).run.run (.rows rows) =
      ((rows.save batch).1, .rows (rows.save batch).2) := by
  have unfolded : (Store.commit batch).run.run (.rows rows) =
      (Store.replaceBy Store.rows (rows.commit batch)).run.run (.rows rows) := rfl
  rw [unfolded, Rows.save]
  cases rows.commit batch <;> rfl

theorem Act.performLease_run (name : String) (place : Nat) (operation : LeaseOp)
    (world : World) :
    (Act.performLease name place operation).run world =
      match operation.perform ((Act.object place).run world).1.toProcess with
      | .error failure => (.error failure, world)
      | .ok (process, batch) =>
        (.ok (!batch.isEmpty),
          ((do Act.setObject place process; Act.stage name batch : Act Unit).run world).2) := by
  simp only [Act.performLease, StateT.run_bind]
  change StateT.run
    (match operation.perform ((Act.object place).run world).1.toProcess with
      | .error failure => _
      | .ok (process, batch) => _ : Act (Except Failure Bool)) world = _
  cases operation.perform ((Act.object place).run world).1.toProcess <;> rfl

/-- A refused operation changes neither the copy nor what is staged, nor anything
else in the world. -/
theorem Act.performLease_eq_error {name : String} {place : Nat} {operation : LeaseOp}
    {world after : World} {failure : Failure}
    (refused : (Act.performLease name place operation).run world = (.error failure, after)) :
    after = world ∧ failure.kind = .unexpected := by
  rw [Act.performLease_run] at refused
  split at refused
  · rename_i performed
    cases refused
    obtain ⟨rfl, _⟩ := LeaseOp.perform_eq_error_iff.mp performed
    exact ⟨rfl, rfl⟩
  · cases refused

end Session

/-! ### Copies keep up with the store or fall behind -/

namespace Race

variable {race next : Race ω} {id : Uuid} {worker : ω} {holding : Holding}
  {rows after : Rows} {commits : Nat} {stored final : Process}

/-- What is staged leads from the row as it was last seen to the copy.  As long as
nobody has committed since, that row is still stored and the batch would be
committed; otherwise the stored version has grown. -/
structure Tracks (id : Uuid) (rows : Rows) (commits : Nat) (holding : Holding) : Prop where
  seen_le : holding.seen ≤ commits
  raises : Batch.Raises holding.staged
  inserts : Batch.insertedProcesses holding.staged = []
  row : ∃ base stored, rows.process? id = some stored ∧ base.id = id ∧
    Batch.processAfter? holding.staged base = some holding.copy ∧
    (holding.seen = commits → base = stored) ∧
    (holding.seen < commits → base.version < stored.version)
  committed : holding.seen = commits → ∃ after, rows.commit holding.staged = .ok after

theorem tracks_of_process? (found : rows.process? id = some stored) :
    Tracks id rows commits ⟨stored, [], commits⟩ where
  seen_le := Nat.le_refl _
  raises := by simp [Batch.Raises]
  inserts := rfl
  row := ⟨stored, stored, found, Rows.id_of_process? found, rfl, fun _ => rfl,
    fun behind => absurd behind (Nat.lt_irrefl _)⟩
  committed := fun _ => ⟨rows, rfl⟩

theorem Tracks.id_copy (tracks : Tracks id rows commits holding) : holding.copy.id = id := by
  obtain ⟨base, _, _, baseId, followed, _⟩ := tracks.row
  exact (Batch.id_of_processAfter? followed).trans baseId

theorem Tracks.lease (tracks : Tracks id rows commits holding) {copy : Process}
    {batch : Batch} (follows : holding.copy.Follows copy batch) :
    Tracks id rows commits ⟨copy, holding.staged ++ batch, holding.seen⟩ := by
  obtain ⟨base, stored, found, baseId, followed, same, older⟩ := tracks.row
  refine ⟨tracks.seen_le, tracks.raises.append follows.raises, ?_, ?_, ?_⟩
  · rw [Batch.insertedProcesses_append, tracks.inserts]
    cases follows <;> rfl
  · refine ⟨base, stored, found, baseId, ?_, same, older⟩
    rw [Batch.processAfter?_append, followed]
    exact follows.processAfter?
  · intro current
    obtain ⟨middle, committed⟩ := tracks.committed current
    obtain ⟨reached, reachedFollowed, middleFound⟩ := Rows.process?_commit committed found
    rw [← same current, followed] at reachedFollowed
    cases reachedFollowed
    cases follows with
    | unchanged => exact ⟨middle, by simpa using committed⟩
    | updated lease =>
        rw [← tracks.id_copy] at middleFound
        exact ⟨_, Rows.commit_snoc committed
          (Rows.apply_updateProcess_eq_ok.mpr ⟨holding.copy, middleFound, rfl, rfl⟩)⟩

theorem Tracks.stage (tracks : Tracks id rows commits holding) {change : Change}
    {step : Uuid} (targets : change.target? = some step)
    (present : step ∈ rows.steps.map Step.id) (kept : .deleteStep step ∉ holding.staged) :
    Tracks id rows commits ⟨holding.copy, holding.staged ++ [change], holding.seen⟩ := by
  obtain ⟨base, stored, found, baseId, followed, same, older⟩ := tracks.row
  refine ⟨tracks.seen_le, ?_, ?_, ?_, ?_⟩
  · apply tracks.raises.append
    intro target expected update member
    cases List.mem_singleton.mp member
    cases targets
  · rw [Batch.insertedProcesses_append, tracks.inserts]
    cases change <;> first | rfl | cases targets
  · refine ⟨base, stored, found, baseId, ?_, same, older⟩
    rw [Batch.processAfter?_append, followed]
    cases change <;> first | rfl | cases targets
  · intro current
    obtain ⟨middle, committed⟩ := tracks.committed current
    have there : (middle.step? step).isSome :=
      findRow?_isSome_iff.mpr (Rows.mem_ids_commit committed present kept)
    obtain ⟨row, rowFound⟩ := Option.isSome_iff_exists.mp there
    cases change with
    | insertProcess _ | insertStep _ | updateProcess _ _ _ => cases targets
    | updateStep target update changed =>
        cases targets
        exact ⟨_, Rows.commit_snoc committed
          (Rows.apply_updateStep_eq_ok.mpr ⟨row, rowFound, rfl⟩)⟩
    | deleteStep target =>
        cases targets
        exact ⟨_, Rows.commit_snoc committed
          (Rows.apply_deleteStep_eq_ok.mpr ⟨there, rfl⟩)⟩

/-- A batch with an update is only committed while its copy is current, and then the
row becomes the copy. -/
theorem Tracks.process?_commit (tracks : Tracks id rows commits holding)
    (updates : Batch.Updates id holding.staged)
    (committed : rows.commit holding.staged = .ok after) :
    holding.seen = commits ∧ after.process? id = some holding.copy ∧
      ∃ stored, rows.process? id = some stored ∧
        stored.version < holding.copy.version := by
  obtain ⟨base, stored, found, baseId, followed, same, older⟩ := tracks.row
  obtain ⟨final, reached, finalFound⟩ := Rows.process?_commit committed found
  have storedId : stored.id = id := Rows.id_of_process? found
  have versions : base.version = stored.version := by
    refine Batch.version_eq_of_processAfter? (baseId.trans storedId.symm) (baseId ▸ updates)
      tracks.inserts ?_ ?_
    · simp [followed]
    · simp [reached]
  have current : holding.seen = commits := by
    rcases Nat.lt_or_eq_of_le tracks.seen_le with behind | current
    · exact absurd versions (Int.ne_of_lt (older behind))
    · exact current
  obtain rfl := same current
  obtain rfl : final = holding.copy := Option.some.inj (reached.symm.trans followed)
  refine ⟨current, finalFound, base, found, ?_⟩
  have kept : ∀ inserted ∈ Batch.insertedProcesses holding.staged, inserted.id ≠ base.id := by
    simp [tracks.inserts]
  exact Batch.version_lt_of_processAfter? tracks.raises kept followed (storedId ▸ updates)

theorem Tracks.outdate (tracks : Tracks id rows commits holding)
    (found : rows.process? id = some stored) (finalFound : after.process? id = some final)
    (raised : stored.version < final.version) :
    Tracks id after (commits + 1) holding := by
  obtain ⟨base, other, otherFound, baseId, followed, same, older⟩ := tracks.row
  obtain rfl : other = stored := Option.some.inj (otherFound.symm.trans found)
  have behind : holding.seen < commits + 1 := Nat.lt_succ_of_le tracks.seen_le
  refine ⟨Nat.le_of_lt behind, tracks.raises, tracks.inserts, ?_, ?_⟩
  · refine ⟨base, final, finalFound, baseId, followed, ?_, ?_⟩
    · intro current
      omega
    · intro _
      rcases Nat.lt_or_eq_of_le tracks.seen_le with before | current
      · exact Int.lt_trans (older before) raised
      · exact same current ▸ raised
  · intro current
    omega

/-- Everybody's holding tracks the process. -/
def Tracked (id : Uuid) (race : Race ω) : Prop :=
  ∀ worker holding, race.holdings worker = some holding →
    Tracks id race.rows race.commits holding

theorem Tracked.put (tracked : Tracked id race)
    (tracks : Tracks id race.rows race.commits holding) :
    Tracked id (race.put worker (some holding)) := by
  intro other otherHolding holds
  by_cases same : other = worker
  · subst same
    simp only [Race.put, Function.update_self, Option.some.injEq] at holds
    exact holds ▸ tracks
  · simp only [Race.put, Function.update_of_ne same] at holds
    exact tracked other otherHolding holds

theorem Tracked.move (tracked : Tracked id race) (moved : Move id race next) :
    Tracked id next := by
  cases moved with
  | load worker found => exact tracked.put (tracks_of_process? found)
  | lease worker holds performed =>
      exact tracked.put
        ((tracked worker _ holds).lease (LeaseOp.follows_of_perform performed))
  | stage worker holds targets present kept =>
      exact tracked.put ((tracked worker _ holds).stage targets present kept)
  | save worker holds updates saved =>
      obtain ⟨_, finalFound, stored, found, raised⟩ :=
        (tracked worker _ holds).process?_commit updates (Rows.save_eq_ok_iff.mp saved)
      intro other otherHolding otherHolds
      by_cases same : other = worker
      · subst same
        simp only [Race.put, Function.update_self, Option.some.injEq] at otherHolds
        exact otherHolds ▸ tracks_of_process? finalFound
      · simp only [Race.put, Function.update_of_ne same] at otherHolds
        exact (tracked other _ otherHolds).outdate found finalFound raised
  | fail worker holds updates saved =>
      obtain ⟨_, rfl⟩ := Rows.save_eq_error_iff.mp saved
      intro other otherHolding otherHolds
      by_cases same : other = worker
      · subst same
        simp [Race.put] at otherHolds
      · simp only [Race.put, Function.update_of_ne same] at otherHolds
        exact tracked other _ otherHolds

theorem Reachable.tracked (reachable : Reachable id race) : Tracked id race := by
  induction reachable with
  | start rows =>
      intro worker holding holds
      cases holds
  | move _ moved induction => exact induction.move moved

/-- **No lost update.**  A save with an update is committed exactly if nobody has
committed since the copy was loaded or last saved.  It makes the stored process the
copy under a higher version, and a refused save changes nothing.  Neither does a
refused operation on a lease. -/
theorem no_lost_update (reachable : Reachable id race)
    (holds : race.holdings worker = some holding)
    (updates : Batch.Updates id holding.staged) :
    ((race.rows.save holding.staged).1 = .ok () ↔ holding.seen = race.commits) ∧
      (∀ after, race.rows.save holding.staged = (.ok (), after) →
        ∃ before final, race.rows.process? id = some before ∧
          after.process? id = some final ∧
          final.version = holding.copy.version ∧ final.lease = holding.copy.lease ∧
          before.version < final.version) ∧
      (∀ failure after, race.rows.save holding.staged = (.error failure, after) →
        failure.kind = .staleWrite ∧ after = race.rows) ∧
      ∀ name place operation world failure after,
        (Session.Act.performLease name place operation).run world = (.error failure, after) →
        failure.kind = .unexpected ∧ after = world := by
  have tracks := reachable.tracked worker holding holds
  refine ⟨⟨?sound, ?complete⟩, ?saved, ?refused, ?unleased⟩
  case sound =>
    intro succeeded
    have saved : race.rows.save holding.staged =
        (.ok (), (race.rows.save holding.staged).2) := Prod.ext succeeded rfl
    exact (tracks.process?_commit updates (Rows.save_eq_ok_iff.mp saved)).1
  case complete =>
    intro current
    obtain ⟨after, committed⟩ := tracks.committed current
    rw [Rows.save_eq_ok_iff.mpr committed]
  case saved =>
    intro after saved
    obtain ⟨_, finalFound, before, found, raised⟩ :=
      tracks.process?_commit updates (Rows.save_eq_ok_iff.mp saved)
    exact ⟨before, holding.copy, found, finalFound, rfl, rfl, raised⟩
  case refused =>
    intro failure after saved
    obtain ⟨refused, unchanged⟩ := Rows.save_eq_error_iff.mp saved
    exact ⟨by simpa [Failure.isStale] using Rows.isStale_of_commit_eq_error refused, unchanged⟩
  case unleased =>
    intro name place operation world failure after refused
    obtain ⟨unchanged, kind⟩ := Session.Act.performLease_eq_error refused
    exact ⟨kind, unchanged⟩

/-- Two workers load the same process and raise its version.  The second to save is
refused, because the first has saved in the meantime. -/
theorem no_lost_update_of_two :
    ∃ (id : Uuid) (race : Race Bool) (holding : Holding), Reachable id race ∧
      race.holdings false = some holding ∧ Batch.Updates id holding.staged ∧
      holding.seen ≠ race.commits ∧ (race.rows.save holding.staged).1 ≠ .ok () := by
  let process := Process.fresh (.ofNat 1) .setupDim
  let copy : Process := { process with version := 1 }
  let update := Change.updateProcess process.id 0 ⟨1, .keep⟩
  have raised : LeaseOp.raise.perform process = .ok (copy, [update]) := rfl
  have updates : Batch.Updates process.id [update] := ⟨0, _, List.mem_singleton.mpr rfl⟩
  have saved : (Rows.mk [process] []).save [update] = (.ok (), ⟨[copy], []⟩) := rfl
  have start : Reachable process.id (⟨⟨[process], []⟩, 0, fun _ => none⟩ : Race Bool) :=
    .start _
  have firstLoaded := start.move (.load true rfl)
  have bothLoaded := firstLoaded.move (.load false rfl)
  have firstRaised := bothLoaded.move (.lease true rfl raised)
  have bothRaised := firstRaised.move (.lease false rfl raised)
  have firstSaved := bothRaised.move (.save true rfl updates saved)
  have settled :=
    @no_lost_update Bool _ _ process.id false ⟨copy, [update], 0⟩ firstSaved rfl updates
  have late : 0 ≠ 1 := Nat.zero_ne_one
  exact ⟨process.id, _, ⟨copy, [update], 0⟩, firstSaved, rfl, updates, late,
    fun saved => late (settled.1.mp saved)⟩

end Race

end Workflow
