import Workflow.Proofs.Rows.Respect

/-!
# Commits that others can rely on

Whoever writes the row of a process raises its version.  A process therefore
*advances*: as long as its version is the same, so is its row.  If everybody who
writes its steps writes the row too, then the steps are also the same.
-/

namespace Workflow

namespace Rows

/-- While the version of a process stays the same, so does its row, and so do its
steps if these are guarded by the version. -/
structure Advances (guarded : Prop) (id : Uuid) (before after : Rows) : Prop where
  keyed : before.Keyed → after.Keyed
  process : ∀ process, before.process? id = some process →
    ∃ final, after.process? id = some final ∧
      (process.version < final.version ∨
        final = process ∧ (guarded → after.owned id = before.owned id))

/-- Every step with a terminal status keeps it. -/
def KeepsOutcomes (before after : Rows) : Prop :=
  ∀ step ∈ before.steps, step.isTerminal →
    ∃ final ∈ after.steps, final.id = step.id ∧ final.status = step.status

/-- No inserted step has a type that its process already had or that another inserted
step of the process has. -/
structure AddsNewTypes (before after : Rows) : Prop where
  absent : ∀ step ∈ after.steps, step.id ∉ before.steps.map Step.id →
    ∀ other ∈ before.steps, other.process = step.process → other.type ≠ step.type
  distinct : ∀ step ∈ after.steps, step.id ∉ before.steps.map Step.id →
    ∀ other ∈ after.steps, other.id ∉ before.steps.map Step.id →
      other.process = step.process → other.type = step.type → other = step

/-- The stored process is at least as new as a copy of it, and equal to the copy if
it has the same version. -/
def Anchors (rows : Rows) (copy : Process) : Prop :=
  ∃ stored, rows.process? copy.id = some stored ∧ copy.version ≤ stored.version ∧
    (stored.version = copy.version → stored = copy)

variable {rows middle after : Rows} {batch : Batch} {id : Uuid} {copy : Process}
  {guarded : Prop}

theorem Advances.refl (guarded : Prop) (id : Uuid) (rows : Rows) :
    rows.Advances guarded id rows where
  keyed := fun keyed => keyed
  process := fun process found => ⟨process, found, .inr ⟨rfl, fun _ => rfl⟩⟩

theorem Advances.trans (first : rows.Advances guarded id middle)
    (second : middle.Advances guarded id after) : rows.Advances guarded id after := by
  refine ⟨fun keyed => second.keyed (first.keyed keyed), ?_⟩
  intro process found
  obtain ⟨next, nextFound, firstCase⟩ := first.process process found
  obtain ⟨final, finalFound, secondCase⟩ := second.process next nextFound
  refine ⟨final, finalFound, ?_⟩
  rcases firstCase with raised | ⟨rfl, sameSteps⟩
  · rcases secondCase with raisedAgain | ⟨rfl, _⟩
    · exact .inl (Int.lt_trans raised raisedAgain)
    · exact .inl raised
  · rcases secondCase with raised | ⟨rfl, sameAgain⟩
    · exact .inl raised
    · exact .inr ⟨rfl, fun holds => (sameAgain holds).trans (sameSteps holds)⟩

theorem anchors_of_process? (found : rows.process? id = some copy) : rows.Anchors copy := by
  have keyed : copy.id = id := id_of_process? found
  exact ⟨copy, keyed ▸ found, Int.le_refl _, fun _ => rfl⟩

theorem Anchors.advance (anchored : rows.Anchors copy)
    (advanced : rows.Advances guarded copy.id after) : after.Anchors copy := by
  obtain ⟨stored, found, older, same⟩ := anchored
  obtain ⟨final, finalFound, finalCase⟩ := advanced.process stored found
  rcases finalCase with raised | ⟨rfl, _⟩
  · exact ⟨final, finalFound, by omega, fun equal => by omega⟩
  · exact ⟨final, finalFound, older, same⟩

/-- A copy that is current after others have written has been current all along. -/
theorem Anchors.current_of_advances (anchored : rows.Anchors copy)
    (advanced : rows.Advances guarded copy.id after)
    (current : after.process? copy.id = some copy) :
    rows.process? copy.id = some copy ∧ (guarded → after.owned copy.id = rows.owned copy.id) := by
  obtain ⟨stored, found, older, same⟩ := anchored
  obtain ⟨final, finalFound, finalCase⟩ := advanced.process stored found
  obtain rfl : final = copy := Option.some.inj (finalFound.symm.trans current)
  rcases finalCase with raised | ⟨rfl, sameSteps⟩
  · omega
  · exact ⟨found, sameSteps⟩

theorem KeepsOutcomes.refl (rows : Rows) : rows.KeepsOutcomes rows :=
  fun step member _ => ⟨step, member, rfl, rfl⟩

theorem KeepsOutcomes.trans (first : rows.KeepsOutcomes middle)
    (second : middle.KeepsOutcomes after) : rows.KeepsOutcomes after := by
  intro step member terminal
  obtain ⟨next, nextMember, nextId, nextStatus⟩ := first step member terminal
  have nextTerminal : next.isTerminal := by
    simpa [Step.isTerminal, nextStatus] using terminal
  obtain ⟨final, finalMember, finalId, finalStatus⟩ :=
    second next nextMember nextTerminal
  exact ⟨final, finalMember, finalId.trans nextId, finalStatus.trans nextStatus⟩

/-- A respectful batch rewrites the steps of its process and no others. -/
theorem owned_commit (keyed : rows.Keyed) (fresh : Batch.IsFresh rows batch)
    (respects : Batch.Respects id (rows.owned id) batch)
    (committed : rows.commit batch = .ok after) :
    after.owned id = Batch.overlay batch (rows.owned id) ∧
      ∀ other, other ≠ id → after.owned other = rows.owned other := by
  have unique := fresh.steps_unique keyed
  have steps := steps_commit respects.keeps_steps unique committed
  have distribute : ∀ other, after.owned other =
      (rows.owned other ++ (Batch.insertedSteps batch).filter
        fun step => step.process == other).map (Batch.stepAfter batch) := by
    intro other
    have sameOwner : (fun step : Step => step.process == other) ∘ Batch.stepAfter batch =
        fun step => step.process == other := by
      funext step
      simp
    rw [owned, steps, List.filter_map, sameOwner, List.filter_append, owned]
  constructor
  · rw [distribute id, List.filter_eq_self.mpr, Batch.overlay]
    intro step member
    simpa using respects.inserted_owned step member
  · intro other different
    have nothingInserted :
        (Batch.insertedSteps batch).filter (fun step => step.process == other) = [] := by
      rw [List.filter_eq_nil_iff]
      intro step member
      simpa [respects.inserted_owned step member] using Ne.symm different
    rw [distribute other, nothingInserted, List.append_nil]
    rw [List.map_congr_left (g := fun step => step), List.map_id']
    intro step member
    obtain ⟨inRows, owner⟩ := mem_owned_iff.mp member
    apply Batch.stepAfter_of_notMem
    intro update changed updated
    -- The updated step belongs to the process of the batch, this one does not.
    have targeted := respects.targets _ update changed updated
    rw [Batch.map_id_overlay] at targeted
    obtain ⟨target, targetMember, sameId⟩ := List.mem_map.mp targeted
    rcases List.mem_append.mp targetMember with inOwned | isInserted
    · obtain ⟨targetInRows, targetOwner⟩ := mem_owned_iff.mp inOwned
      have equal := keyed.eq_of_id_eq targetInRows inRows sameId
      exact different (owner.symm.trans (equal ▸ targetOwner))
    · exact fresh.steps target isInserted (sameId ▸ List.mem_map_of_mem inRows)

theorem keepsOutcomes_commit (keyed : rows.Keyed) (fresh : Batch.IsFresh rows batch)
    (respects : Batch.Respects id (rows.owned id) batch)
    (committed : rows.commit batch = .ok after) : rows.KeepsOutcomes after := by
  intro step member terminal
  have owner : step ∈ rows.owned step.process := mem_owned_iff.mpr ⟨member, rfl⟩
  obtain ⟨own, others⟩ := owned_commit keyed fresh respects committed
  by_cases concerned : step.process = id
  · have final : Batch.stepAfter batch step ∈ after.owned id := by
      rw [own]
      exact List.mem_map_of_mem (List.mem_append_left _ (concerned ▸ owner))
    exact ⟨_, (mem_owned_iff.mp final).1, Batch.id_stepAfter,
      respects.keeps_outcomes step (concerned ▸ owner) terminal⟩
  · rw [← others step.process concerned] at owner
    exact ⟨step, (mem_owned_iff.mp owner).1, rfl, rfl⟩

theorem addsNewTypes_commit (keyed : rows.Keyed) (fresh : Batch.IsFresh rows batch)
    (respects : Batch.Respects id (rows.owned id) batch)
    (committed : rows.commit batch = .ok after) : rows.AddsNewTypes after := by
  obtain ⟨own, others⟩ := owned_commit keyed fresh respects committed
  -- Every new step is one that the batch inserts, up to its own updates.
  have inserted : ∀ step ∈ after.steps, step.id ∉ rows.steps.map Step.id →
      ∃ origin ∈ Batch.insertedSteps batch, Batch.stepAfter batch origin = step := by
    intro step member isNew
    have stepOwned : step ∈ after.owned step.process := mem_owned_iff.mpr ⟨member, rfl⟩
    have concerned : step.process = id := by
      by_contra different
      rw [others step.process different] at stepOwned
      exact isNew (List.mem_map_of_mem (mem_owned_iff.mp stepOwned).1)
    rw [concerned, own] at stepOwned
    obtain ⟨origin, originMember, rfl⟩ := List.mem_map.mp stepOwned
    rcases List.mem_append.mp originMember with inOwned | isInserted
    · have inRows := (mem_owned_iff.mp inOwned).1
      exact absurd (List.mem_map_of_mem inRows) (Batch.id_stepAfter ▸ isNew)
    · exact ⟨origin, isInserted, rfl⟩
  constructor
  · intro step member isNew other otherMember sameProcess sameType
    obtain ⟨origin, isInserted, rfl⟩ := inserted step member isNew
    rw [Batch.process_stepAfter, respects.inserted_owned origin isInserted] at sameProcess
    have otherOwned : other ∈ rows.owned id := mem_owned_iff.mpr ⟨otherMember, sameProcess⟩
    apply respects.inserted_types origin isInserted
    rw [← Batch.type_stepAfter, ← sameType]
    exact List.mem_map_of_mem otherOwned
  · intro step member isNew other otherMember otherNew _ sameType
    obtain ⟨origin, isInserted, rfl⟩ := inserted step member isNew
    obtain ⟨otherOrigin, otherInserted, rfl⟩ := inserted other otherMember otherNew
    rw [Batch.type_stepAfter, Batch.type_stepAfter] at sameType
    rw [List.inj_on_of_nodup_map respects.inserted_types_nodup otherInserted isInserted sameType]

/-- Batches that raise every version they write let all processes advance.  The steps
of a process are guarded by its version if batches that write them respect them and
write its row too. -/
theorem advances_commit (keyed : rows.Keyed) (raises : Batch.Raises batch)
    (kept : ∀ inserted ∈ Batch.insertedProcesses batch, rows.process? inserted.id = none)
    (steps : guarded → Batch.IsFresh rows batch ∧ ∃ id,
      Batch.Respects id (rows.owned id) batch ∧
        (Batch.Updates id batch ∨ rows.process? id = none))
    (committed : rows.commit batch = .ok after) (id : Uuid) :
    rows.Advances guarded id after := by
  refine ⟨fun keyed => keyed_commit keyed committed, ?_⟩
  intro process found
  obtain ⟨final, followed, finalFound⟩ := process?_commit committed found
  have processId : process.id = id := id_of_process? found
  have processKept :
      ∀ inserted ∈ Batch.insertedProcesses batch, inserted.id ≠ process.id := by
    intro inserted member same
    have absent := kept inserted member
    rw [same, processId, found] at absent
    cases absent
  obtain ⟨older, unchanged⟩ := Batch.version_le_of_processAfter? raises processKept followed
  refine ⟨final, finalFound, ?_⟩
  rcases Int.lt_or_eq_of_le older with raised | same
  · exact .inl raised
  · refine .inr ⟨unchanged same.symm, ?_⟩
    intro holds
    obtain ⟨fresh, target, respects, guard⟩ := steps holds
    apply (owned_commit keyed fresh respects committed).2 id
    intro same
    subst same
    rcases guard with updates | absent
    · have raised :=
        Batch.version_lt_of_processAfter? raises processKept followed (processId ▸ updates)
      omega
    · simp [absent] at found

end Rows

end Workflow
