import Workflow.Proofs.Rows.Keyed

/-!
# The effect of a batch

A batch is applied change by change.  What it does to one row does not depend on
the other rows: a step goes through the updates of this step, and a process
through the updates of this process, each of which must find the version it
expects.  A batch without deletions therefore leaves exactly the steps that were
there and the steps that it inserts, each of them after its own updates.
-/

namespace Workflow

theorem exists_of_bind_eq_ok {α β : Type} {action : Except Failure α}
    {next : α → Except Failure β} {result : β} (succeeded : action >>= next = .ok result) :
    ∃ value, action = .ok value ∧ next value = .ok result := by
  cases action with
  | ok value => exact ⟨value, rfl, succeeded⟩
  | error failure => cases succeeded

namespace Change

/-- The step after a change, which concerns it only if it updates this step. -/
def stepAfter (change : Change) (step : Step) : Step :=
  match change with
  | updateStep id update changed => if step.id = id then update.apply changed step else step
  | _ => step

/-- The process after a change, unless the change expects another version. -/
def processAfter? (change : Change) (process : Process) : Option Process :=
  match change with
  | insertProcess inserted => some (if inserted.id = process.id then inserted else process)
  | updateProcess id expected update =>
      if id = process.id then
        if process.version = expected then some (update.apply process) else none
      else some process
  | _ => some process

/-- Whether a change concerns a process row. -/
def concernsProcess : Change → Bool
  | insertProcess _ => true
  | updateProcess _ _ _ => true
  | _ => false

@[simp] theorem id_stepAfter (change : Change) (step : Step) :
    (change.stepAfter step).id = step.id := by
  cases change <;> simp only [stepAfter]
  split <;> rfl

@[simp] theorem process_stepAfter (change : Change) (step : Step) :
    (change.stepAfter step).process = step.process := by
  cases change <;> simp only [stepAfter]
  split <;> rfl

@[simp] theorem type_stepAfter (change : Change) (step : Step) :
    (change.stepAfter step).type = step.type := by
  cases change <;> simp only [stepAfter]
  split <;> rfl

theorem id_of_processAfter? {change : Change} {process after : Process}
    (followed : change.processAfter? process = some after) : after.id = process.id := by
  cases change with
  | insertProcess inserted =>
      simp only [processAfter?, Option.some.injEq] at followed
      subst followed
      split <;> simp_all
  | updateProcess id expected update =>
      simp only [processAfter?] at followed
      split at followed
      · split at followed
        · cases followed
          rfl
        · cases followed
      · cases followed
        rfl
  | insertStep _ | updateStep _ _ _ | deleteStep _ =>
      cases followed
      rfl

end Change

namespace Batch

variable {batch first second : Batch} {change : Change} {step : Step}
  {process after : Process}

/-- The step after all changes of a batch. -/
def stepAfter (batch : Batch) (step : Step) : Step :=
  batch.foldl (fun step change => change.stepAfter step) step

/-- The process after all changes of a batch, unless one of them expects another
version. -/
def processAfter? (batch : Batch) (process : Process) : Option Process :=
  batch.foldlM (fun process change => change.processAfter? process) process

/-- The steps that a batch inserts, in order. -/
def insertedSteps (batch : Batch) : List Step :=
  batch.filterMap fun
    | .insertStep step => some step
    | _ => none

/-- The processes that a batch inserts, in order. -/
def insertedProcesses (batch : Batch) : List Process :=
  batch.filterMap fun
    | .insertProcess process => some process
    | _ => none

@[simp] theorem stepAfter_nil : stepAfter [] = id := rfl

@[simp] theorem stepAfter_cons :
    stepAfter (change :: batch) step = stepAfter batch (change.stepAfter step) := rfl

@[simp] theorem stepAfter_append :
    stepAfter (first ++ second) step = stepAfter second (stepAfter first step) :=
  List.foldl_append

@[simp] theorem id_stepAfter : (stepAfter batch step).id = step.id := by
  induction batch generalizing step with
  | nil => rfl
  | cons change batch induction => simp [induction]

@[simp] theorem process_stepAfter : (stepAfter batch step).process = step.process := by
  induction batch generalizing step with
  | nil => rfl
  | cons change batch induction => simp [induction]

@[simp] theorem type_stepAfter : (stepAfter batch step).type = step.type := by
  induction batch generalizing step with
  | nil => rfl
  | cons change batch induction => simp [induction]

theorem stepAfter_of_notMem
    (unnamed : ∀ update changed, .updateStep step.id update changed ∉ batch) :
    stepAfter batch step = step := by
  induction batch with
  | nil => rfl
  | cons change batch induction =>
      have kept : change.stepAfter step = step := by
        cases change with
        | updateStep id update changed =>
            have different : step.id ≠ id := by
              intro same
              subst same
              exact unnamed update changed List.mem_cons_self
            simp [Change.stepAfter, different]
        | _ => rfl
      rw [stepAfter_cons, kept]
      exact induction fun update changed member =>
        unnamed update changed (List.mem_cons_of_mem change member)

theorem stepAfter_of_concernsProcess
    (concerned : ∀ change ∈ batch, change.concernsProcess) :
    stepAfter batch step = step := by
  apply stepAfter_of_notMem
  intro update changed member
  simpa [Change.concernsProcess] using concerned _ member

@[simp] theorem insertedSteps_nil : insertedSteps [] = [] := rfl

@[simp] theorem insertedSteps_append :
    insertedSteps (first ++ second) = insertedSteps first ++ insertedSteps second :=
  List.filterMap_append

@[simp] theorem insertedProcesses_nil : insertedProcesses [] = [] := rfl

@[simp] theorem insertedProcesses_append :
    insertedProcesses (first ++ second) = insertedProcesses first ++ insertedProcesses second :=
  List.filterMap_append

theorem mem_insertedSteps_iff : step ∈ insertedSteps batch ↔ .insertStep step ∈ batch := by
  constructor
  · intro member
    obtain ⟨change, inBatch, inserts⟩ := List.mem_filterMap.mp member
    cases change <;> simp at inserts
    exact inserts ▸ inBatch
  · intro inBatch
    exact List.mem_filterMap.mpr ⟨_, inBatch, rfl⟩

theorem mem_insertedProcesses_iff :
    process ∈ insertedProcesses batch ↔ .insertProcess process ∈ batch := by
  constructor
  · intro member
    obtain ⟨change, inBatch, inserts⟩ := List.mem_filterMap.mp member
    cases change <;> simp at inserts
    exact inserts ▸ inBatch
  · intro inBatch
    exact List.mem_filterMap.mpr ⟨_, inBatch, rfl⟩

theorem insertedSteps_of_concernsProcess
    (concerned : ∀ change ∈ batch, change.concernsProcess) :
    insertedSteps batch = [] := by
  apply List.eq_nil_iff_forall_not_mem.mpr
  intro step member
  simpa [Change.concernsProcess] using concerned _ (mem_insertedSteps_iff.mp member)

@[simp] theorem processAfter?_nil : processAfter? [] process = some process := rfl

theorem processAfter?_cons :
    processAfter? (change :: batch) process =
      (change.processAfter? process).bind (processAfter? batch) := rfl

theorem processAfter?_append :
    processAfter? (first ++ second) process =
      (processAfter? first process).bind (processAfter? second) :=
  List.foldlM_append

theorem id_of_processAfter? (followed : processAfter? batch process = some after) :
    after.id = process.id := by
  induction batch generalizing process with
  | nil =>
      cases followed
      rfl
  | cons change batch induction =>
      rw [processAfter?_cons, Option.bind_eq_some_iff] at followed
      obtain ⟨middle, changed, rest⟩ := followed
      exact (induction rest).trans (Change.id_of_processAfter? changed)

end Batch

namespace Rows

variable {rows middle after : Rows} {batch first second : Batch} {change : Change}
  {id : Uuid} {process : Process} {failure : Failure}

@[simp] theorem commit_nil : rows.commit [] = .ok rows := rfl

theorem commit_cons :
    rows.commit (change :: batch) = rows.apply change >>= fun rows => rows.commit batch := rfl

theorem commit_cons_eq_ok :
    rows.commit (change :: batch) = .ok after ↔
      ∃ middle, rows.apply change = .ok middle ∧ middle.commit batch = .ok after := by
  rw [commit_cons]
  cases applied : rows.apply change with
  | error failure => simp [bind, Except.bind]
  | ok middle => simp [bind, Except.bind]

theorem commit_append_eq_ok :
    rows.commit (first ++ second) = .ok after ↔
      ∃ middle, rows.commit first = .ok middle ∧ middle.commit second = .ok after := by
  induction first generalizing rows with
  | nil => simp
  | cons change first induction =>
      simp only [List.cons_append, commit_cons_eq_ok, induction]
      constructor
      · intro committed
        obtain ⟨next, applied, middle, committed, rest⟩ := committed
        exact ⟨middle, ⟨next, applied, committed⟩, rest⟩
      · intro committed
        obtain ⟨middle, ⟨next, applied, committed⟩, rest⟩ := committed
        exact ⟨next, applied, middle, committed, rest⟩

theorem commit_snoc (committed : rows.commit batch = .ok middle)
    (applied : middle.apply change = .ok after) :
    rows.commit (batch ++ [change]) = .ok after :=
  commit_append_eq_ok.mpr
    ⟨middle, committed, commit_cons_eq_ok.mpr ⟨after, applied, commit_nil⟩⟩

theorem apply_updateProcess_eq_ok {expected : Int} {update : ProcessUpdate} :
    rows.apply (.updateProcess id expected update) = .ok after ↔
      ∃ process, rows.process? id = some process ∧ process.version = expected ∧
        after = { rows with
          processes := putRow Process.id (update.apply process) rows.processes } := by
  simp only [apply]
  cases found : rows.process? id with
  | none => simp
  | some process =>
      by_cases expects : process.version = expected
      · simp [expects, eq_comm]
      · simp [expects]

theorem apply_updateStep_eq_ok {update : StepUpdate} {changed : Timestamp} :
    rows.apply (.updateStep id update changed) = .ok after ↔
      ∃ step, rows.step? id = some step ∧
        after = { rows with
          steps := putRow Step.id (update.apply changed step) rows.steps } := by
  simp only [apply]
  cases found : rows.step? id with
  | none => simp
  | some step => simp [eq_comm]

theorem apply_deleteStep_eq_ok :
    rows.apply (.deleteStep id) = .ok after ↔
      (rows.step? id).isSome ∧
        after = { rows with steps := dropRow Step.id id rows.steps } := by
  simp only [apply]
  cases found : rows.step? id with
  | none => simp
  | some step => simp [eq_comm]

/-- Whatever a store refuses was based on data that has changed. -/
theorem isStale_of_apply_eq_error (refused : rows.apply change = .error failure) :
    failure.isStale := by
  cases change with
  | insertProcess process => cases refused
  | insertStep step => cases refused
  | updateProcess id expected update =>
      simp only [apply] at refused
      split at refused
      · cases refused
        rfl
      · split at refused
        · cases refused
        · cases refused
          rfl
  | updateStep id update changed =>
      simp only [apply] at refused
      split at refused <;> cases refused
      rfl
  | deleteStep id =>
      simp only [apply] at refused
      split at refused <;> cases refused
      rfl

theorem isStale_of_commit_eq_error (refused : rows.commit batch = .error failure) :
    failure.isStale := by
  induction batch generalizing rows with
  | nil => cases refused
  | cons change batch induction =>
      rw [commit_cons] at refused
      cases applied : rows.apply change with
      | error first =>
          rw [applied] at refused
          cases refused
          exact isStale_of_apply_eq_error applied
      | ok middle =>
          rw [applied] at refused
          exact induction refused

/-! ### Processes -/

theorem process?_apply (applied : rows.apply change = .ok after)
    (found : rows.process? id = some process) :
    ∃ final, change.processAfter? process = some final ∧
      after.process? id = some final := by
  have keyed := id_of_process? found
  cases change with
  | insertProcess inserted =>
      cases applied
      refine ⟨_, rfl, ?_⟩
      change findRow? Process.id id (putRow Process.id inserted rows.processes) = _
      rw [findRow?_putRow, keyed]
      split
      · rfl
      · exact found
  | updateProcess target expected update =>
      obtain ⟨stored, storedFound, expects, rfl⟩ := apply_updateProcess_eq_ok.mp applied
      have storedId : stored.id = target := id_of_process? storedFound
      have updatedId : (update.apply stored).id = target := storedId
      change ∃ final, _ ∧
        findRow? Process.id id (putRow Process.id (update.apply stored) rows.processes) = _
      rw [findRow?_putRow, updatedId]
      by_cases same : target = id
      · subst same
        have equal : stored = process := Option.some.inj (storedFound.symm.trans found)
        subst equal
        exact ⟨update.apply stored, by simp [Change.processAfter?, keyed, expects],
          if_pos rfl⟩
      · have different : target ≠ process.id := keyed ▸ same
        refine ⟨process, by simp [Change.processAfter?, different], ?_⟩
        rw [if_neg same]
        exact found
  | insertStep step =>
      cases applied
      exact ⟨process, rfl, found⟩
  | updateStep target update changed =>
      obtain ⟨step, _, rfl⟩ := apply_updateStep_eq_ok.mp applied
      exact ⟨process, rfl, found⟩
  | deleteStep target =>
      obtain ⟨_, rfl⟩ := apply_deleteStep_eq_ok.mp applied
      exact ⟨process, rfl, found⟩

/-- A stored process goes through its own updates, each of which has found the
version it expects. -/
theorem process?_commit (committed : rows.commit batch = .ok after)
    (found : rows.process? id = some process) :
    ∃ final, Batch.processAfter? batch process = some final ∧
      after.process? id = some final := by
  induction batch generalizing rows process with
  | nil =>
      cases committed
      exact ⟨process, rfl, found⟩
  | cons change batch induction =>
      obtain ⟨middle, applied, rest⟩ := commit_cons_eq_ok.mp committed
      obtain ⟨next, followed, nextFound⟩ := process?_apply applied found
      obtain ⟨final, restFollowed, finalFound⟩ := induction rest nextFound
      exact ⟨final, by simp [Batch.processAfter?_cons, followed, restFollowed], finalFound⟩

/-! ### Steps -/

theorem steps_apply_of_concernsProcess (concerned : change.concernsProcess)
    (applied : rows.apply change = .ok after) : after.steps = rows.steps := by
  cases change with
  | insertProcess process =>
      cases applied
      rfl
  | updateProcess target expected update =>
      obtain ⟨_, _, _, rfl⟩ := apply_updateProcess_eq_ok.mp applied
      rfl
  | insertStep step | updateStep _ _ _ | deleteStep _ =>
      simp [Change.concernsProcess] at concerned

theorem processes_apply (spared : change.concernsProcess = false)
    (applied : rows.apply change = .ok after) : after.processes = rows.processes := by
  cases change with
  | insertStep _ =>
      cases applied
      rfl
  | updateStep _ _ _ =>
      obtain ⟨_, _, rfl⟩ := apply_updateStep_eq_ok.mp applied
      rfl
  | deleteStep _ =>
      obtain ⟨_, rfl⟩ := apply_deleteStep_eq_ok.mp applied
      rfl
  | insertProcess _ | updateProcess _ _ _ => cases spared

theorem steps_apply_updateStep {update : StepUpdate} {changed : Timestamp}
    (unique : (rows.steps.map Step.id).Nodup)
    (applied : rows.apply (.updateStep id update changed) = .ok after) :
    id ∈ rows.steps.map Step.id ∧
      after.steps = rows.steps.map (Change.updateStep id update changed).stepAfter := by
  obtain ⟨step, found, rfl⟩ := apply_updateStep_eq_ok.mp applied
  obtain ⟨member, keyed⟩ := findRow?_eq_some found
  have present : id ∈ rows.steps.map Step.id := keyed ▸ List.mem_map_of_mem member
  refine ⟨present, ?_⟩
  have updatedId : (update.apply changed step).id = id := keyed
  change putRow Step.id (update.apply changed step) rows.steps = _
  rw [putRow_of_mem unique (by rwa [updatedId])]
  apply List.map_congr_left
  intro other otherMember
  simp only [updatedId, Change.stepAfter]
  by_cases same : other.id = id
  · have equal : other = step :=
      eq_of_mem_of_key_eq unique otherMember member (same.trans keyed.symm)
    simp [equal, keyed]
  · simp [same]

theorem steps_apply_insertStep {step : Step} (isNew : step.id ∉ rows.steps.map Step.id)
    (applied : rows.apply (.insertStep step) = .ok after) :
    after.steps = rows.steps ++ [step] := by
  cases applied
  exact putRow_of_notMem isNew

/-- A change that deletes nothing leaves the steps that were there and the one that it inserts,
each after its own update, and does not concern a step that is inserted later. -/
theorem steps_apply {later : List Step} (kept : ∀ id, change ≠ .deleteStep id)
    (unique : ((rows.steps ++ Batch.insertedSteps [change] ++ later).map Step.id).Nodup)
    (applied : rows.apply change = .ok after) :
    after.steps ++ later =
      (rows.steps ++ Batch.insertedSteps [change] ++ later).map change.stepAfter := by
  cases change with
  | insertProcess process | updateProcess id expected update =>
      rw [steps_apply_of_concernsProcess rfl applied]
      change rows.steps ++ later = (rows.steps ++ [] ++ later).map fun step => step
      rw [List.append_nil, List.map_id']
  | insertStep step =>
      have isNew : step.id ∉ rows.steps.map Step.id := by
        intro member
        simp only [List.append_assoc, List.map_append, List.nodup_append] at unique
        exact unique.2.2 _ member _ (by simp [Batch.insertedSteps]) rfl
      rw [steps_apply_insertStep isNew applied]
      exact (List.map_id' (rows.steps ++ [step] ++ later)).symm
  | updateStep id update changed =>
      have nothing : Batch.insertedSteps [.updateStep id update changed] = [] := rfl
      rw [nothing, List.append_nil, List.map_append, List.nodup_append] at unique
      obtain ⟨rowsUnique, _, apart⟩ := unique
      obtain ⟨present, afterSteps⟩ := steps_apply_updateStep rowsUnique applied
      have spared : later.map (Change.updateStep id update changed).stepAfter = later := by
        refine (List.map_congr_left fun step member => ?_).trans later.map_id
        have different : step.id ≠ id := fun same =>
          apart _ present _ (List.mem_map_of_mem member) same.symm
        simp [Change.stepAfter, different]
      rw [nothing, List.append_nil, List.map_append, ← afterSteps, spared]
  | deleteStep id => exact absurd rfl (kept id)

/-- A batch without deletions leaves the steps that were there and those that it
inserts, each after its own updates. -/
theorem steps_commit
    (kept : ∀ id, .deleteStep id ∉ batch)
    (unique : ((rows.steps ++ Batch.insertedSteps batch).map Step.id).Nodup)
    (committed : rows.commit batch = .ok after) :
    after.steps = (rows.steps ++ Batch.insertedSteps batch).map (Batch.stepAfter batch) := by
  induction batch generalizing rows with
  | nil =>
      cases committed
      simp
  | cons change batch induction =>
      obtain ⟨middle, applied, rest⟩ := commit_cons_eq_ok.mp committed
      have firstKept : ∀ id, change ≠ .deleteStep id := fun id deletes =>
        kept id (deletes ▸ List.mem_cons_self)
      have restKept : ∀ id, .deleteStep id ∉ batch := fun id member =>
        kept id (List.mem_cons_of_mem change member)
      have inserted : rows.steps ++ Batch.insertedSteps (change :: batch) =
          rows.steps ++ Batch.insertedSteps [change] ++ Batch.insertedSteps batch := by
        rw [List.append_assoc, ← Batch.insertedSteps_append]
        rfl
      rw [inserted] at unique ⊢
      have advanced := steps_apply firstKept unique applied
      have sameIds : ((middle.steps ++ Batch.insertedSteps batch).map Step.id).Nodup := by
        rw [advanced, List.map_map]
        exact (List.map_congr_left fun step _ => Change.id_stepAfter change step).symm ▸ unique
      rw [induction restKept sameIds rest, advanced, List.map_map]
      exact List.map_congr_left fun step _ => Batch.stepAfter_cons.symm

/-! ### Unique identifiers -/

theorem keyed_apply (keyed : rows.Keyed) (applied : rows.apply change = .ok after) :
    after.Keyed := by
  cases change with
  | insertProcess process =>
      cases applied
      exact ⟨nodup_putRow keyed.processes, keyed.steps⟩
  | insertStep step =>
      cases applied
      exact ⟨keyed.processes, nodup_putRow keyed.steps⟩
  | updateProcess id expected update =>
      obtain ⟨_, _, _, rfl⟩ := apply_updateProcess_eq_ok.mp applied
      exact ⟨nodup_putRow keyed.processes, keyed.steps⟩
  | updateStep id update changed =>
      obtain ⟨_, _, rfl⟩ := apply_updateStep_eq_ok.mp applied
      exact ⟨keyed.processes, nodup_putRow keyed.steps⟩
  | deleteStep id =>
      obtain ⟨_, rfl⟩ := apply_deleteStep_eq_ok.mp applied
      exact ⟨keyed.processes, nodup_dropRow keyed.steps⟩

theorem keyed_commit (keyed : rows.Keyed) (committed : rows.commit batch = .ok after) :
    after.Keyed := by
  induction batch generalizing rows with
  | nil =>
      cases committed
      exact keyed
  | cons change batch induction =>
      obtain ⟨middle, applied, rest⟩ := commit_cons_eq_ok.mp committed
      exact induction (keyed_apply keyed applied) rest

end Rows

end Workflow
