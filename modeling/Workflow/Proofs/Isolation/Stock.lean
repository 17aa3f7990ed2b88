import Workflow.Proofs.Tables.Taken

/-!
# Stores divided among processes

The rows of a store divide among processes: each process has its own row and the rows of
its steps.  A change is *for* a process if it concerns these rows only.  In every kind of
store, what belongs to other processes stays as it is when such changes are committed.
-/

namespace Workflow

/-- A change of the row of a process, or of a step that was made for the process. -/
def Change.IsFor (owner : Uuid → Uuid) (process : Uuid) : Change → Prop
  | insertProcess inserted => inserted.id = process
  | insertStep step => step.process = process ∧ owner step.id = process
  | updateProcess id _ _ => id = process
  | updateStep step _ _ | deleteStep step => owner step = process

def Batch.IsFor (owner : Uuid → Uuid) (process : Uuid) (batch : Batch) : Prop :=
  ∀ change ∈ batch, change.IsFor owner process

/-- Every step belongs to the process that its identifier was made for. -/
def Attributed (owner : Uuid → Uuid) (entries : List (Uuid × Uuid)) : Prop :=
  ∀ entry ∈ entries, owner entry.1 = entry.2

/-- A kind of store whose rows divide among processes. -/
structure Stock (σ : Type) where
  apply : σ → Change → Except Failure σ
  pendingSteps : σ → Uuid → List PendingStep
  /-- The stored steps, each with the process that it belongs to. -/
  entries : σ → List (Uuid × Uuid)
  /-- All rows but those of a process and of its steps. -/
  without : Uuid → σ → σ
  mem_entries : ∀ {store process step}, step ∈ pendingSteps store process →
    (step.id, process) ∈ entries store
  attributed_apply : ∀ {store after change owner process}, Attributed owner (entries store) →
    change.IsFor owner process → apply store change = .ok after → Attributed owner (entries after)
  without_apply : ∀ {store after change owner process}, Attributed owner (entries store) →
    change.IsFor owner process → apply store change = .ok after →
      without process after = without process store

namespace Batch

variable {owner : Uuid → Uuid} {process : Uuid} {first second : Batch}

theorem isFor_nil : IsFor owner process [] := by
  simp [IsFor]

theorem IsFor.append (firstFor : IsFor owner process first)
    (secondFor : IsFor owner process second) : IsFor owner process (first ++ second) := by
  intro change member
  rcases List.mem_append.mp member with inFirst | inSecond
  · exact firstFor change inFirst
  · exact secondFor change inSecond

theorem isFor_ofUpdates {updates : List (Uuid × StepUpdate)} {clock : Readings}
    (targets : ∀ entry ∈ updates, owner entry.1 = process) :
    IsFor owner process (Change.ofUpdates clock updates) := by
  intro change member
  obtain ⟨entry, listed, _, rfl⟩ := Change.mem_ofUpdates member
  exact targets entry listed

end Batch

namespace Stock

variable {σ : Type} {stock : Stock σ} {store after : σ} {owner : Uuid → Uuid} {process : Uuid}
  {batch : Batch}

/-- Applies a batch in order, all of it or nothing. -/
def commit (stock : Stock σ) (store : σ) (batch : Batch) : Except Failure σ :=
  batch.foldlM stock.apply store

theorem commit_cons_eq_ok {change : Change} :
    stock.commit store (change :: batch) = .ok after ↔
      ∃ middle, stock.apply store change = .ok middle ∧ stock.commit middle batch = .ok after := by
  rw [commit, List.foldlM_cons]
  constructor
  · exact exists_of_bind_eq_ok
  · rintro ⟨middle, applied, rest⟩
    rw [applied]
    exact rest

theorem attributed_commit (attributed : Attributed owner (stock.entries store))
    (isFor : batch.IsFor owner process) (committed : stock.commit store batch = .ok after) :
    Attributed owner (stock.entries after) := by
  induction batch generalizing store with
  | nil =>
      cases committed
      exact attributed
  | cons change batch induction =>
      obtain ⟨changeFor, restFor⟩ := List.forall_mem_cons.mp isFor
      obtain ⟨middle, applied, rest⟩ := commit_cons_eq_ok.mp committed
      exact induction (stock.attributed_apply attributed changeFor applied) restFor rest

/-- **What belongs to others stays.**  A batch for one process changes nothing but the row of
this process and the rows of its steps. -/
theorem without_commit (attributed : Attributed owner (stock.entries store))
    (isFor : batch.IsFor owner process) (committed : stock.commit store batch = .ok after) :
    stock.without process after = stock.without process store := by
  induction batch generalizing store with
  | nil =>
      cases committed
      rfl
  | cons change batch induction =>
      obtain ⟨changeFor, restFor⟩ := List.forall_mem_cons.mp isFor
      obtain ⟨middle, applied, rest⟩ := commit_cons_eq_ok.mp committed
      have still := stock.attributed_apply attributed changeFor applied
      exact (induction still restFor rest).trans
        (stock.without_apply attributed changeFor applied)

end Stock

/-! ### Rows in memory -/

section Rows

variable {α : Type} {key : α → Uuid} {row : α} {rows : List α} {chosen : α → Bool}

theorem filter_putRow (unchosen : chosen row = false)
    (apart : ∀ other ∈ rows, key other = key row → chosen other = false) :
    (putRow key row rows).filter chosen = rows.filter chosen := by
  induction rows with
  | nil => simp [putRow, unchosen]
  | cons first rest induction =>
      obtain ⟨firstApart, restApart⟩ := List.forall_mem_cons.mp apart
      rw [putRow]
      split
      · rename_i same
        simp [unchosen, firstApart same]
      · rw [List.filter_cons, List.filter_cons, induction restApart]

theorem filter_dropRow {id : Uuid}
    (apart : ∀ other ∈ rows, key other = id → chosen other = false) :
    (dropRow key id rows).filter chosen = rows.filter chosen := by
  rw [dropRow, List.filter_filter]
  apply List.filter_congr
  intro other member
  by_cases named : key other = id
  · simp [apart other member named]
  · simp [named]

end Rows

namespace Rows

variable {rows after : Rows} {change : Change} {owner : Uuid → Uuid} {process : Uuid}

/-- The steps that are stored, each with the process that it belongs to. -/
def entries (rows : Rows) : List (Uuid × Uuid) :=
  rows.steps.map fun step => (step.id, step.process)

/-- All rows but those of a process and of its steps. -/
def without (process : Uuid) (rows : Rows) : Rows where
  processes := dropRow Process.id process rows.processes
  steps := rows.steps.filter fun step => step.process != process

theorem attributed_iff :
    Attributed owner rows.entries ↔ ∀ step ∈ rows.steps, owner step.id = step.process := by
  simp [Attributed, entries]

theorem without_putProcess {put : Process} (isFor : put.id = process) :
    without process { rows with processes := putRow Process.id put rows.processes } =
      without process rows := by
  subst isFor
  have same : dropRow Process.id put.id (putRow Process.id put rows.processes) =
      dropRow Process.id put.id rows.processes :=
    filter_putRow (by simp) fun other _ same => by simp [same]
  rw [without, without, same]

theorem without_putStep {step : Step} (attributed : Attributed owner rows.entries)
    (isFor : step.process = process) (made : owner step.id = process) :
    without process { rows with steps := putRow Step.id step rows.steps } =
      without process rows := by
  have same : (putRow Step.id step rows.steps).filter (fun step => step.process != process) =
      rows.steps.filter fun step => step.process != process := by
    refine filter_putRow (by simp [isFor]) fun other member sameId => ?_
    rw [← attributed_iff.mp attributed other member, sameId, made]
    exact bne_self_eq_false process
  rw [without, without, same]

theorem attributed_putStep {step : Step} (attributed : Attributed owner rows.entries)
    (made : owner step.id = step.process) :
    Attributed owner (entries { rows with steps := putRow Step.id step rows.steps }) := by
  refine attributed_iff.mpr fun other member => ?_
  rcases mem_putRow member with rfl | before
  · exact made
  · exact attributed_iff.mp attributed other before

theorem process_of_step? {step : Step} {id : Uuid} (attributed : Attributed owner rows.entries)
    (found : rows.step? id = some step) (made : owner id = process) :
    owner step.id = process ∧ step.process = process := by
  obtain ⟨member, sameId⟩ := findRow?_eq_some found
  have belongs := attributed_iff.mp attributed step member
  rw [sameId, made] at belongs
  exact ⟨sameId ▸ made, belongs.symm⟩

theorem attributed_apply (attributed : Attributed owner rows.entries)
    (isFor : change.IsFor owner process) (applied : rows.apply change = .ok after) :
    Attributed owner after.entries := by
  cases change with
  | insertProcess inserted =>
      cases applied
      exact attributed
  | insertStep step =>
      cases applied
      exact attributed_putStep attributed (isFor.2.trans isFor.1.symm)
  | updateProcess id expected update =>
      obtain ⟨_, _, _, rfl⟩ := apply_updateProcess_eq_ok.mp applied
      exact attributed
  | updateStep id update changed =>
      obtain ⟨step, found, rfl⟩ := apply_updateStep_eq_ok.mp applied
      obtain ⟨made, belongs⟩ := process_of_step? attributed found isFor
      exact attributed_putStep attributed (made.trans belongs.symm)
  | deleteStep id =>
      obtain ⟨_, rfl⟩ := apply_deleteStep_eq_ok.mp applied
      exact attributed_iff.mpr fun other member =>
        attributed_iff.mp attributed other (List.mem_of_mem_filter member)

theorem without_apply (attributed : Attributed owner rows.entries)
    (isFor : change.IsFor owner process) (applied : rows.apply change = .ok after) :
    without process after = without process rows := by
  cases change with
  | insertProcess inserted =>
      cases applied
      exact without_putProcess isFor
  | insertStep step =>
      cases applied
      exact without_putStep attributed isFor.1 isFor.2
  | updateProcess id expected update =>
      obtain ⟨stored, found, _, rfl⟩ := apply_updateProcess_eq_ok.mp applied
      exact without_putProcess ((id_of_process? found).trans isFor)
  | updateStep id update changed =>
      obtain ⟨step, found, rfl⟩ := apply_updateStep_eq_ok.mp applied
      obtain ⟨made, belongs⟩ := process_of_step? attributed found isFor
      exact without_putStep attributed belongs made
  | deleteStep id =>
      obtain ⟨_, rfl⟩ := apply_deleteStep_eq_ok.mp applied
      have same : (dropRow Step.id id rows.steps).filter (fun step => step.process != process) =
          rows.steps.filter fun step => step.process != process := by
        refine filter_dropRow fun step member named => ?_
        rw [← attributed_iff.mp attributed step member, named]
        exact bne_eq_false_iff_eq.mpr isFor
      rw [without, without, same]

end Rows

/-- The store without a database. -/
def Stock.rows : Stock Rows where
  apply := Rows.apply
  pendingSteps := Rows.pendingSteps
  entries := Rows.entries
  without := Rows.without
  mem_entries := by
    intro rows process pending listed
    obtain ⟨step, owned, _, sameId, _⟩ := Rows.mem_pendingSteps_iff.mp listed
    obtain ⟨member, rfl⟩ := Rows.mem_owned_iff.mp owned
    exact sameId ▸ List.mem_map_of_mem member
  attributed_apply := Rows.attributed_apply
  without_apply := Rows.without_apply

@[simp] theorem Stock.commit_rows (rows : Rows) (batch : Batch) :
    Stock.rows.commit rows batch = rows.commit batch := rfl

/-! ### Tables -/

namespace Tables

variable {tables after : Tables} {change : Change} {owner : Uuid → Uuid} {process : Uuid}

/-- The steps that are stored, each with the process that it belongs to. -/
def entries (tables : Tables) : List (Uuid × Uuid) :=
  tables.steps.map fun row => (row.id, row.process)

/-- All rows but those of a process and of its steps. -/
def without (process : Uuid) (tables : Tables) : Tables where
  capacity := tables.capacity
  processes := tables.processes.filter fun row => row.id != process
  steps := tables.steps.filter fun row => row.process != process

theorem attributed_iff :
    Attributed owner tables.entries ↔ ∀ row ∈ tables.steps, owner row.id = row.process := by
  simp [Attributed, entries]

theorem attributed_apply (attributed : Attributed owner tables.entries)
    (isFor : change.IsFor owner process) (applied : tables.apply change = .ok after) :
    Attributed owner after.entries := by
  cases change with
  | insertProcess inserted =>
      obtain ⟨_, _, rfl⟩ := apply_insertProcess_eq_ok.mp applied
      exact attributed
  | insertStep step =>
      obtain ⟨_, _, _, rfl⟩ := apply_insertStep_eq_ok.mp applied
      refine attributed_iff.mpr fun row member => ?_
      rcases List.mem_append.mp member with before | isNew
      · exact attributed_iff.mp attributed row before
      · obtain rfl := List.mem_singleton.mp isNew
        exact isFor.2.trans isFor.1.symm
  | updateProcess id expected update =>
      obtain ⟨_, _, _, _, rfl⟩ := apply_updateProcess_eq_ok.mp applied
      exact attributed
  | updateStep id update changed =>
      obtain ⟨_, _, _, rfl⟩ := apply_updateStep_eq_ok.mp applied
      refine attributed_iff.mpr fun row member => ?_
      obtain ⟨before, stored, rfl⟩ := List.mem_map.mp member
      have belongs := attributed_iff.mp attributed before stored
      split <;> exact belongs
  | deleteStep id =>
      obtain ⟨_, rfl⟩ := apply_deleteStep_eq_ok.mp applied
      exact attributed_iff.mpr fun row member =>
        attributed_iff.mp attributed row (List.mem_of_mem_filter member)

theorem without_apply (attributed : Attributed owner tables.entries)
    (isFor : change.IsFor owner process) (applied : tables.apply change = .ok after) :
    without process after = without process tables := by
  cases change with
  | insertProcess inserted =>
      obtain ⟨_, _, rfl⟩ := apply_insertProcess_eq_ok.mp applied
      have isOwn : inserted.record.id = process := isFor
      simp [without, isOwn]
  | insertStep step =>
      obtain ⟨_, _, _, rfl⟩ := apply_insertStep_eq_ok.mp applied
      have isOwn : step.record.process = process := isFor.1
      simp [without, isOwn]
  | updateProcess id expected update =>
      obtain ⟨_, _, _, _, rfl⟩ := apply_updateProcess_eq_ok.mp applied
      obtain rfl : id = process := isFor
      refine congrArg (Tables.mk _ · _) (filter_map_eq_filter fun row _ => ?_)
      by_cases isTarget : row.id = id ∧ row.version = expected
      · have sameId : (update.record row).id = id := isTarget.1
        exact .inr (by simp [isTarget, sameId])
      · exact .inl (if_neg isTarget)
  | updateStep id update changed =>
      obtain ⟨_, _, _, rfl⟩ := apply_updateStep_eq_ok.mp applied
      refine congrArg (Tables.mk _ _ ·) (filter_map_eq_filter fun row member => ?_)
      by_cases isTarget : row.id = id
      · have belongs : row.process = process := by
          rw [← attributed_iff.mp attributed row member, isTarget, isFor]
        have belongsAfter : (update.record changed row).process = process := belongs
        exact .inr (by simp [isTarget, belongs, belongsAfter])
      · exact .inl (if_neg isTarget)
  | deleteStep id =>
      obtain ⟨_, rfl⟩ := apply_deleteStep_eq_ok.mp applied
      refine congrArg (Tables.mk _ _ ·) (filter_dropRow fun row member named => ?_)
      rw [← attributed_iff.mp attributed row member, named]
      exact bne_eq_false_iff_eq.mpr isFor

end Tables

/-- The store in a database. -/
def Stock.tables : Stock Tables where
  apply := Tables.apply
  pendingSteps := Tables.pendingSteps
  entries := Tables.entries
  without := Tables.without
  mem_entries := by
    intro tables process pending listed
    obtain ⟨row, member, rfl⟩ := List.mem_map.mp listed
    obtain ⟨stored, chosen⟩ := List.mem_filter.mp (List.mem_mergeSort.mp member)
    have owns : row.process = process := beq_iff_eq.mp (Bool.and_eq_true_iff.mp chosen).1
    exact owns ▸ List.mem_map_of_mem stored
  attributed_apply := Tables.attributed_apply
  without_apply := Tables.without_apply

@[simp] theorem Stock.commit_tables (tables : Tables) (batch : Batch) :
    Stock.tables.commit tables batch = tables.commit batch := rfl

end Workflow
