import Mathlib.Data.List.Forall2
import Mathlib.Data.List.Nodup
import Workflow.Rows

/-!
# Rows with unique identifiers

Every row of a store is found under its own identifier, because no two rows of a
kind share one.  Under this condition a row is in the store exactly when it is
what a look-up of its identifier returns, and putting a row either replaces one
row in its place or adds one at the end.
-/

namespace Workflow

variable {α : Type} {key : α → Uuid} {id : Uuid} {row other : α} {rows : List α}

theorem Uuid.eq_of_toNat_eq {left right : Uuid} (same : left.toNat = right.toNat) :
    left = right := by
  obtain ⟨bits⟩ := left
  obtain ⟨otherBits⟩ := right
  exact congrArg Uuid.mk (BitVec.eq_of_toNat_eq same)

theorem nodup_eraseDups [DecidableEq α] (items : List α) : items.eraseDups.Nodup := by
  induction size : items.length using Nat.strongRecOn generalizing items with
  | ind size induction =>
      subst size
      cases items with
      | nil => exact List.nodup_nil
      | cons first rest =>
          rw [List.eraseDups_cons, List.nodup_cons]
          constructor
          · simp
          · exact induction _ (Nat.lt_succ_of_le (List.length_filter_le _ rest)) _ rfl

theorem nodup_map_fst_zip {β : Type} {items : List α} (unique : items.Nodup)
    (others : List β) : ((items.zip others).map Prod.fst).Nodup := by
  rw [List.zip_eq_zip_take_min, List.map_fst_zip (by simp)]
  exact unique.sublist (List.take_sublist _ items)

theorem filter_eq_of_forall₂ {α : Type} {relation : α → α → Prop} {chosen : α → Bool}
    {left right : List α} (related : List.Forall₂ relation left right)
    (same : ∀ first second, relation first second →
      second = first ∨ chosen first = false ∧ chosen second = false) :
    right.filter chosen = left.filter chosen := by
  induction related with
  | nil => rfl
  | cons isRelated _ induction =>
      rcases same _ _ isRelated with rfl | ⟨firstNot, secondNot⟩
      · rw [List.filter_cons, List.filter_cons, induction]
      · rw [List.filter_cons, List.filter_cons, firstNot, secondNot]
        exact induction

theorem filter_map_eq_filter {α : Type} {becomes : α → α} {chosen : α → Bool} {items : List α}
    (same : ∀ item ∈ items,
      becomes item = item ∨ chosen item = false ∧ chosen (becomes item) = false) :
    (items.map becomes).filter chosen = items.filter chosen := by
  have related : List.Forall₂ (fun item other => other = item ∨
      chosen item = false ∧ chosen other = false) items (items.map becomes) :=
    List.forall₂_map_right_iff.mpr (List.forall₂_same.mpr same)
  exact filter_eq_of_forall₂ related fun _ _ isRelated => isRelated

theorem exists_of_mem_forall₂ {α β : Type} {relation : α → β → Prop} {left : List α}
    {right : List β} (related : List.Forall₂ relation left right) {first : α}
    (member : first ∈ left) : ∃ second ∈ right, relation first second := by
  induction related with
  | nil => cases member
  | @cons head other left right isRelated _ induction =>
      rcases List.mem_cons.mp member with rfl | later
      · exact ⟨other, List.mem_cons_self, isRelated⟩
      · obtain ⟨second, inRight, isSecond⟩ := induction later
        exact ⟨second, List.mem_cons_of_mem _ inRight, isSecond⟩

theorem findRow?_eq_some
    (found : findRow? key id rows = some row) :
    row ∈ rows ∧ key row = id := by
  constructor
  · exact List.mem_of_find?_eq_some found
  · simpa using List.find?_some found

theorem findRow?_eq_some_iff
    (unique : (rows.map key).Nodup) :
    findRow? key id rows = some row ↔ row ∈ rows ∧ key row = id := by
  constructor
  · exact findRow?_eq_some
  · intro stored
    obtain ⟨member, keyed⟩ := stored
    induction rows with
    | nil => cases member
    | cons first rest induction =>
        obtain ⟨firstUnique, restUnique⟩ := List.nodup_cons.mp unique
        rcases List.mem_cons.mp member with isFirst | inRest
        · subst isFirst
          simp [findRow?, keyed]
        · have different : key first ≠ id := by
            intro same
            exact firstUnique (same ▸ keyed ▸ List.mem_map_of_mem inRest)
          simpa [findRow?, different] using induction restUnique inRest

theorem findRow?_isSome_iff :
    (findRow? key id rows).isSome ↔ id ∈ rows.map key := by
  simp [findRow?, List.find?_isSome]

theorem findRow?_eq_none_iff :
    findRow? key id rows = none ↔ id ∉ rows.map key := by
  simp [findRow?]

theorem eq_of_mem_of_key_eq
    (unique : (rows.map key).Nodup)
    (member : row ∈ rows) (otherMember : other ∈ rows)
    (same : key row = key other) : row = other := by
  have found := (findRow?_eq_some_iff unique).mpr ⟨member, same⟩
  have otherFound := (findRow?_eq_some_iff unique).mpr ⟨otherMember, rfl⟩
  exact Option.some.inj (found.symm.trans otherFound)

theorem findRow?_putRow :
    findRow? key id (putRow key row rows) =
      if key row = id then some row else findRow? key id rows := by
  induction rows with
  | nil => by_cases same : key row = id <;> simp [putRow, findRow?, same]
  | cons first rest induction =>
      by_cases replaced : key first = key row
      · by_cases same : key row = id <;>
          simp [putRow, findRow?, replaced, same]
      · by_cases same : key first = id
        · subst same
          simp [putRow, findRow?, replaced, Ne.symm replaced]
        · simpa [putRow, findRow?, replaced, same] using induction

theorem mem_putRow (member : other ∈ putRow key row rows) : other = row ∨ other ∈ rows := by
  induction rows with
  | nil => exact .inl (List.mem_singleton.mp member)
  | cons first rest induction =>
      rw [putRow] at member
      split at member
      · rcases List.mem_cons.mp member with same | inRest
        · exact .inl same
        · exact .inr (List.mem_cons_of_mem _ inRest)
      · rcases List.mem_cons.mp member with same | inRest
        · exact .inr (same ▸ List.mem_cons_self)
        · exact (induction inRest).imp id (List.mem_cons_of_mem _)

theorem putRow_of_notMem (absent : key row ∉ rows.map key) :
    putRow key row rows = rows ++ [row] := by
  induction rows with
  | nil => rfl
  | cons first rest induction =>
      simp only [List.map_cons, List.mem_cons, not_or] at absent
      simp [putRow, Ne.symm absent.1, induction absent.2]

theorem putRow_of_mem
    (unique : (rows.map key).Nodup) (present : key row ∈ rows.map key) :
    putRow key row rows =
      rows.map fun other => if key other = key row then row else other := by
  induction rows with
  | nil => simp at present
  | cons first rest induction =>
      obtain ⟨firstUnique, restUnique⟩ := List.nodup_cons.mp unique
      by_cases replaced : key first = key row
      · have restKept :
            rest.map (fun other => if key other = key row then row else other) = rest := by
          rw [List.map_congr_left (g := id), List.map_id]
          intro other member
          have different : key other ≠ key row := by
            intro same
            exact firstUnique
              (replaced.trans same.symm ▸ List.mem_map_of_mem member)
          simp [different]
        simp [putRow, replaced, restKept]
      · have inRest : key row ∈ rest.map key := by
          simpa [Ne.symm replaced] using present
        simp [putRow, replaced, induction restUnique inRest]

theorem map_key_putRow_of_mem
    (unique : (rows.map key).Nodup) (present : key row ∈ rows.map key) :
    (putRow key row rows).map key = rows.map key := by
  rw [putRow_of_mem unique present, List.map_map]
  apply List.map_congr_left
  intro other _
  by_cases same : key other = key row <;> simp [same]

theorem mem_map_key_putRow (present : id ∈ rows.map key) :
    id ∈ (putRow key row rows).map key := by
  rw [← findRow?_isSome_iff] at present ⊢
  rw [findRow?_putRow]
  split
  · rfl
  · exact present

theorem nodup_putRow (unique : (rows.map key).Nodup) :
    ((putRow key row rows).map key).Nodup := by
  by_cases present : key row ∈ rows.map key
  · rwa [map_key_putRow_of_mem unique present]
  · rw [putRow_of_notMem present, List.map_append, List.nodup_append]
    refine ⟨unique, by simp, ?_⟩
    intro first firstMember second secondMember same
    simp only [List.map_cons, List.map_nil, List.mem_singleton] at secondMember
    exact present (secondMember ▸ same ▸ firstMember)

theorem findRow?_dropRow {other : Uuid} :
    findRow? key other (dropRow key id rows) =
      if other = id then none else findRow? key other rows := by
  rw [findRow?, dropRow, List.find?_filter]
  split
  · rename_i same
    simp [same]
  · rename_i different
    rw [findRow?]
    congr 1
    funext row
    by_cases named : key row = other <;> simp [named, different]

theorem nodup_dropRow (unique : (rows.map key).Nodup) :
    ((dropRow key id rows).map key).Nodup :=
  unique.sublist (List.Sublist.map key List.filter_sublist)

namespace Rows

/-- No two processes and no two steps of a store share an identifier. -/
structure Keyed (rows : Rows) : Prop where
  processes : (rows.processes.map Process.id).Nodup
  steps : (rows.steps.map Step.id).Nodup

variable {rows : Rows} {process : Process} {step other : Step}

theorem id_of_process? (found : rows.process? id = some process) :
    process.id = id :=
  (findRow?_eq_some found).2

theorem Keyed.eq_of_id_eq (keyed : rows.Keyed)
    (member : step ∈ rows.steps) (otherMember : other ∈ rows.steps)
    (same : step.id = other.id) : step = other :=
  eq_of_mem_of_key_eq keyed.steps member otherMember same

/-- The steps that belong to a process, in the order of their insertion. -/
def owned (rows : Rows) (process : Uuid) : List Step :=
  rows.steps.filter fun step => step.process == process

theorem Keyed.nodup_owned (keyed : rows.Keyed) (process : Uuid) :
    ((rows.owned process).map Step.id).Nodup :=
  keyed.steps.sublist (List.Sublist.map Step.id List.filter_sublist)

@[simp] theorem mem_owned_iff :
    step ∈ rows.owned id ↔ step ∈ rows.steps ∧ step.process = id := by
  simp [owned]

theorem mem_stepTypes_iff {type : StepType} :
    type ∈ rows.stepTypes id ↔ ∃ step ∈ rows.owned id, step.type = type := by
  simp [stepTypes, typesOf, StepType.mem_members, and_assoc]

theorem mem_pendingSteps_iff {pending : PendingStep} :
    pending ∈ rows.pendingSteps id ↔
      ∃ step ∈ rows.owned id,
        step.isPending ∧ step.id = pending.id ∧ step.type = pending.type := by
  obtain ⟨pendingId, pendingType⟩ := pending
  simp [pendingSteps, and_assoc]

/-- The pending steps of a process depend on its own steps only. -/
theorem pendingSteps_congr {other : Rows} (same : other.owned id = rows.owned id) :
    other.pendingSteps id = rows.pendingSteps id := by
  have ofOwned : ∀ rows : Rows, rows.pendingSteps id =
      (((rows.owned id).filter Step.isPending).mergeSort Step.isQueuedNotAfter).map
        fun step => ⟨step.id, step.type⟩ := by
    intro rows
    simp only [pendingSteps, owned, List.filter_filter, Bool.and_comm]
  rw [ofOwned, ofOwned, same]

theorem nodup_pendingSteps (keyed : rows.Keyed) :
    ((rows.pendingSteps id).map PendingStep.id).Nodup := by
  have same :
      (rows.pendingSteps id).map PendingStep.id =
        ((rows.steps.filter fun step => step.process == id && step.isPending).mergeSort
          Step.isQueuedNotAfter).map Step.id := by
    simp [pendingSteps]
  rw [same, ((List.mergeSort_perm _ _).map Step.id).nodup_iff]
  exact keyed.steps.sublist (List.Sublist.map Step.id List.filter_sublist)

end Rows

end Workflow
