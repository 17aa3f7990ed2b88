import Workflow.Proofs.Paging.Page
import Workflow.Proofs.Tables.Question

/-!
# Eligible processes in pages

The eligible processes of a store, in the order of their identifiers, are what its pages are
pages of.  A process is eligible if its type is asked for, nobody holds it at the date, and one
of its pending steps has a type that is asked for.
-/

namespace Workflow

/-- Identifiers are ordered as numbers. -/
instance : LinearOrder Uuid :=
  LinearOrder.lift' Uuid.toNat fun _ _ => Uuid.eq_of_toNat_eq

theorem Uuid.lt_iff_isBefore {left right : Uuid} : left < right ↔ left.isBefore right :=
  decide_eq_true_iff.symm

namespace Rows

variable {rows : Rows} {query : Eligible} {process : Process} {after : Option Uuid} {limit : Nat}

/-- A stored process of a type that is asked for, with a pending step of such a type. -/
structure IsWanted (rows : Rows) (query : Eligible) (process : Process) : Prop where
  stored : process ∈ rows.processes
  type : process.type ∈ query.types
  step : ∃ step ∈ rows.steps,
    step.process = process.id ∧ step.status = some .todo ∧ step.type ∈ query.steps

/-- A wanted process without a lease, or with one that has expired before the date. -/
structure IsDue (rows : Rows) (query : Eligible) (process : Process) : Prop
    extends rows.IsWanted query process where
  free : ∀ expiry, process.lease = some expiry → expiry.instant < query.date.instant

/-- A lease is over at all times from the date on exactly if it has expired before. -/
theorem isLeased_eq_false_iff {now : Timestamp} :
    process.isLeased now = false ↔
      ∀ expiry, process.lease = some expiry → expiry.instant < now.instant := by
  cases leased : process.lease with
  | none => simp [Process.isLeased, leased]
  | some expiry => simp [Process.isLeased, leased]

theorem isEligible_iff (stored : process ∈ rows.processes) :
    rows.isEligible query process ↔ rows.IsDue query process := by
  have wanted : (rows.steps.any fun step => step.process == process.id && step.isPending &&
      query.steps.contains step.type) = true ↔ ∃ step ∈ rows.steps,
        step.process = process.id ∧ step.status = some .todo ∧ step.type ∈ query.steps := by
    simp [Step.isPending, and_assoc]
  rw [isEligible, Bool.and_eq_true, Bool.and_eq_true, wanted, List.contains_iff_mem,
    Bool.not_eq_true', isLeased_eq_false_iff]
  constructor
  · rintro ⟨⟨type, free⟩, step⟩
    exact ⟨⟨stored, type, step⟩, free⟩
  · rintro ⟨⟨_, type, step⟩, free⟩
    exact ⟨⟨type, free⟩, step⟩

/-- The eligible processes in the order of their identifiers. -/
def due (rows : Rows) (query : Eligible) : List Process :=
  (rows.processes.filter (rows.isEligible query)).mergeSort (isIdNotAfter Process.id)

theorem mem_due : process ∈ rows.due query ↔ rows.IsDue query process := by
  rw [due, List.mem_mergeSort, List.mem_filter]
  constructor
  · rintro ⟨stored, eligible⟩
    exact (isEligible_iff stored).mp eligible
  · intro isDue
    exact ⟨isDue.stored, (isEligible_iff isDue.stored).mpr isDue⟩

theorem ascending_due (keyed : rows.Keyed) : Paging.Ascending Process.id (rows.due query) := by
  have unique : ((rows.due query).map Process.id).Nodup :=
    ((List.mergeSort_perm _ _).map Process.id).nodup_iff.mpr
      (keyed.processes.sublist (List.Sublist.map Process.id List.filter_sublist))
  refine (sorted_mergeSort _).imp₂ (fun left right notAfter different => ?_)
    (List.pairwise_map.mp unique)
  exact lt_of_le_of_ne (of_decide_eq_true notAfter) different

/-- **A page of eligible processes holds the first ones after a key.** -/
theorem eligiblePage_eq_pageAfter (keyed : rows.Keyed) :
    rows.eligiblePage query after limit =
      Paging.pageAfter limit Process.id (rows.due query) after := by
  have unique := keyed.processes.sublist
    (List.Sublist.map Process.id (@List.filter_sublist _ (rows.isEligible query) rows.processes))
  have isAfter_eq : ∀ id, isAfter after id = Paging.comesAfter after id := by
    cases after <;> exact fun _ => rfl
  rw [eligiblePage_eq keyed, Paging.pageAfter, Paging.itemsAfter, due, filter_mergeSort unique,
    List.filter_filter, eligibleAfter]
  simp only [isAfter_eq, Bool.and_comm]

theorem mem_of_mem_eligiblePage (keyed : rows.Keyed)
    (member : process ∈ rows.eligiblePage query after limit) : rows.IsDue query process := by
  rw [eligiblePage_eq_pageAfter keyed] at member
  exact mem_due.mp (Paging.mem_of_mem_pageAfter member).1

theorem due_of_isEmpty (empty : query.types = [] ∨ query.steps = []) : rows.due query = [] := by
  refine List.eq_nil_iff_forall_not_mem.mpr fun process member => ?_
  obtain ⟨⟨_, isType, step, _, _, _, isStep⟩, _⟩ := mem_due.mp member
  rcases empty with noTypes | noSteps
  · rw [noTypes] at isType
    cases isType
  · rw [noSteps] at isStep
    cases isStep

end Rows

end Workflow
