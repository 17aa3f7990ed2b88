import Workflow.Proofs.Paging.Visit
import Workflow.Proofs.Tables.Commit

/-!
# Questions to rows and to tables

Tables that record the rows of a store answer every question as the store does, with the time
stamps on the clock of universal time.  Rows and records are filtered and sorted alike because
what decides is the same on both sides: identifiers, types, and instants or their texts.
-/

namespace Workflow

section Sorting

variable {α : Type} {key : α → Uuid} {items : List α}

/-- The order by identifiers. -/
def isIdNotAfter (key : α → Uuid) (left right : α) : Bool :=
  (key left).toNat ≤ (key right).toNat

theorem sorted_mergeSort (items : List α) :
    (items.mergeSort (isIdNotAfter key)).Pairwise fun left right =>
      isIdNotAfter key left right := by
  refine List.pairwise_mergeSort ?_ ?_ items
  · simp only [isIdNotAfter, decide_eq_true_eq]
    exact fun _ _ _ => Nat.le_trans
  · simp only [isIdNotAfter, Bool.or_eq_true, decide_eq_true_eq]
    exact fun _ _ => Nat.le_total _ _

theorem filter_mergeSort (unique : (items.map key).Nodup) (chosen : α → Bool) :
    (items.mergeSort (isIdNotAfter key)).filter chosen =
      (items.filter chosen).mergeSort (isIdNotAfter key) := by
  refine List.Perm.eq_of_pairwise ?_ ((sorted_mergeSort items).filter chosen)
    (sorted_mergeSort _) ?_
  · intro left right leftMember rightMember notAfter notBefore
    simp only [isIdNotAfter, decide_eq_true_eq] at notAfter notBefore
    have member := List.mem_mergeSort.mp (List.mem_filter.mp leftMember).1
    have otherMember := (List.mem_filter.mp (List.mem_mergeSort.mp rightMember)).1
    exact eq_of_mem_of_key_eq unique member otherMember
      (Uuid.eq_of_toNat_eq (Nat.le_antisymm notAfter notBefore))
  · exact ((List.mergeSort_perm _ _).filter chosen).trans (List.mergeSort_perm _ _).symm

end Sorting

namespace Rows

variable {rows : Rows} {query : Eligible} {after : Option Uuid} {limit : Nat}

/-- Whether an identifier comes after the key that a page starts after. -/
def isAfter (after : Option Uuid) (id : Uuid) : Bool :=
  match after with
  | none => true
  | some key => key.isBefore id

/-- The eligible processes that a page and those after it hold. -/
def eligibleAfter (rows : Rows) (query : Eligible) (after : Option Uuid) : List Process :=
  rows.processes.filter fun process => rows.isEligible query process && isAfter after process.id

theorem eligiblePage_eq (keyed : rows.Keyed) :
    rows.eligiblePage query after limit =
      ((rows.eligibleAfter query after).mergeSort (isIdNotAfter Process.id)).take limit := by
  have unique := keyed.processes.sublist
    (List.Sublist.map Process.id (@List.filter_sublist _ (rows.isEligible query) rows.processes))
  rw [eligiblePage.eq_def, eligibleAfter]
  cases after with
  | none => simp only [isAfter, Bool.and_true]; rfl
  | some key =>
      have split : (rows.processes.filter fun process =>
          rows.isEligible query process && isAfter (some key) process.id) =
          (rows.processes.filter (rows.isEligible query)).filter fun process =>
            key.isBefore process.id := by
        rw [List.filter_filter]
        simp only [isAfter, Bool.and_comm]
      rw [split, ← filter_mergeSort unique]
      rfl

theorem length_eligibleAfter_lt (keyed : rows.Keyed) {last : Process}
    (isLast : (rows.eligiblePage query after limit).getLast? = some last) :
    (rows.eligibleAfter query (some last.id)).length < (rows.eligibleAfter query after).length := by
  rw [eligiblePage_eq keyed] at isLast
  have member : last ∈ rows.eligibleAfter query after :=
    List.mem_mergeSort.mp (List.mem_of_mem_take (List.mem_of_getLast? isLast))
  have lastAfter := (Bool.and_eq_true_iff.mp (List.mem_filter.mp member).2).2
  have within : rows.eligibleAfter query (some last.id) =
      (rows.eligibleAfter query after).filter fun process => last.id.isBefore process.id := by
    rw [eligibleAfter, eligibleAfter, List.filter_filter]
    refine List.filter_congr fun process _ => ?_
    cases after with
    | none =>
        simp only [isAfter, Bool.and_true]
        exact Bool.and_comm _ _
    | some key =>
        have passes : last.id.isBefore process.id → key.isBefore process.id := by
          simp only [isAfter, Uuid.isBefore, decide_eq_true_eq] at lastAfter ⊢
          exact Nat.lt_trans lastAfter
        cases isBefore : last.id.isBefore process.id with
        | false => simp [isAfter, isBefore]
        | true => simp [isAfter, isBefore, passes isBefore]
  rw [within, List.length_filter_lt_length_iff_exists]
  exact ⟨last, member, by simp [Uuid.isBefore]⟩

theorem eligiblePage_of_isEmpty (empty : (query.types.isEmpty || query.steps.isEmpty) = true) :
    rows.eligiblePage query after limit = [] := by
  have none : rows.processes.filter (rows.isEligible query) = [] := by
    refine List.filter_eq_nil_iff.mpr fun process _ eligible => ?_
    simp only [isEligible, Bool.and_eq_true, List.any_eq_true] at eligible
    obtain ⟨⟨isType, _⟩, step, _, _, isStep⟩ := eligible
    rcases Bool.or_eq_true_iff.mp empty with noTypes | noSteps
    · simp [List.isEmpty_iff.mp noTypes] at isType
    · simp [List.isEmpty_iff.mp noSteps] at isStep
  rw [eligiblePage.eq_def, none]
  cases after <;> simp

end Rows

namespace Eligible

/-- The question for pages of a size can be asked of tables, or no process can match at all. -/
def Allows (query : Eligible) (capacity : Nat) (pageSize : Int) : Prop :=
  query.types = [] ∨ query.steps = [] ∨
    Tables.valueCount query ≤ capacity ∧ pageSize < Tables.columnBound

/-- Why a question that cannot be asked is refused; its values are counted first. -/
def refusal (query : Eligible) (capacity : Nat) : Failure :=
  if Tables.valueCount query ≤ capacity then .integerBeyondColumn else .tooManyValues

variable {query : Eligible} {capacity limit : Nat}

theorem allows_iff : query.Allows capacity limit ↔
    (query.types.isEmpty || query.steps.isEmpty) = true ∨
      Tables.valueCount query ≤ capacity ∧ Tables.FitsColumn limit := by
  have fits : Tables.FitsColumn limit ↔ (limit : Int) < Tables.columnBound := by
    have nonnegative : 0 ≤ Tables.columnBound := by decide
    rw [Tables.FitsColumn]
    omega
  rw [Allows, fits, Bool.or_eq_true, List.isEmpty_iff, List.isEmpty_iff, or_assoc]

end Eligible

namespace Tables

/-! ### One process -/

namespace Records

variable {tables : Tables} {rows : Rows} {id : Uuid} (records : tables.Records rows)
include records

theorem record?_eq : tables.record? id = (rows.process? id).map Process.record := by
  rw [record?, records.processes, List.find?_map]
  rfl

theorem filter_steps {chosen : StepRecord → Bool} :
    tables.steps.filter chosen =
      (rows.steps.filter fun step => chosen step.record).map Step.record := by
  rw [records.steps, List.filter_map]
  rfl

/-- The steps of a process are read in the order of their age. -/
theorem stepsOf_eq : tables.stepsOf id = .ok ((rows.stepsOf id).map Step.atUtc) := by
  have storable : ∀ step ∈ rows.steps.filter (fun step => step.process == id),
      step.IsStorable :=
    fun step member => records.storableSteps step (List.mem_filter.mp member).1
  have sorted := List.map_mergeSort fun left member right otherMember =>
    (isNotAfter_record (storable left member) (storable right otherMember)).symm
  rw [stepsOf, records.filter_steps]
  change ((List.map Step.record
    (rows.steps.filter fun step => step.process == id)).mergeSort isNotAfter).mapM readStep = _
  rw [← sorted, List.mapM_map, Rows.stepsOf, oldestFirst]
  exact mapM_eq_ok fun step member =>
    readStep_record (storable step (List.mem_mergeSort.mp member))

theorem detailOf_eq {process : Process} (member : process ∈ rows.processes) :
    tables.detailOf process.record =
      .ok (process.withSteps (rows.stepsOf process.id)).atUtc := by
  rw [detailOf, readProcess_record (records.storableProcesses process member)]
  change (tables.stepsOf process.id >>= _) = _
  rw [records.stepsOf_eq]
  rfl

theorem detail?_eq : tables.detail? id = .ok ((rows.detail? id).map ProcessDetail.atUtc) := by
  rw [detail?, records.record?_eq, Rows.detail?]
  cases found : rows.process? id with
  | none => rfl
  | some process =>
      obtain ⟨member, rfl⟩ := findRow?_eq_some found
      simp only [Option.map_some, records.detailOf_eq member]
      rfl

theorem exists_details : ∃ details, tables.details = .ok details ∧
    details.Perm (rows.details.map ProcessDetail.atUtc) := by
  let detail (process : Process) : ProcessDetail :=
    (process.withSteps (rows.stepsOf process.id)).atUtc
  refine ⟨(rows.processes.mergeSort (isIdNotAfter Process.id)).map detail, ?_, ?_⟩
  · have sorted := @List.map_mergeSort _ _ (isIdNotAfter Process.id) (isIdNotAfter ProcessRecord.id)
      Process.record rows.processes fun _ _ _ _ => rfl
    rw [details, sortedProcesses, records.processes]
    change ((rows.processes.map Process.record).mergeSort
      (isIdNotAfter ProcessRecord.id)).mapM _ = _
    rw [← sorted, List.mapM_map]
    exact mapM_eq_ok fun process member =>
      records.detailOf_eq (List.mem_mergeSort.mp member)
  · rw [Rows.details, List.map_map]
    exact (List.mergeSort_perm _ _).map detail

theorem pendingSteps_eq : tables.pendingSteps id = rows.pendingSteps id := by
  have storable : ∀ step ∈ rows.steps.filter (fun step => step.process == id && step.isPending),
      step.IsStorable :=
    fun step member => records.storableSteps step (List.mem_filter.mp member).1
  have sorted := List.map_mergeSort fun left member right otherMember =>
    (isQueuedNotAfter_record (storable left member) (storable right otherMember)).symm
  have chosen : (rows.steps.filter fun step =>
      step.record.process == id && step.record.status == .todo) =
      rows.steps.filter fun step => step.process == id && step.isPending :=
    List.filter_congr fun step member => by
      rw [isPending_record (records.storableSteps step member)]
      rfl
  rw [pendingSteps, records.filter_steps, chosen, ← sorted, List.map_map, Rows.pendingSteps]
  rfl

theorem stepTypes_eq : tables.stepTypes id = rows.stepTypes id := by
  rw [stepTypes, records.filter_steps, List.map_map]
  rfl

theorem load?_eq {filter : Option (List StepType)} :
    tables.load? id filter = .ok ((rows.load? id filter).map Loaded.atUtc) := by
  rw [load?, records.detail?_eq, Rows.load?]
  cases rows.detail? id with
  | none => rfl
  | some detail =>
      have steps : (detail.atUtc.steps.filter fun step =>
          step.isPending && allowed filter step.type) =
          (detail.steps.filter fun step =>
            step.isPending && allowed filter step.type).map Step.atUtc :=
        List.filter_map
      simp only [Option.map_some, Loaded.atUtc, Loaded.ofDetail, ← steps]
      rfl

/-! ### Eligible processes -/

variable {query : Eligible} {after : Option Uuid} {limit : Nat}

theorem isEligible_record (writable : query.date.IsWritable) {process : Process}
    (storable : process.IsStorable) :
    tables.isEligible query query.date.column process.record = rows.isEligible query process := by
  have pending : (tables.steps.any fun row =>
      row.process == process.record.id && row.status == .todo && query.steps.contains row.type) =
      rows.steps.any fun step =>
        step.process == process.id && step.isPending && query.steps.contains step.type := by
    rw [records.steps, List.any_map, Bool.eq_iff_iff, List.any_eq_true, List.any_eq_true]
    refine exists_congr fun step => and_congr_right fun member => ?_
    rw [← isPending_record (records.storableSteps step member)]
    rfl
  rw [isEligible, pending]
  exact congrArg (fun free => (query.types.contains process.type && free) && _)
    (lease_record storable writable)

/-- A page is read alike if the question for it can be asked. -/
theorem eligiblePage_eq (writable : query.date.IsWritable)
    (allows : query.Allows tables.capacity limit) :
    tables.eligiblePage query after limit =
      .ok ((rows.eligiblePage query after limit).map Process.atUtc) := by
  by_cases empty : (query.types.isEmpty || query.steps.isEmpty) = true
  · rw [eligiblePage.eq_def, if_pos empty, Rows.eligiblePage_of_isEmpty empty]
    rfl
  obtain ⟨carried, fits⟩ := (Eligible.allows_iff.mp allows).resolve_left empty
  have sorted := @List.map_mergeSort _ _ (isIdNotAfter Process.id) (isIdNotAfter ProcessRecord.id)
    Process.record rows.processes fun _ _ _ _ => rfl
  have sortedRecords : tables.sortedProcesses =
      (rows.processes.mergeSort (isIdNotAfter Process.id)).map Process.record := by
    rw [sorted, sortedProcesses, records.processes]
    rfl
  have chosen : (tables.sortedProcesses.filter fun record =>
      tables.isEligible query query.date.column record && Rows.isAfter after record.id) =
      ((rows.eligibleAfter query after).mergeSort
        (isIdNotAfter Process.id)).map Process.record := by
    rw [sortedRecords, List.filter_map, Rows.eligibleAfter,
      ← filter_mergeSort records.keyed.processes]
    refine congrArg (List.map Process.record) (List.filter_congr fun process member => ?_)
    have storable := records.storableProcesses process (List.mem_mergeSort.mp member)
    simp only [Function.comp, records.isEligible_record writable storable]
    rfl
  have page : tables.eligiblePage query after limit =
      ((tables.sortedProcesses.filter fun record =>
        tables.isEligible query query.date.column record && Rows.isAfter after record.id).take
          limit).mapM readProcess := by
    rw [eligiblePage.eq_def, if_neg empty, writeTime_eq writable, carry, if_pos carried,
      columnInteger_eq fits]
    cases after <;> rfl
  rw [page, chosen, ← List.map_take, List.mapM_map, Rows.eligiblePage_eq records.keyed]
  refine mapM_eq_ok fun process member => readProcess_record ?_
  have eligible := List.mem_mergeSort.mp (List.mem_of_mem_take member)
  exact records.storableProcesses process (List.mem_filter.mp eligible).1

/-- With fuel for one page more than there are processes a cursor meets the same processes on
both sides. -/
theorem exists_toList (writable : query.date.IsWritable)
    (allows : query.Allows tables.capacity limit) :
    ∃ found, ∀ fuel, rows.processes.length < fuel →
      Paging.toList limit Process.id
          (fun after => (pure (rows.eligiblePage query after limit) : Except Failure _)) fuel =
        .ok found ∧
      Paging.toList limit Process.id (fun after => tables.eligiblePage query after limit) fuel =
        .ok (found.map Process.atUtc) := by
  obtain ⟨found, finishes⟩ := @Paging.toList_finishes (Except Failure) _ _ Process Uuid limit
    (fun after => rows.eligiblePage query after limit) Process.id
    (fun after => (rows.eligibleAfter query after).length)
    fun _ _ isLast => Rows.length_eligibleAfter_lt records.keyed isLast
  refine ⟨found, fun fuel enough => ?_⟩
  have collected := finishes fuel (Nat.lt_of_le_of_lt (List.length_filter_le _ _) enough)
  refine ⟨collected, ?_⟩
  have pages : (fun after => tables.eligiblePage query after limit) = fun after =>
      List.map Process.atUtc <$>
        (pure (rows.eligiblePage query after limit) : Except Failure (List Process)) :=
    funext fun _ => records.eligiblePage_eq writable allows
  have mapped := @Paging.toList_map (Except Failure) _ _ Process Process Uuid limit Process.atUtc
    Process.id Process.id (fun after => pure (rows.eligiblePage query after limit))
    (fun _ => rfl) fuel
  rw [pages, mapped, collected]
  rfl

end Records

theorem eligiblePage_eq_error {tables : Tables} {query : Eligible} {after : Option Uuid}
    {limit : Nat} (writable : query.date.IsWritable)
    (refused : ¬query.Allows tables.capacity limit) :
    tables.eligiblePage query after limit = .error (query.refusal tables.capacity) := by
  obtain ⟨filled, beyond⟩ := not_or.mp (Eligible.allows_iff.not.mp refused)
  rw [eligiblePage.eq_def, if_neg filled, writeTime_eq writable, carry, Eligible.refusal]
  by_cases carried : valueCount query ≤ tables.capacity
  · rw [if_pos carried, if_pos carried, columnInteger_eq_error (beyond ⟨carried, ·⟩)]
    rfl
  · rw [if_neg carried, if_neg carried]
    rfl

end Tables

end Workflow
