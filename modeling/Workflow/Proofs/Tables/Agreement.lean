import Workflow.Proofs.Lease.Race
import Workflow.Proofs.Tables.Question

/-!
# Rows in memory and tables agree

From empty stores the same batches are saved in the same order, once to rows in memory and once
to tables.  Every save is reported alike, and after any number of saves every question is answered
alike.  Only a question for eligible processes can be more than tables can be asked: it lists too
many types, or no integer column holds the size of its pages.
-/

namespace Workflow

/-- The outcome of saving a batch, and the tables afterwards. -/
def Tables.save (tables : Tables) (batch : Batch) : Except Failure Unit × Tables :=
  match tables.commit batch with
  | .ok after => (.ok (), after)
  | .error failure => (.error failure, tables)

/-- The outcomes of saving batches one after another, and the store afterwards. -/
def saveAll {σ : Type} (save : σ → Batch → Except Failure Unit × σ) :
    σ → List Batch → List (Except Failure Unit) × σ
  | store, [] => ([], store)
  | store, batch :: rest =>
    let saved := save store batch
    let others := saveAll save saved.2 rest
    (saved.1 :: others.1, others.2)

/-- Every batch is admissible where the saves before it lead to. -/
def Rows.Admits (rows : Rows) : List Batch → Prop
  | [] => True
  | batch :: rest => batch.IsAdmissible rows ∧ (rows.save batch).2.Admits rest

/-- A cursor of a page size meets the same processes in the same order on both sides.  It has
met all of them after one page more than there are processes at the latest. -/
def Tables.IteratesLike (tables : Tables) (rows : Rows) (query : Eligible) (limit : Nat) : Prop :=
  ∃ found, ∀ fuel, rows.processes.length < fuel →
    Paging.toList limit Process.id
        (fun after => (pure (rows.eligiblePage query after limit) : Except Failure _)) fuel =
      .ok found ∧
    Paging.toList limit Process.id (fun after => tables.eligiblePage query after limit) fuel =
      .ok (found.map Process.atUtc)

/-- Tables answer every question as rows do, with times on the clock of universal time. -/
structure Tables.AnswersLike (tables : Tables) (rows : Rows) : Prop where
  detail? : ∀ id, tables.detail? id = .ok ((rows.detail? id).map ProcessDetail.atUtc)
  pendingSteps : ∀ id, tables.pendingSteps id = rows.pendingSteps id
  stepTypes : ∀ id, tables.stepTypes id = rows.stepTypes id
  load? : ∀ id filter,
    tables.load? id filter = .ok ((rows.load? id filter).map Loaded.atUtc)
  iteration : ∀ query pageSize limit, query.date.IsWritable →
    Paging.limitOf pageSize = .ok limit → query.Allows tables.capacity pageSize →
      tables.IteratesLike rows query limit
  /-- Any other question is refused with the first page. -/
  refusal : ∀ query pageSize limit, query.date.IsWritable →
    Paging.limitOf pageSize = .ok limit → ¬query.Allows tables.capacity pageSize →
      ∀ fuel, 0 < fuel → Paging.toList limit Process.id
        (fun after => tables.eligiblePage query after limit) fuel =
          .error (query.refusal tables.capacity)
  details : ∃ details, tables.details = .ok details ∧
    details.Perm (rows.details.map ProcessDetail.atUtc)

theorem Session.Store.commit_tables (tables : Tables) (batch : Batch) :
    (Session.Store.commit batch).run.run (.tables tables) =
      ((tables.save batch).1, .tables (tables.save batch).2) := by
  have unfolded : (Session.Store.commit batch).run.run (.tables tables) =
      (Session.Store.replaceBy Session.Store.tables (tables.commit batch)).run.run
        (.tables tables) := rfl
  rw [unfolded, Tables.save]
  cases tables.commit batch <;> rfl

namespace Tables

variable {tables : Tables} {rows : Rows} {batch : Batch} {batches : List Batch}

/-- A save is reported alike, and the tables record the rows afterwards. -/
theorem Records.save (records : tables.Records rows) (admissible : batch.IsAdmissible rows) :
    (tables.save batch).1 = (rows.save batch).1 ∧
      (tables.save batch).2.Records (rows.save batch).2 := by
  have outcome := records.commit admissible
  rw [Tables.save, Rows.save]
  generalize tables.commit batch = written at outcome
  generalize rows.commit batch = reached at outcome
  cases outcome with
  | ok holds => exact ⟨rfl, holds⟩
  | error failure => exact ⟨rfl, records⟩

theorem Records.saveAll (records : tables.Records rows) (admits : rows.Admits batches) :
    (saveAll Tables.save tables batches).1 = (saveAll Rows.save rows batches).1 ∧
      (saveAll Tables.save tables batches).2.Records (saveAll Rows.save rows batches).2 := by
  induction batches generalizing tables rows with
  | nil => exact ⟨rfl, records⟩
  | cons batch rest induction =>
      obtain ⟨admissible, restAdmits⟩ := admits
      obtain ⟨sameReport, saved⟩ := records.save admissible
      obtain ⟨sameReports, reached⟩ := induction saved restAdmits
      exact ⟨List.cons_eq_cons.mpr ⟨sameReport, sameReports⟩, reached⟩

theorem isStale_of_mem_saveAll {failure : Failure}
    (reported : .error failure ∈ (Workflow.saveAll Rows.save rows batches).1) :
    failure.isStale := by
  induction batches generalizing rows with
  | nil => cases reported
  | cons batch rest induction =>
      rcases List.mem_cons.mp reported with first | later
      · have refused : rows.save batch = (.error failure, (rows.save batch).2) :=
          Prod.ext first.symm rfl
        exact Rows.isStale_of_commit_eq_error (Rows.save_eq_error_iff.mp refused).1
      · exact induction later

theorem capacity_apply {change : Change} {after : Tables}
    (applied : tables.apply change = .ok after) :
    after.capacity = tables.capacity := by
  cases change with
  | insertProcess process =>
      obtain ⟨_, _, rfl⟩ := apply_insertProcess_eq_ok.mp applied
      rfl
  | insertStep step =>
      obtain ⟨_, _, _, rfl⟩ := apply_insertStep_eq_ok.mp applied
      rfl
  | updateProcess id expected update =>
      obtain ⟨_, _, _, _, rfl⟩ := apply_updateProcess_eq_ok.mp applied
      rfl
  | updateStep id update changed =>
      obtain ⟨_, _, _, rfl⟩ := apply_updateStep_eq_ok.mp applied
      rfl
  | deleteStep id =>
      obtain ⟨_, rfl⟩ := apply_deleteStep_eq_ok.mp applied
      rfl

theorem capacity_commit {after : Tables} (committed : tables.commit batch = .ok after) :
    after.capacity = tables.capacity := by
  induction batch generalizing tables with
  | nil =>
      cases committed
      rfl
  | cons change batch induction =>
      rw [commit, List.foldlM_cons] at committed
      obtain ⟨middle, applied, rest⟩ := exists_of_bind_eq_ok committed
      exact (induction rest).trans (capacity_apply applied)

theorem capacity_saveAll :
    (Workflow.saveAll Tables.save tables batches).2.capacity = tables.capacity := by
  induction batches generalizing tables with
  | nil => rfl
  | cons batch rest induction =>
      refine induction.trans ?_
      rw [Tables.save]
      split
      · exact capacity_commit ‹_›
      · rfl

theorem toNat_of_limitOf {pageSize : Int} {limit : Nat}
    (accepted : Paging.limitOf pageSize = .ok limit) : pageSize = limit := by
  rw [Paging.limitOf] at accepted
  split at accepted
  · cases accepted
  rename_i positive
  obtain rfl := Except.ok.inj accepted
  exact (Int.toNat_of_nonneg (by omega)).symm

/-- A question that cannot be asked is refused with the first page, whatever the tables hold. -/
theorem toList_eq_error {query : Eligible} {limit fuel : Nat} (writable : query.date.IsWritable)
    (refused : ¬query.Allows tables.capacity limit) (some : 0 < fuel) :
    Paging.toList limit Process.id (fun after => tables.eligiblePage query after limit) fuel =
      .error (query.refusal tables.capacity) := by
  obtain ⟨fuel, rfl⟩ := Nat.exists_eq_succ_of_ne_zero (Nat.ne_of_gt some)
  rw [Paging.toList, Paging.visitAll, Paging.visitFrom, eligiblePage_eq_error writable refused]
  rfl

theorem Records.answersLike (records : tables.Records rows) : tables.AnswersLike rows where
  detail? _ := records.detail?_eq
  pendingSteps _ := records.pendingSteps_eq
  stepTypes _ := records.stepTypes_eq
  load? _ _ := records.load?_eq
  details := records.exists_details
  iteration query pageSize limit writable accepted allows := by
    obtain rfl := toNat_of_limitOf accepted
    exact records.exists_toList writable allows
  refusal query pageSize limit writable accepted refused fuel some := by
    obtain rfl := toNat_of_limitOf accepted
    exact toList_eq_error writable refused some

/-- **Rows in memory and tables agree.**  Whatever batches are saved, from empty stores on, as
long as identifiers are new, steps belong to stored processes and a table can hold what is
written: both stores accept and refuse the same batches for the same reasons, all of them lost
races, and they answer every question alike, apart from those that tables cannot be asked. -/
theorem saves_and_answers_agree (capacity : Nat) (admits : Rows.empty.Admits batches) :
    (saveAll Tables.save (ofCapacity capacity) batches).1 =
        (saveAll Rows.save Rows.empty batches).1 ∧
      (∀ failure, .error failure ∈ (saveAll Rows.save Rows.empty batches).1 → failure.isStale) ∧
      (saveAll Tables.save (ofCapacity capacity) batches).2.capacity = capacity ∧
      (saveAll Tables.save (ofCapacity capacity) batches).2.AnswersLike
        (saveAll Rows.save Rows.empty batches).2 := by
  obtain ⟨sameReports, records⟩ := (records_ofCapacity capacity).saveAll admits
  exact ⟨sameReports, fun _ => isStale_of_mem_saveAll, capacity_saveAll, records.answersLike⟩

/-- A new process with one pending step, and then an update that expects another version. -/
def conflicting : List Batch :=
  let process := Process.fresh (.ofNat 0x11111111111111111111111111111111) .setupDim
  let id := Uuid.ofNat 0x22222222222222222222222222222222
  [[.insertProcess process, .insertStep (.fresh id .createSubaccount .todo process.id ⟨0, 0⟩)],
    [.updateProcess process.id 7 ⟨8, .write (some ⟨0, 0⟩)⟩]]

theorem isWritable_start : Timestamp.IsWritable ⟨0, 0⟩ :=
  ⟨by decide, by decide⟩

theorem admits_conflicting : Rows.empty.Admits conflicting := by
  have start := isWritable_start
  refine ⟨⟨⟨rfl, ⟨⟨by decide, by decide⟩, fun _ leased => by cases leased⟩⟩, ?_⟩,
    ⟨⟨⟨by decide, by decide⟩, ⟨by decide, by decide⟩, fun _ written => ?_⟩, fun _ _ => trivial⟩,
    trivial⟩
  · intro seeded applied
    cases applied
    exact ⟨⟨rfl, rfl, nofun, start, nofun⟩, fun _ _ => trivial⟩
  · cases written
    exact start

theorem conflict_reported_alike :
    (saveAll Tables.save Tables.empty conflicting).1 =
        [.ok (), .error (.staleProcess (.ofNat 0x11111111111111111111111111111111) 7)] ∧
      (saveAll Tables.save Tables.empty conflicting).2.AnswersLike
        (saveAll Rows.save Rows.empty conflicting).2 := by
  obtain ⟨sameReports, _, _, answersLike⟩ :=
    saves_and_answers_agree usualCapacity admits_conflicting
  exact ⟨sameReports.trans rfl, answersLike⟩

theorem not_iteratesLike {query : Eligible} {limit : Nat} (writable : query.date.IsWritable)
    (refused : ¬query.Allows tables.capacity limit) : ¬tables.IteratesLike rows query limit := by
  rintro ⟨found, met⟩
  obtain ⟨_, listed⟩ := met (rows.processes.length + 1) (Nat.lt_succ_self _)
  rw [toList_eq_error writable refused (Nat.succ_pos _)] at listed
  cases listed

/-- Neither the lists of types nor the page size can be left unbounded: one process with a pending
step is enough for both. -/
theorem not_forall_iteratesLike :
    (¬∀ (batches : List Batch) (query : Eligible) (pageSize : Int) (limit : Nat),
      Rows.empty.Admits batches → query.date.IsWritable → Paging.limitOf pageSize = .ok limit →
      valueCount query ≤ usualCapacity →
        (saveAll Tables.save Tables.empty batches).2.IteratesLike
          (saveAll Rows.save Rows.empty batches).2 query limit) ∧
      ¬∀ (batches : List Batch) (query : Eligible) (pageSize : Int) (limit : Nat),
        Rows.empty.Admits batches → query.date.IsWritable → Paging.limitOf pageSize = .ok limit →
        pageSize < columnBound →
          (saveAll Tables.save Tables.empty batches).2.IteratesLike
            (saveAll Rows.save Rows.empty batches).2 query limit := by
  have capacity := @capacity_saveAll Tables.empty conflicting
  constructor <;> intro alike
  · have same := alike conflicting ⟨[.setupDim], [.createSubaccount], ⟨0, 0⟩⟩ columnBound
      columnBound.toNat admits_conflicting isWritable_start rfl (by decide)
    refine not_iteratesLike isWritable_start (fun allows => ?_) same
    rw [Eligible.allows_iff] at allows
    exact absurd (allows.resolve_left (by decide)).2.2 (by decide)
  · have same := alike conflicting
      ⟨List.replicate usualCapacity .setupDim, [.createSubaccount], ⟨0, 0⟩⟩ 1 1
      admits_conflicting isWritable_start rfl (by decide)
    refine not_iteratesLike isWritable_start (fun allows => ?_) same
    rw [capacity, Eligible.allows_iff] at allows
    have carried := (allows.resolve_left (by simp [usualCapacity])).1
    simp only [valueCount, List.length_replicate, empty, ofCapacity] at carried
    omega

end Tables

end Workflow
