import Workflow.Lease
import Workflow.Proofs.Session.Contents

/-!
# What a worker finds

A worker that iterates over the eligible processes finds, in the order of their identifiers, the
wanted processes that nobody holds at the date it asks for.  It can lease each of them from this
date on, and whatever else is wanted is held at that very instant.
-/

namespace Workflow.Session

open Store

variable {store : Store} {rows : Rows} {query : Eligible} {process : Process} {limit : Nat}

theorem requestLease_eq_ok {expiry now : Timestamp} (free : process.isLeased now = false) :
    process.requestLease expiry now =
      let leased := { process.raiseVersion with lease := some expiry }
      .ok (leased, [process.leaseChange leased]) := by
  simp [Process.requestLease, Process.tryLease, free]

/-- What has expired before a date has expired at all later times. -/
theorem isLeased_eq_false_of_isDue (isDue : rows.IsDue query process) {now : Timestamp}
    (later : query.date.instant ≤ now.instant) : process.isLeased now = false :=
  Rows.isLeased_eq_false_iff.mpr fun expiry leased =>
    lt_of_lt_of_le (isDue.free expiry leased) later

/-- What a worker has found is exactly what is due, and fits the way in which leases are kept. -/
structure Discovers (rows : Rows) (query : Eligible) (found : List Process) : Prop where
  ascending : found.Pairwise fun left right => left.id.isBefore right.id
  exact : ∀ process, process ∈ found ↔ rows.IsDue query process
  nothing : query.types = [] ∨ query.steps = [] → found = []
  /-- From the date on, nobody holds what was found, and a lease of it begins. -/
  free : ∀ process ∈ found, ∀ expiry now, query.date.instant ≤ now.instant →
    process.isLeased now = false ∧ process.requestLease expiry now =
      let leased := { process.raiseVersion with lease := some expiry }
      .ok (leased, [process.leaseChange leased])
  /-- What is wanted and was not found is held at the date. -/
  held : ∀ process, rows.IsWanted query process → process ∉ found →
    process.isLeased query.date = true

theorem discovers_due (keyed : rows.Keyed) : Discovers rows query (rows.due query) where
  ascending := (Rows.ascending_due keyed).imp Uuid.lt_iff_isBefore.mp
  exact _ := Rows.mem_due
  nothing := Rows.due_of_isEmpty
  free process member expiry now later := by
    have free := isLeased_eq_false_of_isDue (Rows.mem_due.mp member) later
    exact ⟨free, requestLease_eq_ok free⟩
  held process wanted missing := by
    by_contra free
    refine missing (Rows.mem_due.mpr ⟨wanted, ?_⟩)
    exact Rows.isLeased_eq_false_iff.mp (Bool.not_eq_true _ ▸ free)

/-- All eligible processes, collected page by page. -/
def discover (query : Eligible) (limit fuel : Nat) : Access (List Process) :=
  Paging.toList limit Process.id (fun after => eligiblePage query after limit) fuel

theorem discover_eq (holds : store.Holds rows) (writable : query.date.IsWritable)
    (positive : 0 < limit) (takes : store.Takes query limit) {fuel : Nat}
    (enough : rows.processes.length / limit < fuel) :
    (discover query limit fuel).run.run store = (.ok (rows.due query), store) := by
  have answers := holds.eligiblePage writable takes
  have within : (rows.due query).length ≤ rows.processes.length := by
    rw [Rows.due, List.length_mergeSort]
    exact List.length_filter_le _ _
  have listed := Paging.toList_pageAfter (m := Id) (Rows.ascending_due holds.keyed) positive
    (Nat.lt_of_le_of_lt (Nat.div_le_div_right within) enough)
  simp only [Rows.eligiblePage_eq_pageAfter holds.keyed] at answers
  rw [discover, Paging.toList_answered answers, listed]
  rfl

/-- A question that tables cannot be asked is refused with the first page. -/
theorem discover_eq_error {tables : Tables} (writable : query.date.IsWritable)
    (refused : ¬query.Allows tables.capacity limit) (fuel : Nat) :
    (discover query limit (fuel + 1)).run.run (.tables tables) =
      (.error (query.refusal tables.capacity), .tables tables) := by
  have failed := @Tables.eligiblePage_eq_error tables query none limit writable refused
  have asked : (eligiblePage query none limit).run.run (.tables tables) =
      (ofExcept (tables.eligiblePage query none limit)).run.run (.tables tables) := rfl
  rw [failed] at asked
  rw [discover, Paging.toList, Paging.visitAll, Paging.visitFrom]
  simp only [ExceptT.run_bind, StateT.run_bind, asked]
  rfl

/-- **Discovery is exact and fits leases.**  Whatever is stored and asked for, with pages of any
size, a worker finds in ascending order exactly the processes of the given types that have a
pending step of the given types and are not held at the date; it can lease each of them from that
date on, and a process that only its lease keeps away is held at the date.  Tables refuse what they
cannot be asked: a question with too many types, or pages of a size that no integer column holds. -/
theorem discovery_exact (holds : store.Holds rows) (writable : query.date.IsWritable)
    {pageSize : Int} (atLeastOne : 1 ≤ pageSize) :
    ∃ limit : Nat, Paging.limitOf pageSize = .ok limit ∧
      (store.Takes query pageSize → ∃ found, Discovers rows query found ∧
        ∀ fuel, rows.processes.length / limit < fuel →
          (discover query limit fuel).run.run store = (.ok found, store)) ∧
      ∀ tables, store = .tables tables → ¬query.Allows tables.capacity pageSize →
        ∀ fuel, 0 < fuel → (discover query limit fuel).run.run store =
          (.error (query.refusal tables.capacity), store) := by
  obtain ⟨limit, accepted, rfl, positive⟩ := Paging.limitOf_of_one_le atLeastOne
  refine ⟨limit, accepted, fun takes => ⟨rows.due query, discovers_due holds.keyed,
    fun fuel enough => discover_eq holds writable positive takes enough⟩, ?_⟩
  rintro tables rfl refused fuel some
  obtain ⟨fuel, rfl⟩ := Nat.exists_eq_succ_of_ne_zero (Nat.ne_of_gt some)
  exact discover_eq_error writable refused fuel

/-- Three processes with a pending step each.  At the start of 2024 the lease of the second has
just expired, and the lease of the third still holds. -/
def leasedRows : Rows where
  processes := [
    ⟨.ofNat 3, .setupDim, 1, some ⟨63839664000000000, 0⟩⟩,
    ⟨.ofNat 1, .setupDim, 0, none⟩,
    ⟨.ofNat 2, .setupDim, 1, some ⟨63839663999999999, 0⟩⟩]
  steps := [
    .fresh (.ofNat 4) .createSubaccount .todo (.ofNat 1) ⟨0, 0⟩,
    .fresh (.ofNat 5) .createSubaccount .todo (.ofNat 2) ⟨0, 0⟩,
    .fresh (.ofNat 6) .createSubaccount .todo (.ofNat 3) ⟨0, 0⟩]

def leasedQuery : Eligible :=
  ⟨[.setupDim], [.createSubaccount], ⟨63839664000000000, 0⟩⟩

/-- Tables with these rows, in a database as it is usually built. -/
def leasedTables : Tables :=
  leasedRows.recorded Tables.usualCapacity

theorem holds_leasedRows : (Store.tables leasedTables).Holds leasedRows := by
  have storable : ∀ process ∈ leasedRows.processes, process.IsStorable := by
    simp only [leasedRows, List.forall_mem_cons, List.not_mem_nil, false_implies, implies_true,
      and_true]
    refine ⟨⟨⟨by decide, by decide⟩, ?_⟩, ⟨⟨by decide, by decide⟩, nofun⟩,
      ⟨⟨by decide, by decide⟩, ?_⟩⟩ <;>
      · rintro _ ⟨⟩
        exact ⟨by decide, by decide⟩
  have steps : ∀ step ∈ leasedRows.steps, step.IsStorable := by
    simp only [leasedRows, List.forall_mem_cons, List.not_mem_nil, false_implies, implies_true,
      and_true]
    refine ⟨?_, ?_, ?_⟩ <;> exact ⟨nofun, Tables.isWritable_start, nofun⟩
  have records : leasedTables.Records leasedRows :=
    Tables.records_recorded ⟨by decide, by decide⟩ storable steps Tables.usualCapacity
  have same : leasedTables.contents = leasedRows := by
    rw [records.contents_eq]
    decide
  exact same ▸ .tables ⟨leasedRows, records⟩

theorem isWritable_leasedQuery : leasedQuery.date.IsWritable :=
  ⟨by decide, by decide⟩

/-- With pages of one process the second process is found, and the third one is held. -/
theorem discovered_at_expiry :
    leasedQuery.date.IsWritable ∧ (1 : Int) ≤ 1 ∧
    (Store.tables leasedTables).Takes leasedQuery 1 ∧
    (Store.tables leasedTables).Holds leasedRows ∧
    ∃ found, (discover leasedQuery 1 4).run.run (.tables leasedTables) =
        (.ok found, .tables leasedTables) ∧
      ⟨.ofNat 2, .setupDim, 1, some ⟨63839663999999999, 0⟩⟩ ∈ found ∧
      ⟨.ofNat 3, .setupDim, 1, some ⟨63839664000000000, 0⟩⟩ ∉ found := by
  have takes : (Store.tables leasedTables).Takes leasedQuery 1 :=
    .inr (.inr ⟨by decide, by decide⟩)
  obtain ⟨limit, accepted, finds, -⟩ :=
    discovery_exact holds_leasedRows isWritable_leasedQuery (le_refl 1)
  obtain rfl : 1 = limit := Except.ok.inj accepted
  obtain ⟨found, discovers, collected⟩ := finds takes
  refine ⟨isWritable_leasedQuery, le_refl 1, takes, holds_leasedRows, found,
    collected 4 (by decide), ?_, ?_⟩
  · refine (discovers.exact _).mpr ⟨⟨by decide, by decide, ?_⟩, ?_⟩
    · exact ⟨.fresh (.ofNat 5) .createSubaccount .todo (.ofNat 2) ⟨0, 0⟩, by decide, rfl, rfl,
        by decide⟩
    · rintro _ ⟨⟩
      decide
  · intro member
    exact absurd (((discovers.exact _).mp member).free _ rfl) (by decide)

/-- Neither the size of a page nor the number of types can be left out: tables refuse a size that
no integer column holds, and a question with more types than it can carry. -/
theorem not_forall_discovered :
    (¬∀ (store : Store) (rows : Rows) (query : Eligible) (pageSize : Int),
      store.Holds rows → query.date.IsWritable → 1 ≤ pageSize →
      Tables.valueCount query ≤ Tables.usualCapacity →
        ∃ limit : Nat, Paging.limitOf pageSize = .ok limit ∧ ∃ found, Discovers rows query found ∧
          ∀ fuel, rows.processes.length / limit < fuel →
            (discover query limit fuel).run.run store = (.ok found, store)) ∧
      ¬∀ (store : Store) (rows : Rows) (query : Eligible) (pageSize : Int),
        store.Holds rows → query.date.IsWritable → 1 ≤ pageSize → pageSize < Tables.columnBound →
          ∃ limit : Nat, Paging.limitOf pageSize = .ok limit ∧
            ∃ found, Discovers rows query found ∧
              ∀ fuel, rows.processes.length / limit < fuel →
                (discover query limit fuel).run.run store = (.ok found, store) := by
  constructor <;> intro discovered
  · obtain ⟨limit, accepted, found, -, collected⟩ := discovered (.tables leasedTables) leasedRows
      leasedQuery Tables.columnBound holds_leasedRows isWritable_leasedQuery (by decide) (by decide)
    obtain rfl : Tables.columnBound.toNat = limit := Except.ok.inj accepted
    have refused : ¬leasedQuery.Allows leasedTables.capacity Tables.columnBound.toNat := by
      rintro (noTypes | noSteps | ⟨_, below⟩)
      · cases noTypes
      · cases noSteps
      · exact absurd below (by decide)
    have failed := discover_eq_error isWritable_leasedQuery refused 0
    rw [collected 1 (by decide)] at failed
    cases failed
  · let crowded : Eligible :=
      { leasedQuery with types := List.replicate Tables.usualCapacity .setupDim }
    obtain ⟨limit, accepted, found, -, collected⟩ := discovered (.tables leasedTables) leasedRows
      crowded 4 holds_leasedRows isWritable_leasedQuery (by decide) (by decide)
    obtain rfl : 4 = limit := Except.ok.inj accepted
    have refused : ¬crowded.Allows leasedTables.capacity (4 : Nat) := by
      rintro (noTypes | noSteps | ⟨carried, _⟩)
      · exact absurd ((List.replicate_eq_nil_iff _).mp noTypes) (by decide)
      · cases noSteps
      · simp only [Tables.valueCount, crowded, List.length_replicate, leasedTables,
          Rows.recorded] at carried
        omega
    have failed := @discover_eq_error crowded _ _ isWritable_leasedQuery refused 0
    rw [collected 1 (by decide)] at failed
    cases failed

end Workflow.Session
