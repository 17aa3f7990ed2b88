import Workflow.Proofs.Manual.Worksheet
import Workflow.Proofs.Paging.Eligible
import Workflow.Proofs.Tables.Contents
import Workflow.Session.Store

/-!
# What a store holds

A store in memory holds its rows, and a store of tables holds the rows that its records are read
back as.  Whatever batches are committed, it goes on to hold rows.  The questions to such a store
are answered from these rows, and leave the store as it is.
-/

namespace Workflow.Session.Store

/-- A store that holds some rows, no two of which share an identifier. -/
inductive Holds : Store → Rows → Prop where
  | memory {rows : Rows} (keyed : rows.Keyed) : Holds (.rows rows) rows
  | tables {tables : Tables} (sound : tables.IsSound) : Holds (.tables tables) tables.contents

/-- A store can be asked for pages of a size. -/
def Takes (query : Eligible) (pageSize : Int) : Store → Prop
  | .tables asked => query.Allows asked.capacity pageSize
  | _ => True

variable {store : Store} {rows : Rows} {batch : Batch}

namespace Holds

theorem keyed (holds : store.Holds rows) : rows.Keyed := by
  cases holds with
  | memory keyed => exact keyed
  | tables sound => exact sound.records.keyed

theorem commit (holds : store.Holds rows) (batch : Batch) :
    ∃ rows', ((Store.commit batch).run.run store).2.Holds rows' := by
  cases holds with
  | memory keyed =>
      have run : (Store.commit batch).run.run (.rows rows) =
          (Store.replaceBy Store.rows (rows.commit batch)).run.run (.rows rows) := rfl
      rw [run]
      cases committed : rows.commit batch with
      | ok after => exact ⟨after, .memory (Rows.keyed_commit keyed committed)⟩
      | error failure => exact ⟨rows, .memory keyed⟩
  | @tables tables sound =>
      rw [commit_tables, Tables.save]
      cases committed : tables.commit batch with
      | ok after => exact ⟨_, .tables (sound.commit committed)⟩
      | error failure => exact ⟨_, .tables sound⟩

/-- Whatever was committed, a store that held rows holds rows. -/
theorem commits (holds : store.Holds rows) (batches : List Batch) :
    ∃ rows', (batches.foldl (fun store batch => ((Store.commit batch).run.run store).2)
      store).Holds rows' := by
  induction batches generalizing store rows with
  | nil => exact ⟨rows, holds⟩
  | cons batch batches induction =>
      obtain ⟨rows', after⟩ := holds.commit batch
      exact induction after

theorem load? (holds : store.Holds rows) (id : Uuid) (filter : Option (List StepType)) :
    (Store.load? id filter).run.run store = (.ok (rows.load? id filter), store) := by
  cases holds with
  | memory => rfl
  | @tables tables sound =>
      have answered := @Tables.Records.load?_eq _ _ id sound.records filter
      have loads := Rows.Loads.tables sound.records ⟨sound.isUtc.1, sound.isUtc.2⟩ answered
      have run : (Store.load? id filter).run.run (.tables tables) =
          (ofExcept (tables.load? id filter)).run.run (.tables tables) := rfl
      rw [run, answered, loads.eq]
      rfl

variable {query : Eligible} {pageSize : Int} {limit : Nat}

theorem eligiblePage (holds : store.Holds rows) (writable : query.date.IsWritable)
    (takes : store.Takes query limit) (after : Option Uuid) :
    (Store.eligiblePage query after limit).run.run store =
      (.ok (rows.eligiblePage query after limit), store) := by
  cases holds with
  | memory => rfl
  | @tables tables sound =>
      have answered := @Tables.Records.eligiblePage_eq _ _ sound.records query after limit writable
        takes
      have run : (Store.eligiblePage query after limit).run.run (.tables tables) =
          (ofExcept (tables.eligiblePage query after limit)).run.run (.tables tables) := rfl
      have same : (tables.contents.eligiblePage query after limit).map Process.atUtc =
          tables.contents.eligiblePage query after limit := by
        rw [List.map_congr_left (g := fun process => process), List.map_id']
        intro process member
        exact sound.isUtc.1 process
          (Rows.mem_of_mem_eligiblePage sound.records.keyed member).stored
      rw [run, answered, same]
      rfl

end Holds

end Workflow.Session.Store
