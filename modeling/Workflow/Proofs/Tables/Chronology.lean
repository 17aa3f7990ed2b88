import Workflow.Proofs.Manual.Resolution
import Workflow.Proofs.Tables.Contents

/-!
# Texts in the order of time

A time stamp is stored as the text of its instant on the clock of universal time, wherever the
clock was that it was read from.  The texts are ordered like the instants, and reading a text
gives the instant back.  So the tables compare leases and order steps by their texts as they
would by the instants.
-/

namespace Workflow.Tables

/-- The text is what a column holds for some time stamp. -/
def IsTimeText (text : String) : Prop :=
  ∃ stamp, writeTime stamp = .ok text

/-- What tables do with the texts of two time stamps is what the instants ask for. -/
structure KeepsTime (left right : Timestamp) (leftText rightText : String) : Prop where
  lt_iff : leftText < rightText ↔ left.instant < right.instant
  eq_iff : leftText = rightText ↔ left.instant = right.instant
  /-- A text is read back as the same instant, on the clock of universal time. -/
  read : ∃ stamp, readTime leftText = .ok stamp ∧ stamp.instant = left.instant ∧ stamp.offset = 0
  /-- A process leased until the first instant is found at the second exactly if the first is
  earlier, provided that its type and its steps are asked for. -/
  lease : ∀ (tables : Tables) (query : Eligible) (record : ProcessRecord),
    record.lease = some leftText →
      (tables.isEligible query rightText record ↔
        query.types.contains record.type ∧ left.instant < right.instant ∧
          tables.steps.any fun row =>
            row.process == record.id && row.status == .todo && query.steps.contains row.type)
  /-- Of two steps the one created earlier comes first, then the one with the lower identifier. -/
  order : ∀ first second : StepRecord, first.created = leftText → second.created = rightText →
    (isNotAfter first second ↔ left.instant < right.instant ∨
      left.instant = right.instant ∧ first.id.toNat ≤ second.id.toNat)

variable {left right : Timestamp} {first second third : StepRecord}

/-! ### The order of records -/

theorem isNotAfter_iff : isNotAfter first second ↔
    first.created < second.created ∨
      first.created = second.created ∧ first.id.toNat ≤ second.id.toNat := by
  simp [isNotAfter]

theorem isNotAfter_trans (before : isNotAfter first second) (after : isNotAfter second third) :
    isNotAfter first third := by
  rw [isNotAfter_iff] at *
  rcases before with earlier | ⟨same, notAfter⟩
  · rcases after with earlierStill | ⟨same, _⟩
    · exact .inl (String.lt_trans earlier earlierStill)
    · exact .inl (same ▸ earlier)
  · rcases after with earlier | ⟨sameStill, notAfterStill⟩
    · exact .inl (same ▸ earlier)
    · exact .inr ⟨same.trans sameStill, Nat.le_trans notAfter notAfterStill⟩

theorem isNotAfter_total (first second : StepRecord) :
    isNotAfter first second ∨ isNotAfter second first := by
  rw [isNotAfter_iff, isNotAfter_iff]
  by_cases earlier : first.created < second.created
  · exact .inl (.inl earlier)
  by_cases later : second.created < first.created
  · exact .inr (.inl later)
  have same : first.created = second.created :=
    String.le_antisymm (String.not_lt.mp later) (String.not_lt.mp earlier)
  rcases Nat.le_total first.id.toNat second.id.toNat with notAfter | notBefore
  · exact .inl (.inr ⟨same, notAfter⟩)
  · exact .inr (.inr ⟨same.symm, notBefore⟩)

theorem pairwise_mergeSort (rows : List StepRecord) :
    (rows.mergeSort isNotAfter).Pairwise fun first second => isNotAfter first second := by
  apply List.pairwise_mergeSort
  · intro _ _ _ before after
    exact isNotAfter_trans before after
  · intro first second
    simpa using isNotAfter_total first second

/-! ### Reading in order -/

theorem eq_column_of_writeTime {stamp : Timestamp} {text : String}
    (written : writeTime stamp = .ok text) : text = stamp.column :=
  (writeTime_eq_ok.mp written).2

theorem created_of_readStep {row : StepRecord} {step : Step} (read : readStep row = .ok step) :
    readTime row.created = .ok step.created ∧ step.id = row.id := by
  obtain ⟨created, createdRead, dated⟩ := exists_of_bind_eq_ok read
  obtain ⟨_, _, built⟩ := exists_of_bind_eq_ok dated
  cases built
  exact ⟨createdRead, rfl⟩

theorem exists_stamp_of_readStep {row : StepRecord} {step : Step}
    (isText : IsTimeText row.created) (read : readStep row = .ok step) :
    ∃ stamp : Timestamp, stamp.IsWritable ∧ row.created = stamp.column ∧
      step.created.instant = stamp.instant := by
  obtain ⟨stamp, written⟩ := isText
  obtain ⟨writable, text⟩ := writeTime_eq_ok.mp written
  obtain ⟨created, _⟩ := created_of_readStep read
  rw [text, readTime_column writable] at created
  refine ⟨stamp, writable, text, ?_⟩
  rw [← Except.ok.inj created, Timestamp.instant_atUtc]

theorem isNotAfter_of_readStep {step other : Step} (isText : IsTimeText first.created)
    (otherIsText : IsTimeText second.created) (read : readStep first = .ok step)
    (otherRead : readStep second = .ok other) :
    step.isNotAfter other ↔ isNotAfter first second := by
  obtain ⟨stamp, writable, text, instant⟩ := exists_stamp_of_readStep isText read
  obtain ⟨otherStamp, otherWritable, otherText, otherInstant⟩ :=
    exists_stamp_of_readStep otherIsText otherRead
  rw [Step.isNotAfter_iff, isNotAfter_iff, instant, otherInstant, text, otherText,
    (created_of_readStep read).2, (created_of_readStep otherRead).2]
  exact or_congr (Timestamp.columnText_lt_iff writable otherWritable).symm
    (and_congr (Timestamp.columnText_eq_iff writable otherWritable).symm Iff.rfl)

/-- Records in the order of their texts are read as steps in the order of their instants. -/
theorem pairwise_of_mapM {rows : List StepRecord} {steps : List Step}
    (ordered : rows.Pairwise fun first second => isNotAfter first second)
    (texts : ∀ row ∈ rows, IsTimeText row.created) (read : rows.mapM readStep = .ok steps) :
    steps.Pairwise fun first second => first.isNotAfter second := by
  have readAll := mapM_eq_ok_iff.mp read
  clear read
  induction readAll with
  | nil => exact .nil
  | cons firstRead others induction =>
      obtain ⟨isFirst, othersOrdered⟩ := List.pairwise_cons.mp ordered
      obtain ⟨isText, otherTexts⟩ := List.forall_mem_cons.mp texts
      refine List.pairwise_cons.mpr ⟨fun step member => ?_, induction othersOrdered otherTexts⟩
      obtain ⟨other, inRows, otherRead⟩ := exists_of_mem_forall₂ others.flip member
      exact (isNotAfter_of_readStep isText (otherTexts other inRows) firstRead otherRead).mpr
        (isFirst other inRows)

/-- The steps of a process are loaded in the order of the instants of their creation. -/
theorem pairwise_stepsOf {tables : Tables} {process : Uuid} {steps : List Step}
    (texts : ∀ row ∈ tables.steps, IsTimeText row.created)
    (loaded : tables.stepsOf process = .ok steps) :
    steps.Pairwise fun first second => first.isNotAfter second := by
  refine pairwise_of_mapM (pairwise_mergeSort _) (fun row member => texts row ?_) loaded
  exact (List.mem_filter.mp (List.mem_mergeSort.mp member)).1

/-! ### Two time stamps -/

theorem keepsTime (leftWritable : left.IsWritable) (rightWritable : right.IsWritable) :
    KeepsTime left right left.column right.column where
  lt_iff := Timestamp.columnText_lt_iff leftWritable rightWritable
  eq_iff := Timestamp.columnText_eq_iff leftWritable rightWritable
  read := ⟨left.atUtc, readTime_column leftWritable, Timestamp.instant_atUtc, rfl⟩
  lease tables query record leased := by
    have before := Timestamp.columnText_lt_iff leftWritable rightWritable
    rw [isEligible, leased, Bool.and_eq_true, Bool.and_eq_true, and_assoc]
    exact and_congr_right fun _ => and_congr_left fun _ => decide_eq_true_iff.trans before
  order first second created otherCreated := by
    rw [isNotAfter_iff, created, otherCreated]
    exact or_congr (Timestamp.columnText_lt_iff leftWritable rightWritable)
      (and_congr (Timestamp.columnText_eq_iff leftWritable rightWritable) Iff.rfl)

/-- **Texts in a column keep the order of time.**  Any two time stamps whose instants universal
time can show are written as texts that are ordered like the instants and read back as them, so
leases are compared and steps are sorted by the instants, whatever else the tables hold. -/
theorem column_texts_keep_time (leftWritable : left.IsWritable)
    (rightWritable : right.IsWritable) :
    (∃ leftText rightText, writeTime left = .ok leftText ∧ writeTime right = .ok rightText ∧
        KeepsTime left right leftText rightText) ∧
      ∀ (tables : Tables) (process : Uuid) (steps : List Step),
        (∀ row ∈ tables.steps, IsTimeText row.created) → tables.stepsOf process = .ok steps →
          steps.Pairwise fun first second => first.isNotAfter second :=
  ⟨⟨left.column, right.column, writeTime_eq leftWritable, writeTime_eq rightWritable,
    keepsTime leftWritable rightWritable⟩, fun _ _ _ => pairwise_stepsOf⟩

/-- Half an hour before the year 2024 begins on a clock an hour behind universal time, it has
begun there; an hour into the year on a clock five hours ahead, it has not. -/
theorem texts_kept_across_new_year :
    let left : Timestamp := ⟨63839662200000000, -3600000000⟩
    let right : Timestamp := ⟨63839667600000000, 18000000000⟩
    left.IsWritable ∧ right.IsWritable ∧ left.wall < right.wall ∧
      writeTime left = .ok "2024-01-01T00:30:00.000000+00:00" ∧
      writeTime right = .ok "2023-12-31T20:00:00.000000+00:00" ∧
      KeepsTime left right "2024-01-01T00:30:00.000000+00:00"
        "2023-12-31T20:00:00.000000+00:00" := by
  intro left right
  have leftWritable : left.IsWritable := ⟨by decide, by decide⟩
  have rightWritable : right.IsWritable := ⟨by decide, by decide⟩
  have leftText : left.column = "2024-01-01T00:30:00.000000+00:00" := by decide
  have rightText : right.column = "2023-12-31T20:00:00.000000+00:00" := by decide
  obtain ⟨⟨first, second, written, otherWritten, keeps⟩, -⟩ :=
    column_texts_keep_time leftWritable rightWritable
  obtain rfl := (eq_column_of_writeTime written).trans leftText
  obtain rfl := (eq_column_of_writeTime otherWritten).trans rightText
  exact ⟨leftWritable, rightWritable, by decide, written, otherWritten, keeps⟩

end Workflow.Tables
