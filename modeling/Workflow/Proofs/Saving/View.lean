import Mathlib.Logic.Function.Basic
import Workflow.Change

/-!
# What changes do to rows

A store is seen through its look-ups: under each identifier it shows the columns of a row
or nothing.  What a change does is told on this picture alone, for one row and for the
columns that the change names, so that it is the same for every kind of store.  Stores may
differ in how they show a time stamp.
-/

namespace Workflow

/-- The columns of a process, with time stamps as a store shows them. -/
@[ext] structure ProcessColumns (τ : Type) where
  type : ProcessType
  version : Int
  lease : Option τ

/-- The columns of a step. -/
@[ext] structure StepColumns (τ : Type) where
  type : StepType
  status : Option StepStatus
  process : Uuid
  created : τ
  changed : Option τ
  message : Option String

/-- The rows that look-ups find. -/
structure View (τ : Type) where
  process? : Uuid → Option (ProcessColumns τ)
  step? : Uuid → Option (StepColumns τ)

variable {τ : Type} {shows : Timestamp → τ → Prop} {view after other : View τ}
  {change : Change} {first second batch : Batch}

/-- The column after an update, given how its values are shown. -/
def Field.Writes {α β : Type} (shows : α → β → Prop) (field : Field α) (before after : β) :
    Prop :=
  match field with
  | keep => after = before
  | write value => shows value after

/-- The row that is inserted for a process. -/
structure ProcessColumns.Holds (shows : Timestamp → τ → Prop) (process : Process)
    (row : ProcessColumns τ) : Prop where
  type : row.type = process.type
  version : row.version = process.version
  lease : Option.Rel shows process.lease row.lease

structure StepColumns.Holds (shows : Timestamp → τ → Prop) (step : Step)
    (row : StepColumns τ) : Prop where
  type : row.type = step.type
  status : row.status = step.status
  process : row.process = step.process
  created : shows step.created row.created
  changed : Option.Rel shows step.changed row.changed
  message : row.message = step.message

/-- An update of a process writes the version and the columns that it names. -/
structure ProcessUpdate.Writes (shows : Timestamp → τ → Prop) (update : ProcessUpdate)
    (before after : ProcessColumns τ) : Prop where
  type : after.type = before.type
  version : after.version = update.version
  lease : update.lease.Writes (Option.Rel shows) before.lease after.lease

/-- An update of a step writes the time of the change and the columns that it names. -/
structure StepUpdate.Writes (shows : Timestamp → τ → Prop) (update : StepUpdate)
    (now : Timestamp) (before after : StepColumns τ) : Prop where
  type : after.type = before.type
  status : update.status.Writes Eq before.status after.status
  process : after.process = before.process
  created : after.created = before.created
  changed : Option.Rel shows (some now) after.changed
  message : update.message.Writes Eq before.message after.message

namespace View

/-- What one change does: of all rows it puts, changes or removes a single one. -/
inductive Takes (shows : Timestamp → τ → Prop) (view : View τ) : Change → View τ → Prop where
  | insertProcess {process : Process} {row : ProcessColumns τ} (holds : row.Holds shows process) :
      Takes shows view (.insertProcess process)
        { view with process? := Function.update view.process? process.id (some row) }
  | insertStep {step : Step} {row : StepColumns τ} (holds : row.Holds shows step) :
      Takes shows view (.insertStep step)
        { view with step? := Function.update view.step? step.id (some row) }
  | updateProcess {id : Uuid} {expected : Int} {update : ProcessUpdate}
      {before after : ProcessColumns τ} (found : view.process? id = some before)
      (expects : before.version = expected) (writes : update.Writes shows before after) :
      Takes shows view (.updateProcess id expected update)
        { view with process? := Function.update view.process? id (some after) }
  | updateStep {id : Uuid} {update : StepUpdate} {now : Timestamp}
      {before after : StepColumns τ} (found : view.step? id = some before)
      (writes : update.Writes shows now before after) :
      Takes shows view (.updateStep id update now)
        { view with step? := Function.update view.step? id (some after) }
  | deleteStep {id : Uuid} {before : StepColumns τ} (found : view.step? id = some before) :
      Takes shows view (.deleteStep id)
        { view with step? := Function.update view.step? id none }

/-- All changes of a batch take place, each of them where those before it have led. -/
inductive TakesAll (shows : Timestamp → τ → Prop) : View τ → Batch → View τ → Prop where
  | nil (view : View τ) : TakesAll shows view [] view
  | cons {view middle after : View τ} {change : Change} {batch : Batch} :
      Takes shows view change middle → TakesAll shows middle batch after →
        TakesAll shows view (change :: batch) after

/-- The change expects a row that the store does not have, or another version of it. -/
def Misses (view : View τ) : Change → Prop
  | .updateProcess id expected _ => ∀ row, view.process? id = some row → row.version ≠ expected
  | .updateStep id _ _ | .deleteStep id => view.step? id = none
  | .insertProcess _ | .insertStep _ => False

/-- In staging order, some change misses what it expects. -/
def Conflicts (shows : Timestamp → τ → Prop) (view : View τ) (batch : Batch) : Prop :=
  ∃ first change rest reached, batch = first ++ change :: rest ∧
    view.TakesAll shows first reached ∧ reached.Misses change

/-- A change that takes place has found what it expects. -/
theorem Takes.not_misses (takes : view.Takes shows change after) : ¬view.Misses change := by
  intro misses
  cases takes with
  | insertProcess | insertStep => exact misses
  | updateProcess found expects => exact misses _ found expects
  | updateStep found | deleteStep found => cases misses.symm.trans found

end View

/-! ### A batch can take place in one way only -/

/-- A time stamp is shown in one way. -/
def ShowsOnce (shows : Timestamp → τ → Prop) : Prop :=
  ∀ ⦃stamp left right⦄, shows stamp left → shows stamp right → left = right

namespace ShowsOnce

variable (once : ShowsOnce shows)

include once

theorem option {stamp : Option Timestamp} {left right : Option τ}
    (isLeft : Option.Rel shows stamp left) (isRight : Option.Rel shows stamp right) :
    left = right := by
  cases isLeft with
  | some isLeft =>
      cases isRight with
      | some isRight => exact congrArg some (once isLeft isRight)
  | none =>
      cases isRight with
      | none => rfl

theorem process {process : Process} {left right : ProcessColumns τ}
    (isLeft : left.Holds shows process) (isRight : right.Holds shows process) : left = right :=
  ProcessColumns.ext (isLeft.type.trans isRight.type.symm)
    (isLeft.version.trans isRight.version.symm) (once.option isLeft.lease isRight.lease)

theorem step {step : Step} {left right : StepColumns τ}
    (isLeft : left.Holds shows step) (isRight : right.Holds shows step) : left = right :=
  StepColumns.ext (isLeft.type.trans isRight.type.symm)
    (isLeft.status.trans isRight.status.symm) (isLeft.process.trans isRight.process.symm)
    (once isLeft.created isRight.created) (once.option isLeft.changed isRight.changed)
    (isLeft.message.trans isRight.message.symm)

omit once in
theorem field {α β : Type} {shows : α → β → Prop} {field : Field α} {before left right : β}
    (isLeft : field.Writes shows before left) (isRight : field.Writes shows before right)
    (once : ∀ {value left right}, shows value left → shows value right → left = right) :
    left = right := by
  cases field with
  | keep => exact Eq.trans isLeft (Eq.symm isRight)
  | write value => exact once isLeft isRight

theorem processUpdate {update : ProcessUpdate} {before left right : ProcessColumns τ}
    (isLeft : update.Writes shows before left) (isRight : update.Writes shows before right) :
    left = right :=
  ProcessColumns.ext (isLeft.type.trans isRight.type.symm)
    (isLeft.version.trans isRight.version.symm)
    (field isLeft.lease isRight.lease once.option)

theorem stepUpdate {update : StepUpdate} {now : Timestamp} {before left right : StepColumns τ}
    (isLeft : update.Writes shows now before left)
    (isRight : update.Writes shows now before right) : left = right :=
  have same {α : Type} {value left right : α} (isLeft : value = left) (isRight : value = right) :
      left = right := isLeft.symm.trans isRight
  StepColumns.ext (isLeft.type.trans isRight.type.symm)
    (field isLeft.status isRight.status same) (isLeft.process.trans isRight.process.symm)
    (isLeft.created.trans isRight.created.symm) (once.option isLeft.changed isRight.changed)
    (field isLeft.message isRight.message same)

theorem takes (isAfter : view.Takes shows change after) (isOther : view.Takes shows change other) :
    after = other := by
  cases isAfter with
  | insertProcess holds =>
      cases isOther with
      | insertProcess also => rw [once.process holds also]
  | insertStep holds =>
      cases isOther with
      | insertStep also => rw [once.step holds also]
  | updateProcess found _ writes =>
      cases isOther with
      | updateProcess alsoFound _ also =>
          obtain rfl := Option.some.inj (found.symm.trans alsoFound)
          rw [once.processUpdate writes also]
  | updateStep found writes =>
      cases isOther with
      | updateStep alsoFound also =>
          obtain rfl := Option.some.inj (found.symm.trans alsoFound)
          rw [once.stepUpdate writes also]
  | deleteStep _ =>
      cases isOther with
      | deleteStep _ => rfl

theorem takesAll (isAfter : view.TakesAll shows batch after)
    (isOther : view.TakesAll shows batch other) : after = other := by
  induction isAfter with
  | nil view =>
      cases isOther with
      | nil => rfl
  | cons takes _ induction =>
      cases isOther with
      | cons alsoTakes rest =>
          obtain rfl := once.takes takes alsoTakes
          exact induction rest

end ShowsOnce

end Workflow
