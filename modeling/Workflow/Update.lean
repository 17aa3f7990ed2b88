import Workflow.Process

/-!
# Partial updates

A partial update names the columns that it writes.  Writing an empty value differs
from not writing at all.  An update of a process always writes the version.
-/

namespace Workflow

/-- What a partial update does to one column. -/
inductive Field (α : Type) where
  | keep
  | write (value : α)
deriving DecidableEq, Repr

namespace Field

variable {α : Type}

/-- The value of the column after the update. -/
def apply (field : Field α) (current : α) : α :=
  match field with
  | keep => current
  | write value => value

@[simp] theorem apply_keep (current : α) : (keep : Field α).apply current = current := rfl

@[simp] theorem apply_write (value current : α) : (write value).apply current = value := rfl

end Field

structure ProcessUpdate where
  version : Int
  lease : Field (Option Timestamp)
deriving DecidableEq, Repr

structure StepUpdate where
  status : Field (Option StepStatus)
  message : Field (Option String)
deriving DecidableEq, Repr

def ProcessUpdate.apply (update : ProcessUpdate) (process : Process) : Process :=
  { process with
    version := update.version
    lease := update.lease.apply process.lease }

/-- The step after an update at an instant, which it also records. -/
def StepUpdate.apply (update : StepUpdate) (changed : Timestamp) (step : Step) : Step :=
  { step with
    status := update.status.apply step.status
    message := update.message.apply step.message
    changed := some changed }

/-- An update that gives a step a status and, if there is one, a message. -/
def StepUpdate.resolve (status : StepStatus) (message : Option String) : StepUpdate where
  status := .write (some status)
  message :=
    match message with
    | some text => .write (some text)
    | none => .keep

end Workflow
