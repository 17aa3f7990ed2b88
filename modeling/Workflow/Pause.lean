import Workflow.Time.Seconds

/-!
# Pauses

A pause ends when its time is over or when the work is cancelled, whichever comes first.
A pause of no length ends at once and does not look at the cancellation.  If time and
cancellation come together, the pause counts as over.
-/

namespace Workflow.Pause

variable {τ : Type} [Seconds τ]

/-- A pause that begins at some second: whether it is cancelled, and the second at which
it ends.  The work can be cancelled already, or become so at a later second. -/
def run (start delay : τ) (cancelled : Bool) (cancelAt : Option τ) : Bool × τ :=
  if delay ≤ Seconds.zero then (false, start)
  else if cancelled then (true, start)
  else
    match cancelAt with
    | none => (false, start + delay)
    | some moment =>
      if moment < start + delay then (true, Seconds.greatest start moment)
      else (false, start + delay)

end Workflow.Pause
