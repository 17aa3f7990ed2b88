import Workflow.Failure
import Workflow.Time.Seconds

/-!
# The pace of a worker

A worker runs cycles until it is cancelled or its lifespan has passed.  After a
successful cycle it pauses for the poll interval.  After a failed one it pauses for
a time that grows with the number of failures in a row, up to a limit, and varies by
a random share.  No pause goes past the deadline, and the first cycle that ends at
the deadline or later is the last.

Times are of any type with the arithmetic of seconds.
-/

namespace Workflow

structure Pace (τ : Type) where
  pollInterval : τ
  /-- From this many failures in a row on, pauses grow no further. -/
  maxAttempts : Nat
  /-- The factor between the pauses after consecutive failures. -/
  base : τ
  /-- The largest random addition to a pause. -/
  jitter : τ

namespace Pace

variable {τ : Type} [Seconds τ]

/-- The pace with the pauses after failures that every worker makes. -/
def usual [OfScientific τ] (pollInterval : τ) (maxAttempts : Nat) : Pace τ where
  pollInterval := pollInterval
  maxAttempts := maxAttempts
  base := 1.5
  jitter := 0.5

/-- The pause after a number of failures in a row, of which the random share is
between zero and one. -/
def backoff (pace : Pace τ) (attempts : Nat) (share : τ) : τ :=
  Seconds.power pace.base attempts
    + (Seconds.zero + (pace.jitter - Seconds.zero) * share)

/-- The number of failures in a row after one more. -/
def afterFailure (pace : Pace τ) (attempts : Nat) : Nat :=
  min (attempts + 1) pace.maxAttempts

end Pace

namespace Worker

/-- What the worker does after a cycle. -/
inductive Decision (τ : Type) where
  | stop
  | pause (delay : τ)
deriving DecidableEq, Repr

variable {τ : Type} [Seconds τ]

/-- Cuts a pause at the deadline; at the deadline the worker stops. -/
def decide (deadline : Option τ) (clock delay : τ) : Decision τ :=
  match deadline with
  | none => .pause delay
  | some deadline =>
    let remaining := deadline - clock
    if remaining ≤ Seconds.zero then .stop
    else .pause (Seconds.least delay remaining)

/-- What a worker needs from its surroundings. -/
structure Surroundings (m : Type → Type) (τ : Type) where
  isCancelled : m Bool
  cycle : m (Except Failure Unit)
  clock : m τ
  /-- A random share between zero and one. -/
  share : m τ
  /-- Reports a failed cycle and the pause that follows. -/
  report : τ → Failure → m Unit
  /-- Pauses; whether the work was cancelled meanwhile. -/
  pause : τ → m Bool

variable {m : Type → Type} [Monad m]

/-- The number of failures in a row and the intended pause after a cycle. -/
def afterCycle (pace : Pace τ) (surroundings : Surroundings m τ) (attempts : Nat) :
    Except Failure Unit → m (Nat × τ)
  | .ok _ => pure (0, pace.pollInterval)
  | .error failure => do
    let attempts := pace.afterFailure attempts
    let delay := pace.backoff attempts (← surroundings.share)
    surroundings.report delay failure
    return (attempts, delay)

/-- Runs cycles, at most as many as the fuel says.  Only a cancellation makes the
worker itself fail. -/
def run (pace : Pace τ) (surroundings : Surroundings m τ) (deadline : Option τ) :
    Nat → Nat → m (Except Failure Unit)
  | 0, _ => pure (.ok ())
  | fuel + 1, attempts => do
    if ← surroundings.isCancelled then return .ok ()
    else
      match ← surroundings.cycle with
      | .error (.reported .cancelled message) =>
        return .error (.reported .cancelled message)
      | outcome =>
        let (attempts, delay) ← afterCycle pace surroundings attempts outcome
        match decide deadline (← surroundings.clock) delay with
        | .stop => return .ok ()
        | .pause delay =>
          if ← surroundings.pause delay then return .ok ()
          else run pace surroundings deadline fuel attempts

/-- Runs cycles for a lifespan, or until the work is cancelled if there is none. -/
def runFor (pace : Pace τ) (surroundings : Surroundings m τ) (lifespan : Option τ)
    (fuel : Nat) : m (Except Failure Unit) := do
  let start ← surroundings.clock
  run pace surroundings (lifespan.map fun lifespan => start + lifespan) fuel 0

end Worker

/-- A base raised to a possibly negative number of attempts. -/
def powerOfBase (base : Float) (attempts : Int) : Except Failure Float :=
  let exponent := Float.ofInt attempts
  if exponent.isInf then .error .exponentOutOfRange
  else if base == 0 && attempts < 0 then .error .zeroToNegativePower
  else
    let power := base ^ exponent
    if power.isInf && base.isFinite then .error .powerOutOfRange else .ok power

/-- The pause after a possibly negative number of attempts, with a random share of the
jitter. -/
def backoffOf (base jitter : Float) (attempts : Int) (share : Float) :
    Except Failure Float := do
  return (← powerOfBase base attempts) + (0 + (jitter - 0) * share)

end Workflow
