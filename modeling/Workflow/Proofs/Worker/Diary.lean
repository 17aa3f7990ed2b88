import Workflow.Proofs.Worker.Exact

/-!
# The diary of a worker

A worker is watched through its cycles: when each of them begins and ends, and which pause follows
it.  Cycles succeed or fail and last as long as they please, and the work can be cancelled in the
course of a cycle or of a pause.
-/

namespace Workflow.Worker

variable {τ : Type} [DivisionRing τ] [LinearOrder τ]

/-- What comes of a cycle and of the pause after it. -/
structure Round (τ : Type) where
  outcome : Except Failure Unit
  /-- The cycle succeeds or fails, but does not end by a cancellation. -/
  isOwn : ∀ message, outcome ≠ .error (.reported .cancelled message)
  duration : τ
  /-- The random share of the pause after a failure. -/
  share : τ
  /-- Whether the work is cancelled in the course of the cycle. -/
  cancels : Bool
  /-- How long after the cycle the work is cancelled, if it is before the next one. -/
  cancelAfter : Option τ

/-- A pause: how long it is meant to last, whether it is cancelled, and when it ends. -/
structure Wait (τ : Type) where
  length : τ
  cancelled : Bool
  ended : τ
deriving DecidableEq

/-- A cycle: when it begins, whether the work is cancelled by then, when it ends, and the pause
that follows, if any. -/
structure Shift (τ : Type) where
  started : τ
  cancelled : Bool
  ended : τ
  wait : Option (Wait τ)
deriving DecidableEq

/-- The time, whether the work is cancelled, and all cycles so far, latest first. -/
structure Diary (τ : Type) where
  clock : τ
  cancelled : Bool
  shifts : List (Shift τ)
deriving DecidableEq

namespace Round

/-- The diary after a cycle. -/
def begin (round : Round τ) (diary : Diary τ) : Diary τ where
  clock := diary.clock + round.duration
  cancelled := diary.cancelled || round.cancels
  shifts := ⟨diary.clock, diary.cancelled, diary.clock + round.duration, none⟩ :: diary.shifts

/-- When the work is cancelled after the cycle. -/
def cancelAt (round : Round τ) (diary : Diary τ) : Option τ :=
  round.cancelAfter.map fun delay => diary.clock + delay

/-- The pause after a cycle. -/
def wait (round : Round τ) (length : τ) (diary : Diary τ) : Wait τ :=
  let (cancelled, ended) :=
    Pause.run diary.clock length diary.cancelled (round.cancelAt diary)
  { length, cancelled, ended }

/-- The diary after the pause.  A cancellation that falls due until its end has taken place,
whether or not it has cut the pause short. -/
def rest (round : Round τ) (length : τ) (diary : Diary τ) : Diary τ where
  clock := (round.wait length diary).ended
  cancelled :=
    diary.cancelled ||
      (round.cancelAt diary).any fun moment =>
        Decidable.decide (moment ≤ (round.wait length diary).ended)
  shifts :=
    match diary.shifts with
    | [] => []
    | shift :: earlier => { shift with wait := some (round.wait length diary) } :: earlier

theorem rest_cancelled {round : Round τ} {length : τ} {diary : Diary τ}
    (said : (round.wait length diary).cancelled = true) :
    (round.rest length diary).cancelled = true := by
  rw [rest, Bool.or_eq_true]
  rcases Pause.cancelled_of_run _ _ _ _ said with already | ⟨moment, meant, fallen⟩
  · exact .inl already
  · right
    rw [meant]
    exact decide_eq_true fallen

/-- The number of failures in a row after a cycle, and the pause that the worker intends. -/
def settled (pace : Pace τ) (attempts : Nat) (round : Round τ) : Nat × τ :=
  match round.outcome with
  | .ok _ => (0, pace.pollInterval)
  | .error _ => (pace.afterFailure attempts, pace.backoff (pace.afterFailure attempts) round.share)

end Round

/-- Surroundings in which each cycle, and the pause after it, comes out as given. -/
def observed (rounds : Nat → Round τ) : Surroundings (StateM (Diary τ)) τ where
  isCancelled := return (← get).cancelled
  cycle := do
    let diary ← get
    let round := rounds diary.shifts.length
    set (round.begin diary)
    return round.outcome
  clock := return (← get).clock
  share := return (rounds ((← get).shifts.length - 1)).share
  report := fun _ _ => return ()
  pause := fun length => do
    let diary ← get
    let round := rounds (diary.shifts.length - 1)
    set (round.rest length diary)
    return (round.wait length diary).cancelled

variable {rounds : Nat → Round τ} {deadline : Option τ} {diary : Diary τ} {attempts : Nat}

theorem runFor_run (pace : Pace τ) (lifespan : Option τ) (fuel : Nat) :
    (runFor pace (observed rounds) lifespan fuel).run diary =
      (run pace (observed rounds) (lifespan.map fun span => diary.clock + span) fuel 0).run
        diary :=
  rfl

theorem run_of_cancelled (pace : Pace τ) (cancelled : diary.cancelled = true) (fuel : Nat) :
    (run pace (observed rounds) deadline fuel attempts).run diary = pure (.ok (), diary) := by
  cases fuel with
  | zero => rfl
  | succ fuel =>
    have asked : (observed rounds).isCancelled.run diary = pure (true, diary) := by
      rw [← cancelled]
      rfl
    rw [run, StateT.run_bind, asked]
    rfl

variable {round : Round τ} (current : rounds diary.shifts.length = round)

include current

theorem afterCycle_run (pace : Pace τ) :
    (afterCycle pace (observed rounds) attempts round.outcome).run (round.begin diary) =
      pure (round.settled pace attempts, round.begin diary) := by
  subst current
  rw [Round.settled]
  cases (rounds diary.shifts.length).outcome <;> rfl

theorem run_succ (pace : Pace τ) (free : diary.cancelled = false) (fuel : Nat) :
    (run pace (observed rounds) deadline (fuel + 1) attempts).run diary =
      let (counted, delay) := round.settled pace attempts
      match decide deadline (round.begin diary).clock delay with
      | .stop => pure (.ok (), round.begin diary)
      | .pause length =>
        if (round.wait length (round.begin diary)).cancelled then
          pure (.ok (), round.rest length (round.begin diary))
        else
          (run pace (observed rounds) deadline fuel counted).run
            (round.rest length (round.begin diary)) := by
  have asked : (observed rounds).isCancelled.run diary = pure (false, diary) := by
    rw [← free]
    rfl
  have worked : (observed rounds).cycle.run diary = pure (round.outcome, round.begin diary) := by
    rw [← current]
    rfl
  have looked : (observed rounds).clock.run (round.begin diary) =
      pure ((round.begin diary).clock, round.begin diary) := rfl
  have paused (length : τ) : ((observed rounds).pause length).run (round.begin diary) =
      pure ((round.wait length (round.begin diary)).cancelled,
        round.rest length (round.begin diary)) := by
    rw [← current]
    rfl
  rw [run, StateT.run_bind, asked, pure_bind]
  simp only [Bool.false_eq_true, if_false]
  rw [StateT.run_bind, worked, pure_bind]
  split
  · rename_i message came
    exact absurd came (round.isOwn message)
  · rw [StateT.run_bind, afterCycle_run current, pure_bind, StateT.run_bind, looked, pure_bind]
    simp only
    cases decide deadline (round.begin diary).clock (round.settled pace attempts).2 with
    | stop => rfl
    | pause length =>
      simp only
      rw [StateT.run_bind, paused, pure_bind]
      split <;> rfl

end Workflow.Worker
