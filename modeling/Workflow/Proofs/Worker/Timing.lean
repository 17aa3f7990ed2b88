import Workflow.Proofs.Worker.Diary

/-!
# When a worker works and when it pauses

What is known of one turn, a cycle and the pause after it, is carried from turn to turn by the
number of failures in a row and by the time never being past the deadline.
-/

namespace Workflow.Worker

variable {τ : Type}

/-- How many of the cycles before a number have failed in a row, up to the last of them. -/
def streak (rounds : Nat → Round τ) : Nat → Nat
  | 0 => 0
  | number + 1 =>
    match (rounds number).outcome with
    | .ok _ => 0
    | .error _ => streak rounds number + 1

theorem streak_succ_min (rounds : Nat → Round τ) (maxAttempts number : Nat) :
    min (streak rounds (number + 1)) maxAttempts =
      match (rounds number).outcome with
      | .ok _ => 0
      | .error _ => min (min (streak rounds number) maxAttempts + 1) maxAttempts := by
  rw [streak]
  cases (rounds number).outcome with
  | ok _ => exact Nat.zero_min _
  | error _ => simp only; omega

/-- When a cycle begins: at the start, or once the pause after the one before is over. -/
inductive Begins (start : τ) : List (Shift τ) → τ → Prop where
  | first : Begins start [] start
  | afterWait {shift : Shift τ} {earlier : List (Shift τ)} {wait : Wait τ}
      (paused : shift.wait = some wait) (whole : wait.cancelled = false) :
      Begins start (shift :: earlier) wait.ended

theorem Begins.paused {start moment : τ} {shift : Shift τ} {earlier : List (Shift τ)}
    (begins : Begins start (shift :: earlier) moment) : ∃ wait, shift.wait = some wait := by
  cases begins with
  | afterWait paused _ => exact ⟨_, paused⟩

variable [DivisionRing τ] [LinearOrder τ]

/-- How long the worker means to pause after a cycle. -/
def intended (pollInterval : τ) (maxAttempts : Nat) (rounds : Nat → Round τ) (number : Nat) : τ :=
  match (rounds number).outcome with
  | .ok _ => pollInterval
  | .error _ =>
    (3 / 2) ^ min (streak rounds (number + 1)) maxAttempts + 1 / 2 * (rounds number).share

/-- What is true of a cycle and of the pause after it. -/
structure Shift.IsTimely (pollInterval : τ) (maxAttempts : Nat) (rounds : Nat → Round τ)
    (deadline : Option τ) (number : Nat) (shift : Shift τ) : Prop where
  /-- It does not begin once the work is cancelled. -/
  uncancelled : shift.cancelled = false
  /-- It does not begin after the deadline. -/
  punctual : ∀ limit, deadline = some limit → shift.started ≤ limit
  lasts : shift.ended = shift.started + (rounds number).duration
  /-- Without a deadline the pause is as long as it is meant to be. -/
  unlimited : deadline = none →
    ∃ wait, shift.wait = some wait ∧
      wait.length = intended pollInterval maxAttempts rounds number
  /-- Before the deadline it is at most as long as what remains, and then there is none. -/
  limited : ∀ limit, deadline = some limit →
    (shift.wait = none ↔ limit ≤ shift.ended) ∧
      ∀ wait, shift.wait = some wait →
        wait.length = min (intended pollInterval maxAttempts rounds number) (limit - shift.ended)
  /-- A pause that is not cancelled lasts as long as it should, and no pause lasts longer. -/
  exact : ∀ wait, shift.wait = some wait →
    shift.ended ≤ wait.ended ∧ wait.ended ≤ shift.ended + max 0 wait.length ∧
      (wait.cancelled = false → wait.ended = shift.ended + max 0 wait.length)
  within : ∀ wait limit, shift.wait = some wait → deadline = some limit → wait.ended ≤ limit

/-- All cycles are timely, and each follows the one before. -/
inductive Keeps (pollInterval : τ) (maxAttempts : Nat) (rounds : Nat → Round τ)
    (deadline : Option τ) (start : τ) : List (Shift τ) → Prop where
  | nil : Keeps pollInterval maxAttempts rounds deadline start []
  | cons {shift : Shift τ} {earlier : List (Shift τ)}
      (timely : shift.IsTimely pollInterval maxAttempts rounds deadline earlier.length)
      (begins : Begins start earlier shift.started)
      (keeps : Keeps pollInterval maxAttempts rounds deadline start earlier) :
      Keeps pollInterval maxAttempts rounds deadline start (shift :: earlier)

/-- What is true of a run of at most so many cycles. -/
structure Diary.KeepsTime (pollInterval : τ) (maxAttempts : Nat) (rounds : Nat → Round τ)
    (deadline : Option τ) (start : τ) (fuel : Nat) (diary : Diary τ) : Prop where
  cycles : Keeps pollInterval maxAttempts rounds deadline start diary.shifts
  /-- Only the last cycle ends at the deadline or later. -/
  overdue : ∀ limit, deadline = some limit → ∀ shift ∈ diary.shifts.tail, shift.ended < limit
  /-- The run ends early by a cancellation, or after a cycle without a pause. -/
  stops : diary.shifts.length < fuel →
    diary.cancelled = true ∨
      ∃ last earlier, diary.shifts = last :: earlier ∧ last.wait = none

section Turns

variable {pollInterval start limit : τ} {maxAttempts : Nat} {rounds : Nat → Round τ}
  {deadline : Option τ} {shifts : List (Shift τ)} {diary : Diary τ}

theorem Keeps.tail_before (keeps : Keeps pollInterval maxAttempts rounds deadline start shifts)
    (due : deadline = some limit) : ∀ shift ∈ shifts.tail, shift.ended < limit := by
  induction keeps with
  | nil => exact nofun
  | @cons last earlier timely begins keeps before =>
    intro shift followed
    cases keeps with
    | nil => cases followed
    | @cons second rest early _ _ =>
      rcases List.mem_cons.mp followed with rfl | further
      · obtain ⟨wait, paused⟩ := begins.paused
        refine not_le.mp fun late => ?_
        rw [(early.limited limit due).1.mpr late] at paused
        cases paused
      · exact before shift further

variable [IsStrictOrderedRing τ]

/-- What the worker counts are the failures in a row, up to the limit. -/
theorem Round.settled_usual {round : Round τ} {number : Nat} (current : rounds number = round) :
    round.settled (.usual pollInterval maxAttempts) (min (streak rounds number) maxAttempts) =
      (min (streak rounds (number + 1)) maxAttempts,
        intended pollInterval maxAttempts rounds number) := by
  subst current
  rw [settled, intended, streak_succ_min]
  cases (rounds number).outcome with
  | ok _ => rfl
  | error _ => simp only [Pace.backoff_usual]; rfl

/-- What is true of the diary between two turns. -/
structure Diary.IsReady (pollInterval : τ) (maxAttempts : Nat) (rounds : Nat → Round τ)
    (deadline : Option τ) (start : τ) (diary : Diary τ) : Prop where
  keeps : Keeps pollInterval maxAttempts rounds deadline start diary.shifts
  begins : Begins start diary.shifts diary.clock
  punctual : ∀ limit, deadline = some limit → diary.clock ≤ limit

variable {round : Round τ} {length : τ}

/-- The pause after a cycle is over by the deadline. -/
theorem Round.wait_ended_le {delay : τ}
    (decided : decide deadline diary.clock delay = .pause length) (due : deadline = some limit) :
    (round.wait length diary).ended ≤ limit := by
  obtain ⟨before, cut⟩ := (decide_eq_pause decided).2 limit due
  have remaining : max 0 length ≤ limit - diary.clock :=
    max_le (sub_nonneg.mpr before.le) (cut ▸ min_le_right _ _)
  calc (round.wait length diary).ended
      ≤ diary.clock + max 0 length := (Pause.run_spec _ _ _ _).2.1
    _ ≤ limit := add_le_of_le_sub_left remaining

namespace Diary.IsReady

variable (ready : diary.IsReady pollInterval maxAttempts rounds deadline start)
  (free : diary.cancelled = false) (current : rounds diary.shifts.length = round)

include ready free current

theorem begin
    (decided : decide deadline (round.begin diary).clock
      (intended pollInterval maxAttempts rounds diary.shifts.length) = .stop) :
    Keeps pollInterval maxAttempts rounds deadline start (round.begin diary).shifts := by
  subst current
  obtain ⟨limit, due, late⟩ := decide_eq_stop decided
  refine .cons ?_ ready.begins ready.keeps
  exact {
    uncancelled := free
    punctual := ready.punctual
    lasts := rfl
    unlimited := fun never => by simp [due] at never
    limited := by
      intro other due'
      cases due.symm.trans due'
      exact ⟨⟨fun _ => late, fun _ => rfl⟩, nofun⟩
    exact := nofun
    within := nofun }

variable (decided : decide deadline (round.begin diary).clock
  (intended pollInterval maxAttempts rounds diary.shifts.length) = .pause length)

include decided

/-- A cycle with the pause after it. -/
theorem rest :
    Keeps pollInterval maxAttempts rounds deadline start
      (round.rest length (round.begin diary)).shifts := by
  subst current
  obtain ⟨whole, cut⟩ := decide_eq_pause decided
  refine .cons ?_ ready.begins ready.keeps
  exact {
    uncancelled := free
    punctual := ready.punctual
    lasts := rfl
    unlimited := fun never => ⟨_, rfl, whole never⟩
    limited := by
      intro limit due
      obtain ⟨before, shortened⟩ := cut limit due
      refine ⟨⟨nofun, fun late => absurd late (not_le.mpr before)⟩, ?_⟩
      rintro wait ⟨⟩
      exact shortened
    exact := by
      rintro wait ⟨⟩
      exact Pause.run_spec _ _ _ _
    within := by
      rintro wait limit ⟨⟩ due
      exact Round.wait_ended_le decided due }

theorem next (whole : (round.wait length (round.begin diary)).cancelled = false) :
    (round.rest length (round.begin diary)).IsReady pollInterval maxAttempts rounds deadline
      start where
  keeps := ready.rest free current decided
  begins := .afterWait rfl whole
  punctual := fun _ due => Round.wait_ended_le decided due

end Diary.IsReady

end Turns

section Run

variable [IsStrictOrderedRing τ] {pollInterval start : τ} {maxAttempts : Nat}
  {rounds : Nat → Round τ} {deadline : Option τ}

theorem run_keepsTime (fuel : Nat) (diary : Diary τ)
    (ready : diary.IsReady pollInterval maxAttempts rounds deadline start) :
    ∃ final,
      (run (.usual pollInterval maxAttempts) (observed rounds) deadline fuel
        (min (streak rounds diary.shifts.length) maxAttempts)).run diary = pure (.ok (), final) ∧
      final.KeepsTime pollInterval maxAttempts rounds deadline start
        (diary.shifts.length + fuel) := by
  induction fuel generalizing diary with
  | zero =>
    refine ⟨diary, rfl, ready.keeps, fun _ => ready.keeps.tail_before, fun fewer => ?_⟩
    exact absurd fewer (Nat.lt_irrefl _)
  | succ fuel continues =>
    cases free : diary.cancelled with
    | true =>
      exact ⟨diary, run_of_cancelled _ free _, ready.keeps, fun _ => ready.keeps.tail_before,
        fun _ => .inl free⟩
    | false =>
      obtain ⟨round, current⟩ : ∃ round, rounds diary.shifts.length = round := ⟨_, rfl⟩
      rw [run_succ current _ free, Round.settled_usual current]
      simp only
      cases decided : decide deadline (round.begin diary).clock
          (intended pollInterval maxAttempts rounds diary.shifts.length) with
      | stop =>
        have keeps := ready.begin free current decided
        exact ⟨_, rfl, keeps, fun _ => keeps.tail_before, fun _ => .inr ⟨_, _, rfl, rfl⟩⟩
      | pause length =>
        simp only
        cases whole : (round.wait length (round.begin diary)).cancelled with
        | true =>
          have keeps := ready.rest free current decided
          exact ⟨_, rfl, keeps, fun _ => keeps.tail_before,
            fun _ => .inl (Round.rest_cancelled whole)⟩
        | false =>
          have longer : (round.rest length (round.begin diary)).shifts.length =
              diary.shifts.length + 1 := rfl
          have rest := continues _ (ready.next free current decided whole)
          rw [longer, Nat.add_assoc, Nat.add_comm 1] at rest
          simpa only [Bool.false_eq_true, if_false] using rest

/-- However its cycles come out, however long they last and whenever the work is cancelled, a
worker begins no cycle after the deadline or once it is cancelled, pauses for as long as it should
and never past the deadline, and stops after the first cycle that ends at the deadline or later. -/
theorem runFor_keepsTime (pollInterval : τ) (maxAttempts : Nat) (rounds : Nat → Round τ)
    (start : τ) (cancelled : Bool) (lifespan : Option τ)
    (nonneg : ∀ span, lifespan = some span → 0 ≤ span) (fuel : Nat) :
    ∃ final,
      (runFor (.usual pollInterval maxAttempts) (observed rounds) lifespan fuel).run
          { clock := start, cancelled, shifts := [] } = pure (.ok (), final) ∧
        final.KeepsTime pollInterval maxAttempts rounds
          (lifespan.map fun span => start + span) start fuel := by
  have ready : Diary.IsReady pollInterval maxAttempts rounds
      (lifespan.map fun span => start + span) start { clock := start, cancelled, shifts := [] } := {
    keeps := .nil
    begins := .first
    punctual := by
      intro limit due
      obtain ⟨span, lives, rfl⟩ := Option.map_eq_some_iff.mp due
      exact le_add_of_nonneg_right (nonneg span lives) }
  have ran := run_keepsTime fuel _ ready
  rw [List.length_nil, Nat.zero_add, streak, Nat.zero_min] at ran
  rw [runFor_run]
  exact ran

/-- The first cycle fails after half a second, each later one succeeds after a second. -/
def stumbling (number : Nat) : Round Rat where
  outcome := if number = 0 then .error .stillLeased else .ok ()
  isOwn := by intro message; split <;> nofun
  duration := if number = 0 then 1 / 2 else 1
  share := 0
  cancels := false
  cancelAfter := none

/-- In a lifespan of four seconds the second pause is cut, and the third cycle ends too late. -/
def stumbled : Diary Rat where
  clock := 5
  cancelled := false
  shifts := [
    { started := 4, cancelled := false, ended := 5, wait := none },
    { started := 2, cancelled := false, ended := 3,
      wait := some { length := 1, cancelled := false, ended := 4 } },
    { started := 0, cancelled := false, ended := 1 / 2,
      wait := some { length := 3 / 2, cancelled := false, ended := 2 } }]

theorem stumbled_keepsTime :
    (∀ span, some (4 : Rat) = some span → 0 ≤ span) ∧
      (runFor (.usual 2 3) (observed stumbling) (some 4) 9).run
          { clock := 0, cancelled := false, shifts := [] } = pure (.ok (), stumbled) ∧
      stumbled.KeepsTime 2 3 stumbling ((some 4).map fun span => 0 + span) 0 9 := by
  have nonneg : ∀ span, some (4 : Rat) = some span → 0 ≤ span := by
    rintro _ ⟨⟩
    norm_num
  have evaluated : (runFor (.usual 2 3) (observed stumbling) (some 4) 9).run
      { clock := 0, cancelled := false, shifts := [] } = pure (.ok (), stumbled) := by
    refine Prod.ext ?_ ?_ <;> decide +kernel
  obtain ⟨final, ran, keeps⟩ := runFor_keepsTime 2 3 stumbling 0 false (some 4) nonneg 9
  obtain rfl : final = stumbled := (Prod.mk.inj (ran.symm.trans evaluated)).2
  exact ⟨nonneg, ran, keeps⟩

end Run

end Workflow.Worker
