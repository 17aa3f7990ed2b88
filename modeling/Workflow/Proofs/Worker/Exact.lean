import Mathlib.Algebra.Order.Field.Basic
import Mathlib.Data.Rat.Cast.OfScientific
import Mathlib.Tactic.NormNum
import Mathlib.Tactic.NormNum.OfScientific
import Workflow.Pause
import Workflow.Worker

/-!
# Exact seconds

The numbers of an ordered division ring, such as the rationals, are seconds that are added,
compared and raised to powers without rounding.  In them a pause lasts as long as it is meant to,
unless it is cancelled, and a pause that is cut at a deadline ends there at the latest.
-/

namespace Workflow

variable {τ : Type} [DivisionRing τ] [LinearOrder τ]

instance (priority := low) Seconds.exact : Seconds τ where
  zero := 0
  power base attempts := base ^ attempts
  decideLE := inferInstance
  decideLT := inferInstance

theorem Seconds.least_eq (left right : τ) : Seconds.least left right = min left right :=
  (min_def left right).symm

theorem Seconds.greatest_eq (left right : τ) : Seconds.greatest left right = max left right :=
  (max_def left right).symm

section Pauses

variable (start length : τ) (cancelled : Bool) (cancelAt : Option τ)

/-- Without a length a pause ends at once; else it is cancelled at once, or at a moment that comes
before its end, or not at all. -/
theorem Pause.run_cases :
    (length ≤ 0 ∧ run start length cancelled cancelAt = (false, start)) ∨
      (0 < length ∧
        (run start length cancelled cancelAt = (false, start + length) ∨
          (cancelled = true ∧ run start length cancelled cancelAt = (true, start)) ∨
          ∃ moment, cancelAt = some moment ∧ moment < start + length ∧
            run start length cancelled cancelAt = (true, max start moment))) := by
  rcases le_or_gt length 0 with nothing | positive
  · exact .inl ⟨nothing, if_pos nothing⟩
  · refine .inr ⟨positive, ?_⟩
    have lasts : ¬ length ≤ (Seconds.zero : τ) := not_le.mpr positive
    cases cancelled with
    | true =>
      unfold run
      rw [if_neg lasts]
      exact .inr (.inl ⟨rfl, rfl⟩)
    | false =>
      unfold run
      rw [if_neg lasts, if_neg Bool.false_ne_true]
      cases cancelAt with
      | none => exact .inl rfl
      | some moment =>
        rcases lt_or_ge moment (start + length) with before | after
        · refine .inr (.inr ⟨moment, rfl, before, ?_⟩)
          rw [← Seconds.greatest_eq]
          exact if_pos before
        · exact .inl (if_neg (not_lt.mpr after))

theorem Pause.cancelled_of_run (said : (run start length cancelled cancelAt).1 = true) :
    cancelled = true ∨
      ∃ moment, cancelAt = some moment ∧ moment ≤ (run start length cancelled cancelAt).2 := by
  rcases run_cases start length cancelled cancelAt with
    ⟨-, ran⟩ | ⟨-, ran | ⟨already, -⟩ | ⟨moment, meant, -, ran⟩⟩
  · simp [ran] at said
  · simp [ran] at said
  · exact .inl already
  · exact .inr ⟨moment, meant, by simp [ran]⟩

variable [IsStrictOrderedRing τ]

/-- A pause never lasts longer than it is meant to, and it does last as long unless it is said to
have been cancelled. -/
theorem Pause.run_spec :
    start ≤ (run start length cancelled cancelAt).2 ∧
      (run start length cancelled cancelAt).2 ≤ start + max 0 length ∧
      ((run start length cancelled cancelAt).1 = false →
        (run start length cancelled cancelAt).2 = start + max 0 length) := by
  rcases run_cases start length cancelled cancelAt with
    ⟨nothing, ran⟩ | ⟨positive, ran | ⟨-, ran⟩ | ⟨moment, -, before, ran⟩⟩
  · simp [ran, max_eq_left nothing]
  all_goals
    rw [ran, max_eq_right positive.le]
    have later : start ≤ start + length := le_add_of_nonneg_right positive.le
  · exact ⟨later, le_rfl, fun _ => rfl⟩
  · exact ⟨le_rfl, later, nofun⟩
  · exact ⟨le_max_left _ _, max_le later before.le, nofun⟩

end Pauses

variable [IsStrictOrderedRing τ]

/-- After each failure in a row the pause is longer by a half, and it varies by up to half a
second. -/
theorem Pace.backoff_usual (pollInterval : τ) (maxAttempts attempts : Nat) (share : τ) :
    (Pace.usual pollInterval maxAttempts).backoff attempts share =
      (3 / 2) ^ attempts + 1 / 2 * share := by
  have unfolded : (Pace.usual pollInterval maxAttempts).backoff attempts share =
      (1.5 : τ) ^ attempts + (0 + ((0.5 : τ) - 0) * share) := rfl
  have base : (1.5 : τ) = 3 / 2 := by norm_num
  have jitter : (0.5 : τ) = 1 / 2 := by norm_num
  rw [unfolded, base, jitter, zero_add, sub_zero]

/-- At the deadline the worker stops, and before it no pause is longer than what remains. -/
theorem Worker.decide_some (limit clock delay : τ) :
    decide (some limit) clock delay =
      if limit ≤ clock then .stop else .pause (min delay (limit - clock)) := by
  have unfolded : decide (some limit) clock delay =
      if limit - clock ≤ (0 : τ) then .stop
      else .pause (Seconds.least delay (limit - clock)) := rfl
  rw [unfolded, Seconds.least_eq]
  simp only [sub_nonpos]

theorem Worker.decide_eq_stop {deadline : Option τ} {clock delay : τ}
    (decided : decide deadline clock delay = .stop) :
    ∃ limit, deadline = some limit ∧ limit ≤ clock := by
  cases deadline with
  | none => cases decided
  | some limit =>
    rw [decide_some] at decided
    split at decided
    · exact ⟨limit, rfl, ‹_›⟩
    · cases decided

theorem Worker.decide_eq_pause {deadline : Option τ} {clock delay length : τ}
    (decided : decide deadline clock delay = .pause length) :
    (deadline = none → length = delay) ∧
      ∀ limit, deadline = some limit → clock < limit ∧ length = min delay (limit - clock) := by
  cases deadline with
  | none =>
    cases decided
    exact ⟨fun _ => rfl, nofun⟩
  | some limit =>
    rw [decide_some] at decided
    split at decided
    · cases decided
    · cases decided
      refine ⟨nofun, ?_⟩
      rintro _ ⟨⟩
      exact ⟨not_le.mp ‹_›, rfl⟩

end Workflow
