import Mathlib.Algebra.Order.Ring.Nat
import Mathlib.Data.List.Basic
import Mathlib.Tactic.Push
import Workflow.Time.Calendar

/-!
# Counting days

The year of a day is the one whose days contain it, and within the year the months divide the
days among them in the same way.  So every day has a date that exists, the date says which day
it was, and of two days the earlier one has the earlier date.
-/

namespace Workflow.Calendar

/-- One date comes before another: years count first, then months, then days. -/
def Date.Precedes (earlier later : Date) : Prop :=
  earlier.year < later.year ∨
    earlier.year = later.year ∧
      (earlier.month < later.month ∨ earlier.month = later.month ∧ earlier.day < later.day)

/-! ### Years -/

theorem sum_monthLengths (year : Nat) :
    (monthLengths year).sum = if isLeap year then 366 else 365 := by
  unfold monthLengths
  split <;> rfl

theorem length_monthLengths (year : Nat) : (monthLengths year).length = 12 := rfl

theorem daysBefore_add_one {year : Nat} (positive : 1 ≤ year) :
    daysBefore (year + 1) = daysBefore year + (monthLengths year).sum := by
  obtain ⟨past, rfl⟩ := Nat.exists_eq_add_of_le' positive
  have atMost : past / 100 ≤ past / 4 := Nat.div_le_div_left (by decide) (by decide)
  have fourth : (past + 1) % 100 = 0 → (past + 1) % 4 = 0 := by omega
  have hundredth : (past + 1) % 400 = 0 → (past + 1) % 100 = 0 := by omega
  rw [sum_monthLengths]
  simp only [daysBefore, isLeap, Nat.add_sub_cancel, Bool.and_eq_true, Bool.or_eq_true,
    beq_iff_eq, bne_iff_ne, Nat.succ_div, Nat.dvd_iff_mod_eq_zero]
  generalize past / 4 = fours at *
  generalize past / 100 = hundreds at *
  generalize past / 400 = fourHundreds at *
  by_cases four : (past + 1) % 4 = 0
  · by_cases hundred : (past + 1) % 100 = 0
    · by_cases fourHundred : (past + 1) % 400 = 0
      · simp [four, hundred, fourHundred]
        omega
      · simp [four, hundred, fourHundred]
        omega
    · have other : ¬(past + 1) % 400 = 0 := fun same => hundred (hundredth same)
      simp [four, hundred, other]
      omega
  · have other : ¬(past + 1) % 100 = 0 := fun same => four (fourth same)
    have another : ¬(past + 1) % 400 = 0 := fun same => other (hundredth same)
    simp [four, other, another]
    omega

theorem daysBefore_mono {earlier later : Nat} (notLater : earlier ≤ later) :
    daysBefore earlier ≤ daysBefore later := by
  induction notLater with
  | refl => exact Nat.le_refl _
  | @step later _ induction =>
      refine induction.trans ?_
      rcases Nat.eq_zero_or_pos later with rfl | positive
      · exact Nat.zero_le _
      · rw [Nat.succ_eq_add_one, daysBefore_add_one positive]
        exact Nat.le_add_right _ _

theorem mul_le_daysBefore (years : Nat) : 365 * years ≤ daysBefore (years + 1) := by
  simp only [daysBefore]
  omega

/-- The year found is within the bound and begins no later than the day, and the next year
within the bound would begin later. -/
theorem yearUpTo_spec {day bound : Nat} (begun : 1 ≤ bound) :
    1 ≤ yearUpTo day bound ∧ yearUpTo day bound ≤ bound ∧ daysBefore (yearUpTo day bound) ≤ day ∧
      (yearUpTo day bound < bound → day < daysBefore (yearUpTo day bound + 1)) := by
  induction bound with
  | zero => cases begun
  | succ bound induction =>
      rw [yearUpTo]
      split
      · rename_i begins
        exact ⟨Nat.le_add_left _ _, Nat.le_refl _, begins, fun impossible =>
          absurd impossible (Nat.lt_irrefl _)⟩
      · rename_i later
        have positive : 1 ≤ bound := by
          rcases Nat.eq_zero_or_pos bound with rfl | positive
          · exact absurd (Nat.zero_le day) later
          · exact positive
        obtain ⟨isYear, atMost, begins, isLast⟩ := induction positive
        refine ⟨isYear, Nat.le_succ_of_le atMost, begins, fun _ => ?_⟩
        rcases Nat.lt_or_eq_of_le atMost with below | same
        · exact isLast below
        · rw [same]
          exact Nat.lt_of_not_le later

/-- A day lies in its year. -/
theorem yearOfDay_spec (day : Nat) :
    1 ≤ yearOfDay day ∧ daysBefore (yearOfDay day) ≤ day ∧
      day < daysBefore (yearOfDay day + 1) := by
  obtain ⟨isYear, atMost, begins, isLast⟩ :=
    @yearUpTo_spec day (day / 365 + 1) (Nat.le_add_left _ _)
  refine ⟨isYear, begins, ?_⟩
  rcases Nat.lt_or_eq_of_le atMost with below | same
  · exact isLast below
  · have enough := mul_le_daysBefore (day / 365 + 1)
    rw [yearOfDay, same]
    omega

/-- The place of a day within its year. -/
def indexInYear (day : Nat) : Nat := day - daysBefore (yearOfDay day)

theorem indexInYear_lt (day : Nat) : indexInYear day < (monthLengths (yearOfDay day)).sum := by
  obtain ⟨isYear, begins, ends⟩ := yearOfDay_spec day
  rw [daysBefore_add_one isYear] at ends
  unfold indexInYear
  omega

theorem yearOfDay_mono {earlier later : Nat} (notLater : earlier ≤ later) :
    yearOfDay earlier ≤ yearOfDay later := by
  by_contra after
  have begins := (yearOfDay_spec earlier).2.1
  have ends := (yearOfDay_spec later).2.2
  have between := @daysBefore_mono (yearOfDay later + 1) _ (Nat.lt_of_not_le after)
  omega

/-! ### Months -/

/-- Months and days are counted from one, the day is one of its month, and the months before
it and the days before it make up the index. -/
theorem monthAndDay_spec {index : Nat} {months : List Nat} (inside : index < months.sum) :
    1 ≤ (monthAndDay index months).1 ∧ 1 ≤ (monthAndDay index months).2 ∧
      (∃ length, months[(monthAndDay index months).1 - 1]? = some length ∧
        (monthAndDay index months).2 ≤ length) ∧
      (months.take ((monthAndDay index months).1 - 1)).sum
        + ((monthAndDay index months).2 - 1) = index := by
  induction months generalizing index with
  | nil => cases inside
  | cons length months induction =>
      cases months with
      | nil =>
          have inside : index < length := by simpa using inside
          have place : monthAndDay index [length] = (1, index + 1) := rfl
          rw [place]
          exact ⟨Nat.le_refl 1, Nat.le_add_left 1 index, ⟨length, rfl, inside⟩, by simp⟩
      | cons next months =>
          by_cases first : index < length
          · have place : monthAndDay index (length :: next :: months) = (1, index + 1) := by
              rw [monthAndDay.eq_def]
              simp [first]
            rw [place]
            exact ⟨Nat.le_refl 1, Nat.le_add_left 1 index, ⟨length, rfl, first⟩, by simp⟩
          · have within : index - length < (next :: months).sum := by
              simp only [List.sum_cons] at inside ⊢
              omega
            obtain ⟨isMonth, isDay, ⟨found, stored, fits⟩, total⟩ := induction within
            have split : monthAndDay index (length :: next :: months) =
                ((monthAndDay (index - length) (next :: months)).1 + 1,
                  (monthAndDay (index - length) (next :: months)).2) := by
              rw [monthAndDay.eq_def]
              simp [first]
            rw [split]
            generalize monthAndDay (index - length) (next :: months) = place at *
            obtain ⟨month, day⟩ := place
            obtain ⟨month, rfl⟩ := Nat.exists_eq_add_of_le' isMonth
            refine ⟨Nat.le_add_left _ _, isDay, ⟨found, stored, fits⟩, ?_⟩
            simp only [Nat.add_sub_cancel, List.take_succ_cons, List.sum_cons] at total ⊢
            omega

theorem sum_take_add_le {months : List Nat} {index length bound : Nat}
    (stored : months[index]? = some length) (below : index < bound) :
    (months.take index).sum + length ≤ (months.take bound).sum := by
  have parts := congrArg List.sum (List.take_append_drop (index + 1) (months.take bound))
  rw [List.sum_append, List.take_take, Nat.min_eq_left below, List.take_add_one, stored,
    List.sum_append] at parts
  simp only [Option.toList_some, List.sum_singleton] at parts
  omega

theorem monthAndDay_mono {earlier later : Nat} {months : List Nat} (before : earlier < later)
    (inside : later < months.sum) :
    (monthAndDay earlier months).1 < (monthAndDay later months).1 ∨
      (monthAndDay earlier months).1 = (monthAndDay later months).1 ∧
        (monthAndDay earlier months).2 < (monthAndDay later months).2 := by
  obtain ⟨isMonth, isDay, ⟨length, stored, fits⟩, total⟩ := monthAndDay_spec inside
  obtain ⟨_, _, _, earlierTotal⟩ := monthAndDay_spec (Nat.lt_trans before inside)
  rcases Nat.lt_trichotomy (monthAndDay earlier months).1 (monthAndDay later months).1 with
    monthBefore | sameMonth | monthAfter
  · exact .inl monthBefore
  · refine .inr ⟨sameMonth, ?_⟩
    rw [sameMonth] at earlierTotal
    omega
  · have whole := @sum_take_add_le _ _ _ ((monthAndDay earlier months).1 - 1) stored (by omega)
    omega

/-! ### Days -/

theorem dateOfDay_eq (day : Nat) :
    dateOfDay day =
      ⟨yearOfDay day, (monthAndDay (indexInYear day) (monthLengths (yearOfDay day))).1,
        (monthAndDay (indexInYear day) (monthLengths (yearOfDay day))).2⟩ := by
  simp only [dateOfDay, indexInYear]

theorem dayOfDate_eq (date : Date) :
    dayOfDate date =
      daysBefore date.year + (((monthLengths date.year).take (date.month - 1)).sum
        + (date.day - 1)) := by
  rw [dayOfDate, ← List.sum_eq_foldl, Nat.add_assoc]

/-- **A day is the day of its date.** -/
theorem dayOfDate_dateOfDay (day : Nat) : dayOfDate (dateOfDay day) = day := by
  obtain ⟨_, begins, _⟩ := yearOfDay_spec day
  obtain ⟨_, _, _, total⟩ := monthAndDay_spec (indexInYear_lt day)
  rw [dayOfDate_eq, dateOfDay_eq]
  change daysBefore (yearOfDay day) + _ = day
  rw [total, indexInYear]
  omega

/-- The date of every day that is counted exists. -/
theorem isValid_dateOfDay {day : Nat} (counted : day < dayCount) :
    (dateOfDay day).isValid := by
  obtain ⟨isYear, begins, _⟩ := yearOfDay_spec day
  obtain ⟨isMonth, isDay, ⟨length, stored, fits⟩, _⟩ := monthAndDay_spec (indexInYear_lt day)
  have lastYear : yearOfDay day ≤ 9999 := by
    by_contra after
    have late := @daysBefore_mono 10000 _ (Nat.lt_of_not_le after)
    rw [dayCount] at counted
    omega
  simp [Date.isValid, dateOfDay_eq, isYear, lastYear, isMonth, isDay, stored, fits]

/-- **The earlier day has the earlier date.** -/
theorem dateOfDay_precedes {earlier later : Nat} (before : earlier < later) :
    (dateOfDay earlier).Precedes (dateOfDay later) := by
  rcases Nat.lt_or_eq_of_le (yearOfDay_mono (Nat.le_of_lt before)) with yearBefore | sameYear
  · exact .inl yearBefore
  · refine .inr ⟨sameYear, ?_⟩
    have begins := (yearOfDay_spec earlier).2.1
    have inside : indexInYear earlier < indexInYear later := by
      rw [indexInYear, indexInYear, ← sameYear]
      omega
    rw [dateOfDay_eq, dateOfDay_eq, sameYear]
    exact monthAndDay_mono inside (indexInYear_lt later)

end Workflow.Calendar
