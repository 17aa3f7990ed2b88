/-!
# The calendar

Days of the Gregorian calendar, extended backwards, are counted from the first
day of the year 1, which has the number zero.  A year begins after the days of
all years before it, so the year of a day is the last one that begins no later.
-/

namespace Workflow.Calendar

structure Date where
  year : Nat
  month : Nat
  day : Nat
deriving DecidableEq, Repr

/-- Whether a year has 366 days. -/
def isLeap (year : Nat) : Bool :=
  year % 4 == 0 && (year % 100 != 0 || year % 400 == 0)

def monthLengths (year : Nat) : List Nat :=
  [31, if isLeap year then 29 else 28, 31, 30, 31, 30, 31, 31, 30, 31, 30, 31]

/-- The number of days before the first day of a year, counted from year 1. -/
def daysBefore (year : Nat) : Nat :=
  let past := year - 1
  365 * past + past / 4 - past / 100 + past / 400

/-- The last year up to a bound that begins no later than on the given day. -/
def yearUpTo (day : Nat) : Nat → Nat
  | 0 => 0
  | year + 1 => if daysBefore (year + 1) ≤ day then year + 1 else yearUpTo day year

def yearOfDay (day : Nat) : Nat :=
  yearUpTo day (day / 365 + 1)

/-- Month and day of the month, both from one, of the day with the given index
from zero within a row of months. -/
def monthAndDay (index : Nat) : List Nat → Nat × Nat
  | [] => (1, index + 1)
  | [_] => (1, index + 1)
  | length :: months =>
    if index < length then (1, index + 1)
    else
      let (month, day) := monthAndDay (index - length) months
      (month + 1, day)

def dateOfDay (day : Nat) : Date :=
  let year := yearOfDay day
  let (month, dayOfMonth) := monthAndDay (day - daysBefore year) (monthLengths year)
  ⟨year, month, dayOfMonth⟩

/-- Whether a date exists in the years 1 to 9999. -/
def Date.isValid (date : Date) : Bool :=
  1 ≤ date.year && date.year ≤ 9999 && 1 ≤ date.month && 1 ≤ date.day &&
    match (monthLengths date.year)[date.month - 1]? with
    | some length => date.day ≤ length
    | none => false

def dayOfDate (date : Date) : Nat :=
  daysBefore date.year + ((monthLengths date.year).take (date.month - 1)).foldl (· + ·) 0
    + (date.day - 1)

/-- The number of days in the years 1 to 9999. -/
def dayCount : Nat := daysBefore 10000

end Workflow.Calendar
