import Workflow.Time.Calendar

/-!
# Time stamps

A time stamp is a reading of a local clock together with the distance of that
clock from universal time.  Time stamps are ordered by the instant they denote.
Both parts are counted in microseconds; the local reading starts with the year 1.
A clock keeps its offset: clocks that are put forward and back are left out.
-/

namespace Workflow

/-- A reading of a local clock and its offset from universal time. -/
structure Timestamp where
  /-- Microseconds on the local clock since the beginning of the year 1. -/
  wall : Int
  /-- How many microseconds the local clock is ahead of universal time. -/
  offset : Int
deriving DecidableEq, Repr

namespace Timestamp

def microsPerDay : Nat := 86400000000

/-- The end of the last year that can be written. -/
def horizon : Int := (Calendar.dayCount * microsPerDay : Nat)

def instant (stamp : Timestamp) : Int :=
  stamp.wall - stamp.offset

def isBefore (left right : Timestamp) : Bool :=
  left.instant < right.instant

/-- Moves a time stamp by a number of microseconds, within the years that can be
written. -/
def shift? (stamp : Timestamp) (span : Int) : Option Timestamp :=
  let wall := stamp.wall + span
  if 0 ≤ wall ∧ wall < horizon then some { stamp with wall } else none

theorem instant_of_shift? {stamp moved : Timestamp} {span : Int}
    (shifted : stamp.shift? span = some moved) : moved.instant = stamp.instant + span := by
  rw [shift?] at shifted
  split at shifted
  · cases shifted
    simp only [instant]
    omega
  · cases shifted

/-- The same instant on the clock of universal time, if that clock can show it. -/
def toUtc? (stamp : Timestamp) : Option Timestamp :=
  let instant := stamp.instant
  if 0 ≤ instant ∧ instant < horizon then some ⟨instant, 0⟩ else none

end Timestamp

/-- What a clock shows at one reading after the other. -/
abbrev Readings := Nat → Timestamp

namespace Readings

variable {α : Type}

/-- Readings that have been taken, and another one that is shown from then on. -/
def ofList (shown : List Timestamp) (last : Timestamp) : Readings :=
  fun reading => shown.getD reading last

/-- The readings that come after some of them. -/
def after (clock : Readings) (count : Nat) : Readings :=
  fun reading => clock (count + reading)

/-- Items in order, each with a reading of its own. -/
def stamp (clock : Readings) : List α → List (α × Timestamp)
  | [] => []
  | item :: items => (item, clock 0) :: (clock.after 1).stamp items

variable {clock : Readings} {items first second : List α}

@[simp] theorem after_zero : clock.after 0 = clock := by
  funext reading
  rw [after, Nat.zero_add]

theorem after_after (count more : Nat) :
    (clock.after count).after more = clock.after (count + more) := by
  funext reading
  rw [after, after, after, Nat.add_assoc]

theorem stamp_append :
    clock.stamp (first ++ second) =
      clock.stamp first ++ (clock.after first.length).stamp second := by
  induction first generalizing clock with
  | nil => simp [stamp]
  | cons item items induction =>
      simp only [List.cons_append, stamp, induction, after_after, List.length_cons]
      rw [Nat.add_comm]

@[simp] theorem map_fst_stamp : (clock.stamp items).map Prod.fst = items := by
  induction items generalizing clock with
  | nil => rfl
  | cons item items induction => rw [stamp, List.map_cons, induction]

theorem mem_of_mem_stamp {entry : α × Timestamp} (member : entry ∈ clock.stamp items) :
    entry.1 ∈ items := by
  rw [← @map_fst_stamp α clock items]
  exact List.mem_map_of_mem member

end Readings

end Workflow
