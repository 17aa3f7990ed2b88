import Mathlib.Algebra.Order.Group.Nat
import Mathlib.Data.Nat.Basic
import Mathlib.Tactic.Ring
import Workflow.Proofs.Time.Calendar
import Workflow.Time.Written

/-!
# Time stamps as column text

A time stamp in universal time is written as numbers of fixed width between fixed marks, the
weightiest first.  Such texts are ordered like what they are made of, part by part, so the order
of the texts is the order of the instants.  Read back, a text gives the instant it was written
for.
-/

namespace Workflow

/-- Texts of one width that ascend with the number they are written for. -/
structure Ascends (width bound : Nat) (text : Nat → List Char) : Prop where
  length : ∀ number, (text number).length = width
  lt : ∀ {earlier later : Nat}, earlier < later → later < bound → text earlier < text later

namespace Ascends

theorem append_lt_append {first second front back : List Char} (before : first < second)
    (same : first.length = second.length) : first ++ front < second ++ back := by
  induction first generalizing second with
  | nil =>
      cases second with
      | nil => exact absurd before (List.lt_irrefl [])
      | cons _ _ => cases same
  | cons head rest induction =>
      cases second with
      | nil => cases same
      | cons other others =>
          have same : rest.length = others.length := by simpa using same
          rw [List.cons_append, List.cons_append, List.cons_lt_cons_iff]
          rcases List.cons_lt_cons_iff.mp before with less | ⟨sameHead, restBefore⟩
          · exact .inl less
          · exact .inr ⟨sameHead, induction restBefore same⟩

variable {width otherWidth bound otherBound : Nat} {text high low : Nat → List Char}

theorem mark (ascends : Ascends width bound text) (separator : Char) :
    Ascends (width + 1) bound fun number => separator :: text number where
  length number := by rw [List.length_cons, ascends.length]
  lt before below := List.cons_lt_cons_iff.mpr (.inr ⟨rfl, ascends.lt before below⟩)

theorem of_le (ascends : Ascends width bound text) {smaller : Nat} (atMost : smaller ≤ bound) :
    Ascends width smaller text where
  length := ascends.length
  lt before below := ascends.lt before (Nat.lt_of_lt_of_le below atMost)

theorem congr (ascends : Ascends width bound text) {other : Nat → List Char}
    (same : ∀ number, text number = other number) : Ascends width bound other :=
  funext same ▸ ascends

theorem append (ascends : Ascends width bound high) (base : Nat)
    (remainder : Ascends otherWidth base low) (positive : 0 < base) :
    Ascends (width + otherWidth) (bound * base) fun number =>
      high (number / base) ++ low (number % base) where
  length number := by rw [List.length_append, ascends.length, remainder.length]
  lt {earlier later} before below := by
    rcases Nat.lt_or_eq_of_le (Nat.div_le_div_right (Nat.le_of_lt before)) with less | same
    · have belowQuotient : later / base < bound := Nat.div_lt_of_lt_mul (Nat.mul_comm _ _ ▸ below)
      refine append_lt_append (ascends.lt less belowQuotient) ?_
      rw [ascends.length, ascends.length]
    · have less : earlier % base < later % base := by
        have whole := Nat.div_add_mod earlier base
        have otherWhole := Nat.div_add_mod later base
        rw [same] at whole
        omega
      rw [same]
      exact List.append_left_lt (remainder.lt less (Nat.mod_lt _ positive))

theorem followedBy (ascends : Ascends width bound text) (ending : List Char) :
    Ascends (width + ending.length) bound fun number => text number ++ ending where
  length number := by rw [List.length_append, ascends.length]
  lt before below := append_lt_append (ascends.lt before below) (by
    rw [ascends.length, ascends.length])

/-- Within the bound the texts are ordered like the numbers. -/
theorem lt_iff (ascends : Ascends width bound text) {left right : Nat} (leftBelow : left < bound)
    (rightBelow : right < bound) : text left < text right ↔ left < right := by
  constructor
  · intro before
    rcases Nat.lt_trichotomy left right with less | rfl | greater
    · exact less
    · exact absurd before (List.lt_irrefl _)
    · exact absurd before (List.lt_asymm (ascends.lt greater leftBelow))
  · exact fun less => ascends.lt less rightBelow

theorem eq_iff (ascends : Ascends width bound text) {left right : Nat} (leftBelow : left < bound)
    (rightBelow : right < bound) : text left = text right ↔ left = right := by
  constructor
  · intro same
    rcases Nat.lt_trichotomy left right with less | equal | greater
    · exact absurd (same ▸ ascends.lt less rightBelow) (List.lt_irrefl _)
    · exact equal
    · exact absurd (same ▸ ascends.lt greater leftBelow) (List.lt_irrefl _)
  · exact congrArg text

end Ascends

/-! ### Digits -/

theorem digit_spec : ∀ digit < 10, (Char.ofNat (48 + digit)).isDigit ∧
    (Char.ofNat (48 + digit)).toNat - 48 = digit := by
  decide

theorem digit_lt : ∀ later < 10, ∀ earlier < later,
    Char.ofNat (48 + earlier) < Char.ofNat (48 + later) := by
  decide

theorem ascends_digit : Ascends 1 10 fun digit => [Char.ofNat (48 + digit)] where
  length _ := rfl
  lt before below := List.cons_lt_cons_iff.mpr (.inl (digit_lt _ below _ before))

theorem ascends_fixedDigits (width : Nat) : Ascends width (10 ^ width) (fixedDigits width) := by
  induction width with
  | zero =>
      refine ⟨fun _ => rfl, fun before below => ?_⟩
      rw [Nat.pow_zero] at below
      omega
  | succ width induction => exact induction.append 10 ascends_digit (by decide)

theorem isDigit_of_mem_fixedDigits {width number : Nat} {character : Char}
    (member : character ∈ fixedDigits width number) : character.isDigit := by
  induction width generalizing number with
  | zero => cases member
  | succ width induction =>
      rcases List.mem_append.mp member with before | last
      · exact induction before
      · rw [List.mem_singleton.mp last]
        exact (digit_spec _ (Nat.mod_lt _ (by decide))).1

theorem takeNumber_append {width more number start : Nat} {rest : List Char} :
    takeNumber (width + more) start (fixedDigits width number ++ rest) =
      takeNumber more (start * 10 ^ width + number % 10 ^ width) rest := by
  induction width generalizing number more rest with
  | zero => simp [fixedDigits, Nat.mod_one]
  | succ width induction =>
      obtain ⟨isDigit, value⟩ := digit_spec (number % 10) (Nat.mod_lt _ (by decide))
      have total : 10 * (start * 10 ^ width + number / 10 % 10 ^ width) + number % 10 =
          start * 10 ^ (width + 1) + number % 10 ^ (width + 1) := by
        rw [Nat.pow_succ', Nat.mod_mul]
        ring
      rw [fixedDigits, List.append_assoc, Nat.add_right_comm, Nat.add_assoc, induction,
        List.singleton_append, takeNumber, if_pos isDigit, value, total]

/-- The digits of a number that fits are read back as the number. -/
theorem takeNumber_fixedDigits {width number : Nat} {rest : List Char}
    (fits : number < 10 ^ width) :
    takeNumber width 0 (fixedDigits width number ++ rest) = some (number, rest) := by
  have read := @takeNumber_append width 0 number 0 rest
  rw [Nat.add_zero, Nat.zero_mul, Nat.zero_add, Nat.mod_eq_of_lt fits] at read
  exact read

theorem takeNumber_bind {α : Type} {width number : Nat} {rest : List Char}
    {next : Nat × List Char → Option α} (fits : number < 10 ^ width) :
    (takeNumber width 0 (fixedDigits width number ++ rest) >>= next) = next (number, rest) := by
  rw [takeNumber_fixedDigits fits]
  rfl

theorem expectChar_bind {α : Type} {expected : Char} {rest : List Char}
    {next : List Char → Option α} :
    (expectChar expected (expected :: rest) >>= next) = next rest := by
  rw [expectChar, if_pos rfl]
  rfl

/-! ### Dates and times of day -/

namespace Timestamp

open Calendar

theorem ascends_twoDigits {bound : Nat} (fits : bound ≤ 100) :
    Ascends 2 bound (fixedDigits 2) :=
  (ascends_fixedDigits 2).of_le fits

theorem ascends_clockText : Ascends 8 86400 clockText := by
  have minutes := (ascends_twoDigits (by decide : 60 ≤ 100)).mark ':'
  have hours := (ascends_twoDigits (by decide : 24 ≤ 100)).append 60 minutes (by decide)
  refine (hours.append 60 minutes (by decide)).congr fun seconds => ?_
  rw [clockText, Nat.div_div_eq_div_mul]

theorem ascends_fractionText : Ascends 7 1000000 fractionText :=
  (ascends_fixedDigits 6).mark '.'

theorem lt_of_isValid {date : Date} (valid : date.isValid) :
    date.year < 10 ^ 4 ∧ date.month < 10 ^ 2 ∧ date.day < 10 ^ 2 := by
  simp only [Date.isValid, Bool.and_eq_true, decide_eq_true_eq] at valid
  obtain ⟨⟨⟨⟨_, lastYear⟩, _⟩, _⟩, days⟩ := valid
  cases stored : (monthLengths date.year)[date.month - 1]? with
  | none => simp [stored] at days
  | some length =>
      have inside := (List.getElem?_eq_some_iff.mp stored).1
      have short : ∀ length ∈ monthLengths date.year, length ≤ 31 := by
        unfold monthLengths
        split <;> decide
      have fits := short length (List.mem_of_getElem? stored)
      have atMost : date.day ≤ length := by simpa [stored] using days
      rw [length_monthLengths] at inside
      omega

theorem ascends_dateText : Ascends 10 dayCount fun day => dateText (dateOfDay day) where
  length day := by
    simp only [dateText, List.length_append, List.length_cons, (ascends_fixedDigits _).length]
  lt {earlier later} before counted := by
    obtain ⟨yearFits, monthFits, dayFits⟩ := lt_of_isValid (isValid_dateOfDay counted)
    have precedes := dateOfDay_precedes before
    generalize dateOfDay earlier = first at *
    generalize dateOfDay later = second at *
    have years := ascends_fixedDigits 4
    have marked := (ascends_fixedDigits 2).mark '-'
    rw [dateText, dateText]
    rcases precedes with year | ⟨sameYear, month | ⟨sameMonth, day⟩⟩
    · refine Ascends.append_lt_append (Ascends.append_lt_append (years.lt year yearFits) ?_) ?_
      · rw [years.length, years.length]
      · simp only [List.length_append, years.length, marked.length]
    · rw [sameYear]
      refine Ascends.append_lt_append (List.append_left_lt (marked.lt month monthFits)) ?_
      simp only [List.length_append, marked.length]
    · rw [sameYear, sameMonth]
      exact List.append_left_lt (marked.lt day dayFits)

theorem ascends_wallText : Ascends 26 (dayCount * microsPerDay) (wallText 'T' true) := by
  have time := (ascends_clockText.mark 'T').append 1000000 ascends_fractionText (by decide)
  refine (ascends_dateText.append microsPerDay time (by decide)).congr fun wall => ?_
  simp only [wallText, Bool.not_true, Bool.and_false, Bool.false_eq_true, if_false,
    List.append_assoc]

/-- The column text of a reading of the clock of universal time. -/
def columnText (wall : Nat) : String :=
  String.ofList (wallText 'T' true wall ++ "+00:00".toList)

/-- The instant can be shown on the clock of universal time. -/
def IsWritable (stamp : Timestamp) : Prop :=
  0 ≤ stamp.instant ∧ stamp.instant < horizon

/-- The same instant on the clock of universal time. -/
def atUtc (stamp : Timestamp) : Timestamp := ⟨stamp.instant, 0⟩

variable {stamp left right : Timestamp}

theorem fixedWidth?_eq (writable : stamp.IsWritable) :
    stamp.fixedWidth? = some (columnText stamp.instant.toNat) := by
  rw [fixedWidth?, toUtc?, if_pos ⟨writable.1, writable.2⟩]
  rfl

theorem IsWritable.toNat_lt (writable : stamp.IsWritable) :
    stamp.instant.toNat < dayCount * microsPerDay := by
  have below := writable.2
  rw [horizon] at below
  have positive := writable.1
  omega

theorem ascends_columnText :
    Ascends 32 (dayCount * microsPerDay) fun wall => (columnText wall).toList :=
  (ascends_wallText.followedBy "+00:00".toList).congr fun _ => String.toList_ofList.symm

/-- **The order of column texts is the order of the instants.** -/
theorem columnText_lt_iff (leftWritable : left.IsWritable) (rightWritable : right.IsWritable) :
    columnText left.instant.toNat < columnText right.instant.toNat ↔
      left.instant < right.instant := by
  have order := ascends_columnText.lt_iff leftWritable.toNat_lt rightWritable.toNat_lt
  have nonnegative := leftWritable.1
  have otherNonnegative := rightWritable.1
  rw [String.lt_iff, order]
  omega

theorem columnText_eq_iff (leftWritable : left.IsWritable) (rightWritable : right.IsWritable) :
    columnText left.instant.toNat = columnText right.instant.toNat ↔
      left.instant = right.instant := by
  have same := ascends_columnText.eq_iff leftWritable.toNat_lt rightWritable.toNat_lt
  have nonnegative := leftWritable.1
  have otherNonnegative := rightWritable.1
  rw [← String.toList_inj, same]
  omega

/-! ### Reading -/

theorem readFraction_fractionText {micros : Nat} {rest : List Char} (fits : micros < 1000000) :
    readFraction (fractionText micros ++ '+' :: rest) = some (micros, '+' :: rest) := by
  have digits : (fixedDigits 6 micros ++ '+' :: rest).takeWhile Char.isDigit =
      fixedDigits 6 micros := by
    rw [List.takeWhile_append_of_pos fun _ => isDigit_of_mem_fixedDigits]
    exact List.append_nil _
  have length := (ascends_fixedDigits 6).length micros
  have filled : (fixedDigits 6 micros).isEmpty = false := by
    cases text : fixedDigits 6 micros with
    | nil => simp [text] at length
    | cons _ _ => rfl
  have read := @takeNumber_fixedDigits 6 micros (List.replicate 6 '0') fits
  rw [fractionText, List.cons_append, readFraction, digits, filled, read]
  simp [length]

theorem readOffset_utc : readOffset "+00:00".toList = some 0 := by
  decide

/-- **A column text is read back as the instant, in universal time.** -/
theorem ofText?_columnText {wall : Nat} (fits : wall < dayCount * microsPerDay) :
    ofText? (columnText wall) = some ⟨wall, 0⟩ := by
  have counted : wall / microsPerDay < dayCount :=
    Nat.div_lt_of_lt_mul (Nat.mul_comm _ _ ▸ fits)
  have valid := isValid_dateOfDay counted
  obtain ⟨yearFits, monthFits, dayFits⟩ := lt_of_isValid valid
  have sameDay := dayOfDate_dateOfDay (wall / microsPerDay)
  have whole := Nat.div_add_mod wall microsPerDay
  have within : wall % microsPerDay < 86400000000 := Nat.mod_lt _ (by decide)
  have text : (columnText wall).toList = _ := String.toList_ofList
  have ending : "+00:00".toList = '+' :: "00:00".toList := by decide
  rw [ofText?, text, wallText]
  generalize dateOfDay (wall / microsPerDay) = date at *
  generalize wall % microsPerDay = micros at *
  obtain ⟨year, month, day⟩ := date
  have inDay : micros / 1000000 < 86400 := by omega
  have parts := Nat.div_add_mod micros 1000000
  generalize micros / 1000000 = seconds at *
  have hourFits : seconds / 3600 < 10 ^ 2 := by omega
  have minuteFits : seconds / 60 % 60 < 10 ^ 2 := by omega
  have secondFits : seconds % 60 < 10 ^ 2 := by omega
  have fraction := @readFraction_fractionText (micros % 1000000) "00:00".toList
    (Nat.mod_lt _ (by decide))
  have offset := readOffset_utc
  rw [ending] at offset ⊢
  simp only [dateText, clockText, List.append_assoc, List.cons_append, Bool.not_true,
    Bool.and_false, Bool.false_eq_true, if_false]
  refine (takeNumber_bind yearFits).trans (expectChar_bind.trans ?_)
  refine (takeNumber_bind monthFits).trans (expectChar_bind.trans ?_)
  refine (takeNumber_bind dayFits).trans ?_
  refine (takeNumber_bind hourFits).trans (expectChar_bind.trans ?_)
  refine (takeNumber_bind minuteFits).trans (expectChar_bind.trans ?_)
  refine (takeNumber_bind secondFits).trans ?_
  simp only [fraction, offset, Option.bind_eq_bind, Option.bind_some]
  have hours : ¬23 < seconds / 3600 := by omega
  have minutes : ¬59 < seconds / 60 % 60 := by omega
  have rest : ¬59 < seconds % 60 := by omega
  have time : (3600 * (seconds / 3600) + 60 * (seconds / 60 % 60) + seconds % 60) * 1000000
      + micros % 1000000 = micros := by omega
  rw [if_neg (by simp [valid, hours, minutes, rest]), sameDay, time, Nat.mul_comm, whole]

end Timestamp

end Workflow
