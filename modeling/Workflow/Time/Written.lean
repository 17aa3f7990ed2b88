import Workflow.Time.Timestamp

/-!
# Written time stamps

A time stamp is written as date, time of day and offset.  A fraction of a second
is written with six digits and left out when it is zero.  Reading accepts any
number of digits in the fraction and looks at the first six.

The fixed-width form always has the fraction and is written in universal time, so
that the order of the texts is the order of the instants.
-/

namespace Workflow

/-- The last `width` decimal digits of a number. -/
def fixedDigits : Nat → Nat → List Char
  | 0, _ => []
  | width + 1, number =>
    fixedDigits width (number / 10) ++ [Char.ofNat (48 + number % 10)]

/-- A number written with a fixed count of digits. -/
def takeNumber : Nat → Nat → List Char → Option (Nat × List Char)
  | 0, number, rest => some (number, rest)
  | width + 1, number, character :: rest =>
    if character.isDigit then
      takeNumber width (10 * number + (character.toNat - 48)) rest
    else none
  | _ + 1, _, [] => none

def expectChar (expected : Char) : List Char → Option (List Char)
  | character :: rest => if character = expected then some rest else none
  | [] => none

namespace Timestamp

/-- A date in ten characters. -/
def dateText (date : Calendar.Date) : List Char :=
  fixedDigits 4 date.year ++ '-' :: fixedDigits 2 date.month
    ++ '-' :: fixedDigits 2 date.day

/-- Hours, minutes and seconds of a number of seconds. -/
def clockText (seconds : Nat) : List Char :=
  fixedDigits 2 (seconds / 3600) ++ ':' :: fixedDigits 2 (seconds / 60 % 60)
    ++ ':' :: fixedDigits 2 (seconds % 60)

/-- A fraction of a second in microseconds. -/
def fractionText (micros : Nat) : List Char :=
  '.' :: fixedDigits 6 micros

/-- The offset of a local clock, with seconds only where there are some. -/
def offsetText (offset : Int) : List Char :=
  let magnitude := offset.natAbs
  let seconds := magnitude / 1000000
  let sign := if offset < 0 then '-' else '+'
  let hoursAndMinutes :=
    sign :: (fixedDigits 2 (seconds / 3600) ++ ':' :: fixedDigits 2 (seconds / 60 % 60))
  if magnitude % 60000000 = 0 then hoursAndMinutes
  else
    hoursAndMinutes ++ ':' :: fixedDigits 2 (seconds % 60)
      ++ if magnitude % 1000000 = 0 then [] else fractionText (magnitude % 1000000)

/-- Date, separator and time of day, with or without a fraction that is zero. -/
def wallText (separator : Char) (wholeFraction : Bool) (wall : Nat) : List Char :=
  let micros := wall % microsPerDay
  let fraction := micros % 1000000
  dateText (Calendar.dateOfDay (wall / microsPerDay))
    ++ separator :: clockText (micros / 1000000)
    ++ if fraction = 0 && !wholeFraction then [] else fractionText fraction

/-- A time stamp with a separator between date and time of day. -/
def textWith (separator : Char) (stamp : Timestamp) : String :=
  String.ofList (wallText separator false stamp.wall.toNat ++ offsetText stamp.offset)

def text (stamp : Timestamp) : String :=
  stamp.textWith 'T'

/-- The form of a time stamp in messages. -/
def messageText (stamp : Timestamp) : String :=
  stamp.textWith ' '

/-- The written form of an optional time stamp in messages. -/
def messageTextOf (stamp : Option Timestamp) : String :=
  match stamp with
  | some stamp => stamp.messageText
  | none => "None"

/-- The fixed-width form in universal time, if the instant can be shown there. -/
def fixedWidth? (stamp : Timestamp) : Option String :=
  stamp.toUtc?.map fun utc =>
    String.ofList (wallText 'T' true utc.wall.toNat ++ "+00:00".toList)

/-- A fraction of a second of which the first six digits count. -/
def readFraction : List Char → Option (Nat × List Char)
  | '.' :: rest =>
    let digits := rest.takeWhile Char.isDigit
    if digits.isEmpty then none
    else
      (takeNumber 6 0 (digits ++ List.replicate 6 '0')).map fun read =>
        (read.1, rest.drop digits.length)
  | rest => some (0, rest)

/-- Hours and minutes, then optional seconds with an optional fraction. -/
def readOffset (rest : List Char) : Option Int := do
  match rest with
  | ['Z'] => return 0
  | sign :: rest =>
    let (hours, rest) ← takeNumber 2 0 rest
    let rest ← expectChar ':' rest
    let (minutes, rest) ← takeNumber 2 0 rest
    let (seconds, rest) ←
      match rest with
      | ':' :: rest => takeNumber 2 0 rest
      | rest => some (0, rest)
    let (micros, rest) ← readFraction rest
    if !rest.isEmpty || 23 < hours || 59 < minutes || 59 < seconds then none
    else
      let magnitude : Nat := (3600 * hours + 60 * minutes + seconds) * 1000000 + micros
      match sign with
      | '+' => some (magnitude : Int)
      | '-' => some (-(magnitude : Int))
      | _ => none
  | [] => none

def ofText? (text : String) : Option Timestamp := do
  let (year, rest) ← takeNumber 4 0 text.toList
  let rest ← expectChar '-' rest
  let (month, rest) ← takeNumber 2 0 rest
  let rest ← expectChar '-' rest
  let (day, rest) ← takeNumber 2 0 rest
  let rest ←
    match rest with
    | 'T' :: rest => some rest
    | ' ' :: rest => some rest
    | _ => none
  let (hours, rest) ← takeNumber 2 0 rest
  let rest ← expectChar ':' rest
  let (minutes, rest) ← takeNumber 2 0 rest
  let rest ← expectChar ':' rest
  let (seconds, rest) ← takeNumber 2 0 rest
  let (micros, rest) ← readFraction rest
  let offset ← readOffset rest
  let date : Calendar.Date := ⟨year, month, day⟩
  if !date.isValid || 23 < hours || 59 < minutes || 59 < seconds then none
  else
    let time := (3600 * hours + 60 * minutes + seconds) * 1000000 + micros
    some ⟨(Calendar.dayOfDate date * microsPerDay + time : Nat), offset⟩

end Timestamp

end Workflow
