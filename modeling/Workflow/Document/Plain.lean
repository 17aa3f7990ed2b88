import Workflow.Document.Basic
import Workflow.Text.Digit

/-!
# Plain scalars

A scalar without quotes means what its form says: nothing, a truth value, an
integer, a number, a calendar day or, failing all these, the text itself.  Integers
can be written to base 2, 8, 10, 16 or 60, and underscores between digits are ignored.
-/

namespace Workflow.Document

def nullWords : List String := ["", "~", "null", "Null", "NULL"]

def trueWords : List String :=
  ["yes", "Yes", "YES", "true", "True", "TRUE", "on", "On", "ON"]

def falseWords : List String :=
  ["no", "No", "NO", "false", "False", "FALSE", "off", "Off", "OFF"]

/-- Splits off a sign; whether it is negative. -/
def splitSign : List Char → Bool × List Char
  | '-' :: rest => (true, rest)
  | '+' :: rest => (false, rest)
  | rest => (false, rest)

def hexValue? (character : Char) : Option Nat :=
  if character.isDigit then some (character.toNat - 48)
  else if 'a' ≤ character ∧ character ≤ 'f' then some (character.toNat - 87)
  else if 'A' ≤ character ∧ character ≤ 'F' then some (character.toNat - 55)
  else none

/-- A number of the given base, with underscores. -/
def digitsOf? (base : Nat) (written : List Char) : Option Nat :=
  let digits := written.filter (· != '_')
  if digits.isEmpty then none
  else
    match digits.mapM hexValue? with
    | some values =>
      if values.all (· < base) then some (Text.numberOfDigits base values) else none
    | none => none

def splitColons : List Char → List (List Char)
  | [] => [[]]
  | character :: rest =>
    match character, splitColons rest with
    | ':', parts => [] :: parts
    | other, part :: parts => (other :: part) :: parts
    | other, [] => [[other]]

/-- Whether a row of characters is a number below sixty with at most two digits. -/
def isSixtieth (part : List Char) : Bool :=
  part.all Char.isDigit &&
    match part with
    | [_] => true
    | [tens, _] => tens ≤ '5'
    | _ => false

/-- Whether all characters are decimal digits or underscores. -/
def isSpaced (part : List Char) : Bool :=
  part.all fun character => character.isDigit || character == '_'

/-- The magnitude of an integer. -/
def magnitude? (written : List Char) : Option Nat :=
  match written with
  | ['0'] => some 0
  | '0' :: 'b' :: digits => digitsOf? 2 digits
  | '0' :: 'x' :: digits => digitsOf? 16 digits
  | '0' :: digits => digitsOf? 8 ('0' :: digits)
  | first :: _ =>
    if !first.isDigit then none
    else
      match splitColons written with
      | [digits] => if isSpaced digits then digitsOf? 10 digits else none
      | digits :: parts =>
        if isSpaced digits && parts.all isSixtieth then
          match digitsOf? 10 digits, parts.mapM (digitsOf? 10) with
          | some leading, some values => some (Text.numberOfDigits 60 (leading :: values))
          | _, _ => none
        else none
      | [] => none
  | [] => none

def integer? (written : List Char) : Option Int :=
  let (negative, rest) := splitSign written
  (magnitude? rest).map fun value => if negative then -(value : Int) else value

/-- The exponent behind the digits of a number: a letter, a sign and digits. -/
def exponent? : List Char → Option Int
  | [] => some 0
  | letter :: sign :: digits =>
    if (letter == 'e' || letter == 'E') && (sign == '+' || sign == '-')
        && !digits.isEmpty && digits.all Char.isDigit then
      let value : Int := (Text.numberOfDigits 10 (digits.map fun digit => digit.toNat - 48) : Nat)
      some (if sign == '-' then -value else value)
    else none
  | _ => none

/-- The value of decimal digits before and after the point, times a power of ten. -/
def scientific (whole fraction : List Char) (exponent : Int) : Float :=
  let digits := (whole ++ fraction).filterMap hexValue?
  let value := Text.numberOfDigits 10 digits
  let scale := exponent - (fraction.filter (· != '_')).length
  match scale with
  | .ofNat power => .ofScientific value false power
  | .negSucc power => .ofScientific value true (power + 1)

/-- The magnitude of a number with a point. -/
def pointed? (written : List Char) : Option Float :=
  let whole := written.takeWhile fun character => character.isDigit || character == '_'
  match written.drop whole.length with
  | '.' :: rest =>
    let fraction := rest.takeWhile fun character => character.isDigit || character == '_'
    let startsWell :=
      match whole, fraction with
      | first :: _, _ => first.isDigit
      | [], first :: _ => first.isDigit
      | [], [] => false
    if startsWell then
      (exponent? (rest.drop fraction.length)).map (scientific whole fraction)
    else none
  | _ => none

/-- The magnitude of a number to base sixty with a point. -/
def sixtieths? (written : List Char) : Option Float :=
  match (splitColons written).reverse with
  | last :: before :: others =>
    let parts := (others.reverse ++ [before])
    let seconds := last.takeWhile Char.isDigit
    match parts, last.drop seconds.length with
    | leading :: middle, '.' :: fraction =>
      let startsWell := (leading.head?.map Char.isDigit).getD false
      if startsWell && isSpaced leading && middle.all isSixtieth && isSixtieth seconds
          && isSpaced fraction then
        match digitsOf? 10 leading, (middle ++ [seconds]).mapM (digitsOf? 10) with
        | some first, some values =>
          let whole := Text.numberOfDigits 60 (first :: values)
          some (Float.ofNat whole + scientific [] fraction 0)
        | _, _ => none
      else none
    | _, _ => none
  | _ => none

/-- A number with a point, infinity, or no number at all. -/
def number? (written : List Char) : Option Float :=
  let (negative, rest) := splitSign written
  let sign (value : Float) : Float := if negative then -value else value
  let text := String.ofList rest
  if [".inf", ".Inf", ".INF"].contains text then some (sign (1 / 0))
  else if [".nan", ".NaN", ".NAN"].contains (String.ofList written) then some (0 / 0)
  else if rest.head? == some '.' && rest.length ≠ written.length then none
  else ((pointed? rest).orElse fun _ => sixtieths? rest).map sign

/-- Whether a text is a calendar day: four, two and two digits. -/
def isDay (written : List Char) : Bool :=
  written.length == 10 && written.zipIdx.all fun (character, position) =>
    if position == 4 || position == 7 then character == '-' else character.isDigit

/-- The meaning of a plain scalar. -/
def ofPlain (written : String) : Document :=
  let characters := written.toList
  if nullWords.contains written then .null
  else if trueWords.contains written then .boolean true
  else if falseWords.contains written then .boolean false
  else if isDay characters then .moment written
  else
    match integer? characters with
    | some value => .integer value
    | none =>
      match number? characters with
      | some value => .number value
      | none => .text written

end Workflow.Document
