import Workflow.Decimal.Binary
import Workflow.Decimal.Rounding
import Workflow.Document.Basic
import Workflow.Text.Blank
import Workflow.Text.Digit

/-!
# Reading settings leniently

A setting that is a number can also be given as a truth value or as a text.  A text
can have white space around it and single underscores between digits.  A whole number
can also be given as a number, or as a text with zeros behind the point.

A reading that fails gives the reason as the word by which it is reported.
-/

namespace Workflow.Settings

/-- A value, or the reason why there is none. -/
abbrev Coerced (α : Type) := Except String α

/-- A text without the white space around it. -/
def trimSpace (written : List Char) : List Char :=
  Text.trimBy Text.isSpace written

/-- A text with underscores that stand singly and not at the ends, without them. -/
def withoutUnderscores? (written : List Char) : Option (List Char) :=
  let isEdge (character : Option Char) : Bool := character == some '_'
  let hasPair := (written.zip written.tail).any fun pair => pair == ('_', '_')
  if !written.contains '_' || isEdge written.head? || isEdge written.getLast? || hasPair then
    none
  else some (written.filter (· != '_'))

/-- The number that a row of decimal digits denotes. -/
def digitsValue (digits : List Char) : Nat :=
  Text.numberOfDigits 10 (digits.map fun digit => digit.toNat - 48)

/-- Splits off a sign; whether it is negative. -/
def takeSign : List Char → Bool × List Char
  | '-' :: rest => (true, rest)
  | '+' :: rest => (false, rest)
  | rest => (false, rest)

/-- An exponent of ten behind the digits of a number. -/
def exponentOf? : List Char → Option Int
  | [] => some 0
  | letter :: rest =>
    let (negative, digits) := takeSign rest
    if (letter == 'e' || letter == 'E') && !digits.isEmpty && digits.all Char.isDigit then
      let value : Int := (digitsValue digits : Nat)
      some (if negative then -value else value)
    else none

/-- Digits times a power of ten as the nearest floating-point number.  Beyond the
range of these numbers the power is not computed. -/
def scaled (digits : List Char) (exponent : Int) : Float :=
  let value := digitsValue digits
  if value = 0 then 0
  else
    match exponent with
    | .ofNat power =>
      if 400 < power then 1 / 0 else .ofScientific value false power
    | .negSucc power =>
      if digits.length + 400 < power then 0 else .ofScientific value true (power + 1)

/-- The magnitude of a number in decimal notation. -/
def decimal? (written : List Char) : Option Float :=
  let whole := written.takeWhile Char.isDigit
  let behind := written.drop whole.length
  let (fraction, rest) :=
    match behind with
    | '.' :: rest => (rest.takeWhile Char.isDigit, rest.dropWhile Char.isDigit)
    | rest => ([], rest)
  if whole.isEmpty && fraction.isEmpty then none
  else (exponentOf? rest).map fun exponent =>
    scaled (whole ++ fraction) (exponent - fraction.length)

/-- A number in decimal notation or by name. -/
def numberOf? (written : List Char) : Option Float :=
  let (negative, rest) := takeSign written
  let name := String.ofList (rest.map Char.toLower)
  let magnitude :=
    if name == "inf" || name == "infinity" then some (1 / 0)
    else if name == "nan" then some (0 / 0)
    else decimal? rest
  magnitude.map fun value => if negative then -value else value

def numberOfText (written : String) : Coerced Float :=
  let characters := written.toList
  match numberOf? (trimSpace characters) with
  | some value => .ok value
  | none =>
    match (withoutUnderscores? characters).bind numberOf? with
    | some value => .ok value
    | none => .error "float_parsing"

def numberOfInteger? (value : Int) : Option Float :=
  let number := Float.ofInt value
  if number.isFinite then some number else none

def number : Document → Coerced Float
  | .number value => .ok value
  | .integer value =>
    match numberOfInteger? value with
    | some number => .ok number
    | none => .error "float_type"
  | .boolean value => .ok (if value then 1 else 0)
  | .text written => numberOfText written
  | _ => .error "float_type"

/-- An integer with at most a minus sign in front and no zero before other digits. -/
def strictInteger? (written : List Char) : Option Int :=
  let (negative, digits) :=
    match written with
    | '-' :: digits => (true, digits)
    | digits => (false, digits)
  if digits.isEmpty || !digits.all Char.isDigit then none
  else if digits.head? == some '0' && digits.length ≠ 1 then none
  else
    let value : Int := (digitsValue digits : Nat)
    some (if negative then -value else value)

/-- A text without zeros behind a point. -/
def dropZeroFraction (written : List Char) : List Char :=
  let whole := written.takeWhile (· != '.')
  let fraction := (written.drop whole.length).tail
  if fraction.all (· == '0') then whole else written

/-- A text without zeros and underscores in front of its first other digit. -/
def dropLeadingZeros? (written : List Char) : Option (List Char) :=
  match written with
  | '0' :: rest =>
    match rest.dropWhile fun character => character == '0' || character == '_' with
    | [] => some (written.drop (written.length - 1))
    | first :: digits => if first.isDigit then some (first :: digits) else none
  | first :: _ => if first.isDigit || first == '-' then some written else none
  | [] => none

/-- The form of a text in which an integer is written strictly. -/
def cleaned? (written : List Char) : Option (List Char) :=
  let trimmed := trimSpace written
  let unsigned? :=
    match trimmed with
    | '+' :: '-' :: _ => none
    | '+' :: rest => some rest
    | rest => some rest
  match unsigned? with
  | none => none
  | some unsigned =>
    (dropLeadingZeros? (dropZeroFraction unsigned)).map fun digits =>
      (withoutUnderscores? digits).getD digits

/-- The longest text that is read as an integer. -/
def textLimit : Nat := 4300

def integerOfText (written : String) : Coerced Int :=
  if textLimit < written.utf8ByteSize then .error "int_parsing_size"
  else
    let characters := written.toList
    match (strictInteger? characters).orElse
        fun _ => (cleaned? characters).bind strictInteger? with
    | some value => .ok value
    | none => .error "int_parsing"

def integerOfNumber (value : Float) : Coerced Int :=
  match Decimal.Reading.ofFloat value with
  | .finite negative magnitude =>
    let fraction := magnitude.fraction
    if fraction.1 % fraction.2 ≠ 0 then .error "int_from_float"
    else
      let whole := fraction.1 / fraction.2
      if 0x8000000000000000 ≤ whole then .error "int_parsing_size"
      else .ok (if negative then -(whole : Int) else whole)
  | _ => .error "finite_number"

def integer : Document → Coerced Int
  | .integer value => .ok value
  | .number value => integerOfNumber value
  | .boolean value => .ok (if value then 1 else 0)
  | .text written => integerOfText written
  | _ => .error "int_type"

def text? : Document → Coerced (Option String)
  | .null => .ok none
  | .text written => .ok (some written)
  | _ => .error "string_type"

end Workflow.Settings
