import Workflow.Text.Blank
import Workflow.Text.Digit

/-!
# Identifiers

Processes and steps carry 128-bit identifiers.  They are ordered as numbers, which
is the order of their canonical texts.
-/

namespace Workflow

/-- A 128-bit identifier. -/
structure Uuid where
  bits : BitVec 128
deriving DecidableEq, Repr

namespace Uuid

def ofNat (number : Nat) : Uuid := ⟨BitVec.ofNat 128 number⟩

def toNat (id : Uuid) : Nat := id.bits.toNat

/-- Whether one identifier precedes another. -/
def isBefore (left right : Uuid) : Bool := left.toNat < right.toNat

/-- The last `width` hexadecimal digits of a number. -/
def hexDigits : Nat → Nat → List Char
  | 0, _ => []
  | width + 1, number => hexDigits width (number / 16) ++ [Nat.digitChar (number % 16)]

/-- The canonical text: groups of 8, 4, 4, 4 and 12 hexadecimal digits. -/
def text (id : Uuid) : String :=
  let digits := hexDigits 32 id.toNat
  let group (start count : Nat) : List Char := (digits.drop start).take count
  String.ofList (group 0 8 ++ '-' :: group 8 4 ++ '-' :: group 12 4 ++ '-' :: group 16 4
    ++ '-' :: group 20 12)

instance : ToString Uuid := ⟨text⟩

/-- The value of a hexadecimal digit; decimal digits of any script count. -/
def hexDigit? (character : Char) : Option Nat :=
  match Text.digit? character with
  | some value => some value
  | none =>
    let number := character.toNat
    if 97 ≤ number && number ≤ 102 then some (number - 87)
    else if 65 ≤ number && number ≤ 70 then some (number - 55)
    else none

/-- The digits of a number, between which single underscores may stand. -/
def hexRow? : List Char → Option (List Nat)
  | [] => none
  | [digit] => (hexDigit? digit).map fun value => [value]
  | digit :: '_' :: rest => do return (← hexDigit? digit) :: (← hexRow? rest)
  | digit :: rest => do return (← hexDigit? digit) :: (← hexRow? rest)

/-- Drops the mark of base sixteen in front of a number. -/
def dropBaseMark : List Char → List Char
  | '0' :: mark :: rest =>
    if mark == 'x' || mark == 'X' then
      match rest with
      | '_' :: rest => rest
      | rest => rest
    else '0' :: mark :: rest
  | written => written

/-- Reads a number in base sixteen: white space around it, a plus sign, the mark of the
base and single underscores between digits are allowed. -/
def hexNumber? (written : List Char) : Option Nat :=
  let unsigned :=
    match Text.trimBy Text.isBlank written with
    | '+' :: rest => rest
    | rest => rest
  (hexRow? (dropBaseMark unsigned)).map (Text.numberOfDigits 16)

/-- Reads an identifier: a scheme in front, braces around it and hyphens anywhere
are ignored, and 32 characters must remain that are a number in base sixteen. -/
def ofText? (text : String) : Option Uuid :=
  let bare := (text.replace "urn:" "").replace "uuid:" ""
  let isBrace (character : Char) : Bool := character == '\x7b' || character == '\x7d'
  let written := (Text.trimBy isBrace bare.toList).filter (· != '-')
  if written.length = 32 then (hexNumber? written).map ofNat else none

end Uuid

end Workflow
