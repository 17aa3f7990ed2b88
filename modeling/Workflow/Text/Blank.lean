/-!
# White space

The characters that may surround a written name or number without being part of
it: the white space of Unicode and the four information separators.
-/

namespace Workflow.Text

/-- The code points of white space as inclusive ranges in ascending order. -/
def blankRanges : List (Nat × Nat) :=
  [(0x09, 0x0d), (0x1c, 0x20), (0x85, 0x85), (0xa0, 0xa0), (0x1680, 0x1680),
    (0x2000, 0x200a), (0x2028, 0x2029), (0x202f, 0x202f), (0x205f, 0x205f),
    (0x3000, 0x3000)]

/-- Whether a character is white space or an information separator. -/
def isBlank (character : Char) : Bool :=
  blankRanges.any fun range =>
    range.1 ≤ character.toNat && character.toNat ≤ range.2

/-- Whether a character is white space; an information separator is not. -/
def isSpace (character : Char) : Bool :=
  isBlank character &&
    !(0x1c ≤ character.toNat && character.toNat ≤ 0x1f)

/-- Removes the characters of a class from both ends of a text. -/
def trimBy (inClass : Char → Bool) (text : List Char) : List Char :=
  ((text.dropWhile inClass).reverse.dropWhile inClass).reverse

def trim (text : String) : String :=
  String.ofList (trimBy isBlank text.toList)

end Workflow.Text
