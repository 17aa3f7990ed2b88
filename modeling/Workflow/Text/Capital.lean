/-!
# Capital letters

Written names consist of ASCII capitals, so only those characters matter whose
capital form is ASCII: the small Latin letters, the dotless i, the long s, the
sharp s and the ligatures of Latin letters.
-/

namespace Workflow.Text

/-- The capital form of a character, which may be several letters.  A character
whose capital form is not ASCII stands for itself. -/
def capital (character : Char) : List Char :=
  match character.toNat with
  | 0xdf => ['S', 'S']
  | 0x131 => ['I']
  | 0x17f => ['S']
  | 0xfb00 => ['F', 'F']
  | 0xfb01 => ['F', 'I']
  | 0xfb02 => ['F', 'L']
  | 0xfb03 => ['F', 'F', 'I']
  | 0xfb04 => ['F', 'F', 'L']
  | 0xfb05 => ['S', 'T']
  | 0xfb06 => ['S', 'T']
  | _ => [character.toUpper]

def capitals (text : String) : String :=
  String.ofList (text.toList.flatMap capital)

end Workflow.Text
