/-!
# Documents

Nested values as settings are written in: scalars, lists and mappings.  A mapping
keeps its entries as they are written; of two entries with one key the later counts.
-/

namespace Workflow

inductive Document where
  | null
  | boolean (value : Bool)
  | integer (value : Int)
  | number (value : Float)
  | text (value : String)
  /-- A calendar day or an instant, as it is written. -/
  | moment (written : String)
  | list (items : List Document)
  | mapping (entries : List (Document × Document))
deriving Inhabited

namespace Document

/-- Whether a value stands for nothing: no value, false, zero or empty. -/
def isVoid : Document → Bool
  | null => true
  | boolean value => !value
  | integer value => value == 0
  | number value => value == 0
  | text value => value.isEmpty
  | moment _ => false
  | list items => items.isEmpty
  | mapping entries => entries.isEmpty

/-- Whether a value can be the key of an entry. -/
def isScalar : Document → Bool
  | list _ => false
  | mapping _ => false
  | _ => true

/-- The entries of a mapping whose keys are all texts. -/
def textEntries? (entries : List (Document × Document)) :
    Option (List (String × Document)) :=
  entries.mapM fun entry =>
    match entry.1 with
    | text key => some (key, entry.2)
    | _ => none

/-- The value of the last entry with a text as key. -/
def get? (entries : List (Document × Document)) (key : String) : Option Document :=
  entries.reverse.findSome? fun entry =>
    match entry.1 with
    | text written => if written = key then some entry.2 else none
    | _ => none

end Document

end Workflow
