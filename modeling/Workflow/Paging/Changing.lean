import Workflow.Paging

/-!
# Iterating over a set that changes

Integers are their own keys.  One cursor is iterated several times over a set of them,
and the set is edited between the iterations and in their course.  Every page that is
read is recorded.
-/

namespace Workflow.Paging

/-- An edit of a set: some integers are added, then some are removed. -/
structure Edit where
  added : List Int
  removed : List Int
deriving DecidableEq, Repr

/-- A page that was read: the key it started after, its limit and its length. -/
structure PageRead where
  after : Option Int
  limit : Nat
  length : Nat
deriving DecidableEq, Repr

/-- A set of integers in ascending order, and the pages read from it, latest first. -/
structure Shelf where
  items : List Int
  reads : List PageRead
deriving DecidableEq, Repr

/-- One iteration of the cursor. -/
structure Round where
  before : Edit
  /-- The edits after some of the items, counted from one. -/
  during : List (Nat × Edit)
  /-- The item after which the iteration is left. -/
  stopAfter : Option Nat
  /-- Whether all items are collected at once; nothing happens in between then. -/
  collects : Bool
deriving DecidableEq, Repr

namespace Shelf

/-- Integers in ascending order, each once. -/
def sorted (items : List Int) : List Int :=
  (items.mergeSort (· ≤ ·)).eraseDups

def edit (shelf : Shelf) (edit : Edit) : Shelf :=
  { shelf with
    items := (sorted (shelf.items ++ edit.added)).filter fun item =>
      !edit.removed.contains item }

def read (limit : Nat) (after : Option Int) : StateM Shelf (List Int) := do
  let shelf ← get
  let candidates :=
    match after with
    | some key => shelf.items.filter (key < ·)
    | none => shelf.items
  let page := candidates.take limit
  set { shelf with reads := ⟨after, limit, page.length⟩ :: shelf.reads }
  return page

end Shelf

/-- More pages than any iteration reads. -/
def pageBound : Nat := 1000000000

namespace Round

/-- What happens after an item. -/
def afterItem (round : Round) (seen : List Int) (item : Int) :
    StateM Shelf (ForInStep (List Int)) := do
  let seen := item :: seen
  match round.during.lookup seen.length with
  | some edit => modify fun shelf => shelf.edit edit
  | none => pure ()
  return if round.stopAfter = some seen.length then .done seen else .yield seen

/-- The items that an iteration meets, in order. -/
def run (round : Round) (limit : Nat) : StateM Shelf (List Int) := do
  modify fun shelf => { shelf.edit round.before with reads := [] }
  if round.collects then toList limit id (Shelf.read limit) pageBound
  else
    let ended ← visitAll limit id (Shelf.read limit) round.afterItem pageBound []
    return ended.state.reverse

end Round

end Workflow.Paging
