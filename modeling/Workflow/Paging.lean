import Workflow.Failure

/-!
# Paged cursors

A cursor reads the answers to a question page by page in ascending order of a key.
A page holds at most as many items as the limit says and starts after the key of
the last item of the page before.  The iteration ends with the first page that is
not full.  Each iteration starts afresh, so it meets items that have appeared in
the meantime.

The number of pages is bounded by the fuel.  Between two full pages the key grows,
so the iteration over finitely many keys needs only finitely much of it.
-/

namespace Workflow.Paging

/-- How an iteration ended. -/
inductive Ended (σ : Type) where
  /-- A page was not full. -/
  | finished (state : σ)
  /-- The visitor wanted no more items. -/
  | stopped (state : σ)
  | outOfFuel (state : σ)
deriving DecidableEq, Repr

namespace Ended

def state {σ : Type} : Ended σ → σ
  | finished state => state
  | stopped state => state
  | outOfFuel state => state

end Ended

/-- A page size that a cursor accepts. -/
def limitOf (pageSize : Int) : Except Failure Nat :=
  if pageSize < 1 then .error .pageSizeNotPositive else .ok pageSize.toNat

variable {m : Type → Type} [Monad m] {α κ σ : Type}

/-- Visits the items of one page until the visitor is done. -/
def visitPage (visit : σ → α → m (ForInStep σ)) : σ → List α → m (ForInStep σ)
  | state, [] => pure (.yield state)
  | state, item :: items => do
    match ← visit state item with
    | .done state => pure (.done state)
    | .yield state => visitPage visit state items

/-- Visits the items after a key, page by page. -/
def visitFrom (limit : Nat) (key : α → κ) (fetch : Option κ → m (List α))
    (visit : σ → α → m (ForInStep σ)) : Nat → Option κ → σ → m (Ended σ)
  | 0, _, state => pure (.outOfFuel state)
  | fuel + 1, after, state => do
    let page ← fetch after
    match ← visitPage visit state page with
    | .done state => pure (.stopped state)
    | .yield state =>
      match page.getLast? with
      | none => pure (.finished state)
      | some last =>
        if page.length < limit then pure (.finished state)
        else visitFrom limit key fetch visit fuel (some (key last)) state

def visitAll (limit : Nat) (key : α → κ) (fetch : Option κ → m (List α))
    (visit : σ → α → m (ForInStep σ)) (fuel : Nat) (state : σ) : m (Ended σ) :=
  visitFrom limit key fetch visit fuel none state

def toList (limit : Nat) (key : α → κ) (fetch : Option κ → m (List α)) (fuel : Nat) :
    m (List α) := do
  let ended ← visitAll limit key fetch
    (fun items item => pure (.yield (item :: items))) fuel []
  return ended.state.reverse

end Workflow.Paging
