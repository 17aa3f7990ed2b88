import Mathlib.Algebra.Order.Group.Nat
import Workflow.Paging

/-!
# Cursors over pages

Two cursors that read the same items, each in its own form, go through the same pages.  A cursor
that never changes its mind reads all pages if what is left to read shrinks with each full one.
-/

namespace Workflow.Paging

/-- What a visitor says, with its state in another form. -/
def mapStep {σ τ : Type} (change : σ → τ) : ForInStep σ → ForInStep τ
  | .done state => .done (change state)
  | .yield state => .yield (change state)

/-- How an iteration ended, with its state in another form. -/
def Ended.map {σ τ : Type} (change : σ → τ) : Ended σ → Ended τ
  | finished state => finished (change state)
  | stopped state => stopped (change state)
  | outOfFuel state => outOfFuel (change state)

variable {m : Type → Type} [Monad m] [LawfulMonad m] {α β κ σ τ : Type} {limit : Nat}

section Mapped

variable {item : α → β} {change : σ → τ} {key : α → κ} {otherKey : β → κ}
  {visit : σ → α → m (ForInStep σ)} {otherVisit : τ → β → m (ForInStep τ)}

theorem visitPage_map
    (visits : ∀ state first,
      otherVisit (change state) (item first) = mapStep change <$> visit state first)
    (state : σ) (items : List α) :
    visitPage otherVisit (change state) (items.map item) =
      mapStep change <$> visitPage visit state items := by
  induction items generalizing state with
  | nil => simp [visitPage, mapStep]
  | cons first rest induction =>
      simp only [List.map_cons, visitPage, visits, bind_map_left, map_bind]
      apply bind_congr
      intro said
      cases said with
      | done reached => simp [mapStep]
      | yield reached => exact induction reached

/-- **Items in another form under the same keys are visited in the same way.** -/
theorem visitFrom_map {fetch : Option κ → m (List α)}
    (keys : ∀ first, otherKey (item first) = key first)
    (visits : ∀ state first,
      otherVisit (change state) (item first) = mapStep change <$> visit state first)
    (fuel : Nat) (after : Option κ) (state : σ) :
    visitFrom limit otherKey (fun after => List.map item <$> fetch after) otherVisit fuel after
        (change state) =
      Ended.map change <$> visitFrom limit key fetch visit fuel after state := by
  induction fuel generalizing after state with
  | zero => simp [visitFrom, Ended.map]
  | succ fuel induction =>
      simp only [visitFrom, bind_map_left, map_bind, visitPage_map visits]
      apply bind_congr
      intro page
      apply bind_congr
      intro said
      cases said with
      | done reached => simp [mapStep, Ended.map]
      | yield reached =>
          simp only [mapStep, List.getLast?_map, List.length_map]
          cases page.getLast? with
          | none => simp [Ended.map]
          | some last =>
              simp only [Option.map_some, keys]
              split
              · simp [Ended.map]
              · exact induction _ reached

theorem toList_map {fetch : Option κ → m (List α)}
    (keys : ∀ first, otherKey (item first) = key first) (fuel : Nat) :
    toList limit otherKey (fun after => List.map item <$> fetch after) fuel =
      List.map item <$> toList limit key fetch fuel := by
  have same := @visitFrom_map m _ _ α β κ (List α) (List β) limit item (List.map item) key otherKey
    (fun items first => pure (.yield (first :: items)))
    (fun items first => pure (.yield (first :: items))) fetch keys
    (fun _ _ => by simp [mapStep]) fuel none []
  rw [toList, toList, visitAll, visitAll, map_bind]
  rw [List.map_nil] at same
  rw [same, bind_map_left]
  apply bind_congr
  intro ended
  cases ended <;> simp [Ended.map, Ended.state]

end Mapped

/-- Pages that are full leave less to read after them, so an iteration that has fuel for all
that is left goes through all pages. -/
theorem visitFrom_finishes {page : Option κ → List α} {key : α → κ} {step : σ → α → σ}
    {left : Option κ → Nat}
    (shrinks : ∀ after last, (page after).getLast? = some last →
      left (some (key last)) < left after)
    (after : Option κ) (state : σ) :
    ∃ final, ∀ fuel, left after < fuel →
      visitFrom limit key (fun after => (pure (page after) : m (List α)))
        (fun state first => pure (.yield (step state first))) fuel after state =
          pure (.finished final) := by
  have whole : ∀ (state : σ) (items : List α),
      visitPage (fun state first => (pure (.yield (step state first)) : m (ForInStep σ))) state
        items = pure (.yield (items.foldl step state)) := by
    intro state items
    induction items generalizing state with
    | nil => rfl
    | cons first rest induction => simp [visitPage, induction]
  induction size : left after using Nat.strongRecOn generalizing after state with
  | ind size induction =>
      subst size
      let reached := (page after).foldl step state
      cases isLast : (page after).getLast? with
      | none =>
          refine ⟨reached, fun fuel enough => ?_⟩
          obtain ⟨fuel, rfl⟩ := Nat.exists_eq_add_of_lt enough
          simp [visitFrom, whole, isLast, reached]
      | some last =>
          by_cases short : (page after).length < limit
          · refine ⟨reached, fun fuel enough => ?_⟩
            obtain ⟨fuel, rfl⟩ := Nat.exists_eq_add_of_lt enough
            simp [visitFrom, whole, isLast, short, reached]
          · have less := shrinks after last isLast
            obtain ⟨final, finishes⟩ := induction _ less (some (key last)) reached rfl
            refine ⟨final, fun fuel enough => ?_⟩
            obtain ⟨fuel, rfl⟩ := Nat.exists_eq_add_of_lt enough
            have next := finishes (left after + fuel) (by omega)
            simpa [visitFrom, whole, isLast, short, reached] using next

theorem toList_finishes {page : Option κ → List α} {key : α → κ} {left : Option κ → Nat}
    (shrinks : ∀ after last, (page after).getLast? = some last →
      left (some (key last)) < left after) :
    ∃ found, ∀ fuel, left none < fuel →
      toList limit key (fun after => (pure (page after) : m (List α))) fuel = pure found := by
  obtain ⟨final, finishes⟩ :=
    @visitFrom_finishes m _ _ α κ (List α) limit page key (fun items first => first :: items) left
      shrinks none []
  refine ⟨final.reverse, fun fuel enough => ?_⟩
  rw [toList, visitAll, finishes fuel enough, pure_bind]
  rfl

end Workflow.Paging
