import Mathlib.Data.List.Basic
import Mathlib.Order.Lattice
import Workflow.Paging

/-!
# Pages of ascending items

A page holds the first items whose keys come after a given key.  What is left after a full page
is what comes after the key of its last item, so a cursor over items that do not change meets
all of them in order and then ends, whatever the size of its pages and whatever is done with
the items.
-/

namespace Workflow.Paging

theorem limitOf_of_one_le {pageSize : Int} (atLeastOne : 1 ≤ pageSize) :
    ∃ limit : Nat, limitOf pageSize = .ok limit ∧ (limit : Int) = pageSize ∧ 0 < limit := by
  refine ⟨pageSize.toNat, if_neg (by omega), Int.toNat_of_nonneg (by omega), by omega⟩

section Items

variable {α κ : Type} [LinearOrder κ] {key : α → κ} {items : List α} {after : Option κ}
  {limit : Nat} {item last : α}

/-- Whether a key comes after the one that a page starts after. -/
def comesAfter (after : Option κ) (candidate : κ) : Bool :=
  match after with
  | none => true
  | some key => decide (key < candidate)

/-- The keys grow from item to item, so no two items share one. -/
def Ascending (key : α → κ) (items : List α) : Prop :=
  items.Pairwise fun left right => key left < key right

instance : Decidable (Ascending key items) :=
  inferInstanceAs (Decidable (items.Pairwise fun left right => key left < key right))

def itemsAfter (key : α → κ) (items : List α) (after : Option κ) : List α :=
  items.filter fun item => comesAfter after (key item)

/-- The first items after a key. -/
def pageAfter (limit : Nat) (key : α → κ) (items : List α) (after : Option κ) : List α :=
  (itemsAfter key items after).take limit

theorem mem_itemsAfter :
    item ∈ itemsAfter key items after ↔ item ∈ items ∧ comesAfter after (key item) :=
  List.mem_filter

@[simp] theorem itemsAfter_none : itemsAfter key items none = items :=
  List.filter_eq_self.mpr fun _ _ => rfl

theorem mem_of_mem_pageAfter (member : item ∈ pageAfter limit key items after) :
    item ∈ items ∧ comesAfter after (key item) :=
  mem_itemsAfter.mp (List.mem_of_mem_take member)

theorem pageAfter_of_short (short : (pageAfter limit key items after).length < limit) :
    pageAfter limit key items after = itemsAfter key items after := by
  rw [pageAfter, List.length_take] at short
  exact List.take_of_length_le (by omega)

theorem Ascending.itemsAfter (ascending : Ascending key items) (after : Option κ) :
    Ascending key (itemsAfter key items after) :=
  List.Pairwise.filter _ ascending

theorem Ascending.pageAfter (ascending : Ascending key items) (limit : Nat)
    (after : Option κ) : Ascending key (pageAfter limit key items after) :=
  (ascending.itemsAfter after).sublist (List.take_sublist _ _)

theorem Ascending.nodup (ascending : Ascending key items) : (items.map key).Nodup :=
  List.pairwise_map.mpr (ascending.imp fun less => ne_of_lt less)

theorem Ascending.le_last (ascending : Ascending key items)
    (isLast : items.getLast? = some last) (member : item ∈ items) : key item ≤ key last := by
  obtain ⟨before, rfl⟩ := List.getLast?_eq_some_iff.mp isLast
  rcases List.mem_append.mp member with earlier | isItem
  · exact le_of_lt ((List.pairwise_append.mp ascending).2.2 item earlier last
      (List.mem_singleton.mpr rfl))
  · rw [List.mem_singleton.mp isItem]

theorem Ascending.itemsAfter_last (ascending : Ascending key items)
    (isLast : (Paging.pageAfter limit key items after).getLast? = some last) :
    Paging.itemsAfter key items (some (key last)) =
      (Paging.itemsAfter key items after).drop limit := by
  have lastAfter := (mem_of_mem_pageAfter (List.mem_of_getLast? isLast)).2
  have within : Paging.itemsAfter key items (some (key last)) =
      (Paging.itemsAfter key items after).filter fun item => decide (key last < key item) := by
    rw [Paging.itemsAfter, Paging.itemsAfter, List.filter_filter]
    refine List.filter_congr fun item _ => ?_
    cases after with
    | none => simp [comesAfter]
    | some start =>
        have startLess : start < key last := of_decide_eq_true lastAfter
        have later : key last < key item → start < key item := lt_trans startLess
        by_cases less : key last < key item <;> simp [comesAfter, less, later]
  have rest := ascending.itemsAfter after
  rw [within]
  conv_lhs => rw [← List.take_append_drop limit (Paging.itemsAfter key items after)]
  rw [← List.take_append_drop limit (Paging.itemsAfter key items after)] at rest
  rw [List.filter_append, List.filter_eq_nil_iff.mpr, List.nil_append, List.filter_eq_self.mpr]
  · intro item left
    exact decide_eq_true
      ((List.pairwise_append.mp rest).2.2 last (List.mem_of_getLast? isLast) item left)
  · intro item inPage
    have notAfter := (ascending.pageAfter limit after).le_last isLast inPage
    simpa using notAfter

end Items

section Walk

variable {m : Type → Type} [Monad m] [LawfulMonad m] {α κ σ : Type} [LinearOrder κ]
  {key : α → κ} {items : List α} {limit fuel : Nat}

/-- How an iteration has ended whose last page was visited. -/
def Ended.ofStep : ForInStep σ → Ended σ
  | .done state => .stopped state
  | .yield state => .finished state

theorem visitPage_append (visit : σ → α → m (ForInStep σ)) (state : σ) (first second : List α) :
    visitPage visit state (first ++ second) = (do
      match ← visitPage visit state first with
      | .done state => pure (.done state)
      | .yield state => visitPage visit state second) := by
  induction first generalizing state with
  | nil => simp [visitPage]
  | cons item first induction =>
      simp only [List.cons_append, visitPage, bind_assoc]
      apply bind_congr
      intro said
      cases said with
      | done reached => simp
      | yield reached => exact induction reached

/-- Over items that do not change, an iteration is one walk through all that is left. -/
theorem visitFrom_pageAfter (ascending : Ascending key items) (positive : 0 < limit)
    (visit : σ → α → m (ForInStep σ)) (after : Option κ) (state : σ)
    (enough : (itemsAfter key items after).length / limit < fuel) :
    visitFrom limit key (fun after => pure (pageAfter limit key items after)) visit fuel after
        state =
      Ended.ofStep <$> visitPage visit state (itemsAfter key items after) := by
  induction fuel generalizing after state with
  | zero => cases enough
  | succ fuel induction =>
      have split : itemsAfter key items after =
          pageAfter limit key items after ++ (itemsAfter key items after).drop limit :=
        (List.take_append_drop limit _).symm
      rw [split, visitPage_append, visitFrom, pure_bind, map_bind]
      apply bind_congr
      intro said
      cases said with
      | done reached => simp [Ended.ofStep]
      | yield reached =>
          cases isLast : (pageAfter limit key items after).getLast? with
          | none =>
              have nothing : (itemsAfter key items after).drop limit = [] := by
                have isEmpty := List.getLast?_eq_none_iff.mp isLast
                rw [pageAfter_of_short (by simpa [isEmpty] using positive)] at isEmpty
                rw [isEmpty, List.drop_nil]
              simp [nothing, visitPage, Ended.ofStep]
          | some last =>
              by_cases short : (pageAfter limit key items after).length < limit
              · have nothing : (itemsAfter key items after).drop limit = [] := by
                  rw [pageAfter_of_short short] at short
                  exact List.drop_of_length_le (Nat.le_of_lt short)
                simp [nothing, short, visitPage, Ended.ofStep]
              · have rest := ascending.itemsAfter_last isLast
                have less : (itemsAfter key items (some (key last))).length / limit < fuel := by
                  rw [pageAfter, List.length_take] at short
                  have full : limit ≤ (itemsAfter key items after).length := by omega
                  rw [Nat.div_eq_sub_div positive full] at enough
                  rw [rest, List.length_drop]
                  exact Nat.lt_of_succ_lt_succ enough
                simp only [short, if_false, induction (some (key last)) reached less, rest]

/-- Who collects a page puts its items in front of those seen before. -/
theorem visitPage_collect (seen items : List α) :
    visitPage (fun seen item => (pure (.yield (item :: seen)) : m (ForInStep (List α)))) seen
      items = pure (.yield (items.reverse ++ seen)) := by
  induction items generalizing seen with
  | nil => rfl
  | cons item items induction => simp [visitPage, induction]

/-- All items are collected in order, whatever the size of the pages. -/
theorem toList_pageAfter (ascending : Ascending key items) (positive : 0 < limit)
    (enough : items.length / limit < fuel) :
    toList limit key (fun after => (pure (pageAfter limit key items after) : m (List α))) fuel =
      pure items := by
  rw [toList, visitAll, visitFrom_pageAfter ascending positive _ none [] (by simpa using enough),
    itemsAfter_none, visitPage_collect]
  simp [Ended.ofStep, Ended.state]

end Walk

section Answered

variable {σ ε α κ : Type} {key : α → κ} {limit : Nat} {state : σ}
  {fetch : Option κ → ExceptT ε (StateM σ) (List α)} {page : Option κ → List α}

/-- A cursor whose questions are answered from a state, and leave it as it is, is iterated over
the answers. -/
theorem visitFrom_answered
    (answers : ∀ after, (fetch after).run.run state = (.ok (page after), state))
    (fuel : Nat) (after : Option κ) (seen : List α) :
    (visitFrom limit key fetch (fun seen item => pure (.yield (item :: seen))) fuel after
        seen).run.run state =
      (.ok (visitFrom (m := Id) limit key (fun after => pure (page after))
        (fun seen item => pure (.yield (item :: seen))) fuel after seen), state) := by
  induction fuel generalizing after seen with
  | zero => rfl
  | succ fuel induction =>
      have fetched : (fetch after).run.run state = pure (.ok (page after), state) := answers after
      simp only [visitFrom, visitPage_collect, pure_bind, ExceptT.run_bind, StateT.run_bind,
        fetched]
      cases (page after).getLast? with
      | none => rfl
      | some last =>
          by_cases short : (page after).length < limit
          · simp only [short, if_true]
            rfl
          · simp only [short, if_false]
            exact induction (some (key last)) ((page after).reverse ++ seen)

theorem toList_answered
    (answers : ∀ after, (fetch after).run.run state = (.ok (page after), state)) (fuel : Nat) :
    (toList limit key fetch fuel).run.run state =
      (.ok (toList (m := Id) limit key (fun after => pure (page after)) fuel), state) := by
  have visited : (visitAll limit key fetch
      (fun seen item => pure (.yield (item :: seen))) fuel []).run.run state =
        pure (.ok _, state) :=
    visitFrom_answered answers fuel none []
  rw [toList, ExceptT.run_bind, StateT.run_bind, visited, pure_bind]
  rfl

end Answered

end Workflow.Paging
