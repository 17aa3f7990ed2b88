import Mathlib.Data.Finset.Card
import Workflow.Proofs.Paging.Page
import Workflow.Proofs.Paging.Visit

/-!
# Iterating over items that change

Others add and remove items while a cursor hands them out, page by page.  Whatever they do and
whenever they do it, one iteration hands out items in strictly ascending order, each of them
there when its page was read, and once it has come to its end it has left out no key that was
there all along.  As the keys only grow, the number of its pages is bounded by the number of
keys that are ever there.
-/

namespace Workflow.Paging

/-- What is there at any time, in ascending order of keys, and what happens to it: after a page
was read, and after an item was handed out to a reader, who may then stop. -/
structure Flux (σ : Type) {α κ : Type} [LinearOrder κ] (key : α → κ) where
  items : σ → List α
  ascending : ∀ state, Ascending key (items state)
  afterPage : σ → σ
  afterItem : α → σ → σ
  goesOn : α → σ → Bool

/-- A page that was read: the key it starts after, all that was there, and what was read. -/
structure Page (α κ : Type) where
  after : Option κ
  present : List α
  items : List α

/-- The state of the surroundings, and all pages that were read so far, oldest first. -/
structure Reading (σ α κ : Type) where
  state : σ
  pages : List (Page α κ)

namespace Flux

variable {σ α κ : Type} [LinearOrder κ] {key : α → κ}

def fetch (flux : Flux σ key) (limit : Nat) (after : Option κ) :
    StateM (Reading σ α κ) (List α) := do
  let reading ← get
  let present := flux.items reading.state
  let items := pageAfter limit key present after
  set (⟨flux.afterPage reading.state, reading.pages ++ [⟨after, present, items⟩]⟩ :
    Reading σ α κ)
  return items

def take (flux : Flux σ key) (seen : List α) (item : α) :
    StateM (Reading σ α κ) (ForInStep (List α)) := do
  let reading ← get
  let state := flux.afterItem item reading.state
  set { reading with state }
  return if flux.goesOn item state then .yield (item :: seen) else .done (item :: seen)

/-- One iteration of the cursor; the items that were handed out, latest first. -/
def iterate (flux : Flux σ key) (limit fuel : Nat) :
    StateM (Reading σ α κ) (Ended (List α)) :=
  visitAll limit key (flux.fetch limit) flux.take fuel []

/-- Nothing is added or removed, and the reader takes all items. -/
def IsStill (flux : Flux σ key) : Prop :=
  (∀ state, flux.items (flux.afterPage state) = flux.items state) ∧
    ∀ item state, flux.items (flux.afterItem item state) = flux.items state ∧
      flux.goesOn item state

/-- The same changes for a reader who takes all items at once. -/
def patient (flux : Flux σ key) : Flux σ key :=
  { flux with afterItem := fun _ state => state, goesOn := fun _ _ => true }

end Flux

/-! ### The course of an iteration -/

section Course

variable {α κ : Type} [LinearOrder κ] {key : α → κ} {limit fuel : Nat} {after : Option κ}
  {page : Page α κ} {pages : List (Page α κ)} {taken : List α} {how : Ended Unit}

structure Page.IsRead (limit : Nat) (key : α → κ) (after : Option κ) (page : Page α κ) :
    Prop where
  starts : page.after = after
  ascending : Ascending key page.present
  isFirst : page.items = pageAfter limit key page.present after

/-- The pages that an iteration reads after a key, the items that it hands out, and how it
ends: only a page that is not full is the last, and the next one starts after the last item. -/
inductive Course (limit : Nat) (key : α → κ) :
    Nat → Option κ → List (Page α κ) → List α → Ended Unit → Prop where
  | outOfFuel {after : Option κ} : Course limit key 0 after [] [] (.outOfFuel ())
  | stopped {fuel : Nat} {after : Option κ} {page : Page α κ} {taken : List α}
      (read : page.IsRead limit key after) (part : taken <+: page.items) :
      Course limit key (fuel + 1) after [page] taken (.stopped ())
  | finished {fuel : Nat} {after : Option κ} {page : Page α κ}
      (read : page.IsRead limit key after) (short : page.items.length < limit) :
      Course limit key (fuel + 1) after [page] page.items (.finished ())
  | next {fuel : Nat} {after : Option κ} {page : Page α κ} {last : α}
      {pages : List (Page α κ)} {taken : List α} {how : Ended Unit}
      (read : page.IsRead limit key after) (full : limit ≤ page.items.length)
      (isLast : page.items.getLast? = some last)
      (rest : Course limit key fuel (some (key last)) pages taken how) :
      Course limit key (fuel + 1) after (page :: pages) (page.items ++ taken) how

/-- All items of some pages, in order. -/
def itemsOf (pages : List (Page α κ)) : List α :=
  pages.flatMap Page.items

theorem comesAfter_of_lt {earlier later : κ} (isAfter : comesAfter after earlier)
    (less : earlier < later) : comesAfter after later := by
  cases after with
  | none => rfl
  | some start => exact decide_eq_true (lt_trans (of_decide_eq_true isAfter) less)

theorem Page.IsRead.mem (read : page.IsRead limit key after) {item : α}
    (member : item ∈ page.items) : item ∈ page.present ∧ comesAfter after (key item) :=
  mem_of_mem_pageAfter (read.isFirst ▸ member)

theorem Page.IsRead.ascending_items (read : page.IsRead limit key after) :
    Ascending key page.items :=
  read.isFirst ▸ read.ascending.pageAfter limit after

namespace Course

/-- The keys grow from page to page. -/
theorem ascending (course : Course limit key fuel after pages taken how) :
    Ascending key (itemsOf pages) ∧ ∀ item ∈ itemsOf pages, comesAfter after (key item) := by
  induction course with
  | outOfFuel => exact ⟨List.Pairwise.nil, by simp [itemsOf]⟩
  | stopped read _ | finished read _ =>
      simp only [itemsOf, List.flatMap_singleton]
      exact ⟨read.ascending_items, fun item member => (read.mem member).2⟩
  | @next _ after page last pages _ _ read _ isLast _ induction =>
      obtain ⟨restAscending, restAfter⟩ := induction
      have lastAfter := (read.mem (List.mem_of_getLast? isLast)).2
      constructor
      · refine List.pairwise_append.mpr ⟨read.ascending_items, restAscending, ?_⟩
        intro item member other later
        have lastLess : key last < key other := of_decide_eq_true (restAfter other later)
        exact lt_of_le_of_lt (read.ascending_items.le_last isLast member) lastLess
      · intro item member
        rcases List.mem_append.mp member with inPage | later
        · exact (read.mem inPage).2
        · exact comesAfter_of_lt lastAfter (of_decide_eq_true (restAfter item later))

theorem taken_prefix (course : Course limit key fuel after pages taken how) :
    taken <+: itemsOf pages := by
  induction course with
  | outOfFuel => exact List.prefix_rfl
  | stopped _ part => simpa [itemsOf] using part
  | finished _ _ => simp [itemsOf]
  | next _ _ _ _ induction =>
      exact (List.prefix_append_right_inj _).mpr induction

theorem present (course : Course limit key fuel after pages taken how) :
    ∀ page ∈ pages, page.items = pageAfter limit key page.present page.after := by
  induction course with
  | outOfFuel => simp
  | stopped read _ | finished read _ =>
      rintro page member
      rw [List.mem_singleton.mp member, read.isFirst, read.starts]
  | next read _ _ _ induction =>
      refine List.forall_mem_cons.mpr ⟨?_, induction⟩
      rw [read.isFirst, read.starts]

theorem after_head? (course : Course limit key fuel after pages taken how)
    (isFirst : pages.head? = some page) : page.after = after := by
  cases course with
  | outOfFuel => cases isFirst
  | stopped read _ | finished read _ | next read _ _ _ =>
      obtain rfl := Option.some.inj isFirst
      exact read.starts

/-- A key that is always there is not left out. -/
theorem complete (course : Course limit key fuel after pages taken how)
    (finished : how = .finished ()) {wanted : κ} (isAfter : comesAfter after wanted)
    (always : ∀ page ∈ pages, wanted ∈ page.present.map key) : wanted ∈ taken.map key := by
  induction course with
  | outOfFuel | stopped => cases finished
  | @finished _ after page read short =>
      obtain ⟨item, isThere, rfl⟩ := List.mem_map.mp (always page List.mem_cons_self)
      rw [read.isFirst] at short
      rw [read.isFirst, pageAfter_of_short short]
      exact List.mem_map_of_mem (mem_itemsAfter.mpr ⟨isThere, isAfter⟩)
  | @next _ after page last pages _ _ read _ isLast _ induction =>
      obtain ⟨here, later⟩ := List.forall_mem_cons.mp always
      obtain ⟨item, isThere, rfl⟩ := List.mem_map.mp here
      have isLeft := mem_itemsAfter.mpr ⟨isThere, isAfter⟩
      rw [← List.take_append_drop limit (itemsAfter key page.present after)] at isLeft
      rw [List.map_append, List.mem_append]
      rcases List.mem_append.mp isLeft with inPage | beyond
      · rw [read.isFirst]
        exact .inl (List.mem_map_of_mem inPage)
      · rw [read.isFirst] at isLast
        rw [← read.ascending.itemsAfter_last isLast] at beyond
        exact .inr (induction finished (mem_itemsAfter.mp beyond).2 later)

/-- All pages but the last are full, and the last one as well if the fuel has run out. -/
theorem length_mul_le (course : Course limit key fuel after pages taken how) :
    (pages.length - 1) * limit ≤ (itemsOf pages).length ∧
      (how = .outOfFuel () → fuel * limit ≤ (itemsOf pages).length) := by
  induction course with
  | outOfFuel => simp
  | stopped _ _ | finished _ _ => simp
  | @next fuel after page last pages taken how _ full _ _ induction =>
      obtain ⟨fullPages, usedUp⟩ := induction
      have size : (itemsOf (page :: pages)).length =
          page.items.length + (itemsOf pages).length := by simp [itemsOf]
      rw [size]
      constructor
      · cases pages with
        | nil => simp
        | cons next pages =>
            rw [List.length_cons, List.length_cons] at *
            rw [Nat.add_sub_cancel, Nat.add_mul, Nat.one_mul]
            rw [Nat.add_sub_cancel] at fullPages
            omega
      · intro isOut
        rw [Nat.add_mul, Nat.one_mul]
        have := usedUp isOut
        omega

/-- There are no more full pages than the keys that are ever there can fill. -/
theorem bounded (course : Course limit key fuel after pages taken how) (positive : 0 < limit)
    {keys : Finset κ} (covers : ∀ page ∈ pages, ∀ item ∈ page.present, key item ∈ keys) :
    pages.length ≤ keys.card / limit + 1 ∧
      (keys.card / limit < fuel → how ≠ .outOfFuel ()) := by
  obtain ⟨fullPages, usedUp⟩ := course.length_mul_le
  have distinct := course.ascending.1.nodup
  have fits : (itemsOf pages).length ≤ keys.card := by
    rw [← List.length_map key, ← List.toFinset_card_of_nodup distinct]
    refine Finset.card_le_card fun found member => ?_
    obtain ⟨item, isRead, rfl⟩ := List.mem_map.mp (List.mem_toFinset.mp member)
    obtain ⟨page, isPage, inPage⟩ := List.mem_flatMap.mp isRead
    rw [course.present page isPage] at inPage
    exact covers page isPage item (mem_of_mem_pageAfter inPage).1
  constructor
  · have quotient := (Nat.le_div_iff_mul_le positive).mpr (fullPages.trans fits)
    omega
  · intro enough isOut
    have quotient := (Nat.le_div_iff_mul_le positive).mpr ((usedUp isOut).trans fits)
    omega

end Course

end Course

/-- What one iteration of a cursor gives: the pages that it has read, and how it has ended with
the items that it has handed out, latest first. -/
structure IsTour {α κ : Type} [LinearOrder κ] (limit fuel : Nat) (key : α → κ)
    (pages : List (Page α κ)) (ended : Ended (List α)) : Prop where
  /-- Each page holds the first items after a key, of those that are there. -/
  read : ∀ page ∈ pages, page.items = pageAfter limit key page.present page.after
  /-- It begins with the first page. -/
  afresh : ∀ page, pages.head? = some page → page.after = none
  ascending : Ascending key ended.state.reverse
  /-- Whatever is handed out was there when its page was read. -/
  present : ∀ item ∈ ended.state, ∃ page ∈ pages, item ∈ page.items ∧ item ∈ page.present
  /-- At the end, what was there all the time has been handed out. -/
  complete : ∀ seen, ended = .finished seen →
    ∀ wanted, (∀ page ∈ pages, wanted ∈ page.present.map key) → wanted ∈ seen.map key
  bounded : ∀ keys : Finset κ, (∀ page ∈ pages, ∀ item ∈ page.present, key item ∈ keys) →
    pages.length ≤ keys.card / limit + 1 ∧
      (keys.card / limit < fuel → ∀ seen, ended ≠ .outOfFuel seen)

section Tour

variable {α κ : Type} [LinearOrder κ] {key : α → κ} {limit fuel : Nat}
  {pages : List (Page α κ)} {taken : List α} {how : Ended Unit}

theorem Course.isTour (course : Course limit key fuel none pages taken how)
    (positive : 0 < limit) :
    IsTour limit fuel key pages (how.map fun _ => taken.reverse) := by
  have handedOut : (how.map fun _ => taken.reverse).state = taken.reverse := by
    cases how <;> rfl
  refine ⟨course.present, fun _ => course.after_head?, ?_, ?_, ?_, ?_⟩
  · rw [handedOut, List.reverse_reverse]
    exact course.ascending.1.sublist course.taken_prefix.sublist
  · intro item member
    rw [handedOut, List.mem_reverse] at member
    obtain ⟨page, isPage, inPage⟩ := List.mem_flatMap.mp (course.taken_prefix.subset member)
    refine ⟨page, isPage, inPage, ?_⟩
    rw [course.present page isPage] at inPage
    exact (mem_of_mem_pageAfter inPage).1
  · intro seen finished wanted always
    cases how with
    | finished =>
        cases finished
        rw [List.map_reverse, List.mem_reverse]
        exact course.complete rfl rfl always
    | stopped | outOfFuel => cases finished
  · intro keys covers
    obtain ⟨few, ends⟩ := course.bounded positive covers
    refine ⟨few, fun enough seen isOut => ?_⟩
    cases how with
    | outOfFuel => exact ends enough rfl
    | finished | stopped => cases isOut

/-- Where all pages show the same items, all of these have been handed out at the end. -/
theorem IsTour.eq_reverse {seen items : List α}
    (tour : IsTour limit fuel key pages (.finished seen)) (ascending : Ascending key items)
    (same : ∀ page ∈ pages, page.present = items) : seen = items.reverse := by
  have isSeen : ∀ item ∈ seen, item ∈ items := by
    intro item member
    obtain ⟨page, isPage, -, isThere⟩ := tour.present item member
    exact same page isPage ▸ isThere
  have unique : (items.map key).Nodup := ascending.nodup
  have seenUnique : (seen.reverse.map key).Nodup := tour.ascending.nodup
  have isHandedOut : ∀ item ∈ items, item ∈ seen := by
    intro item member
    have isKey : key item ∈ seen.map key :=
      tour.complete seen rfl (key item) fun page isPage =>
        same page isPage ▸ List.mem_map_of_mem member
    obtain ⟨other, isOther, sameKey⟩ := List.mem_map.mp isKey
    rwa [← List.inj_on_of_nodup_map unique (isSeen other isOther) member sameKey]
  have permutation : seen.reverse.Perm items :=
    (List.perm_ext_iff_of_nodup seenUnique.of_map unique.of_map).mpr fun item =>
      ⟨fun member => isSeen item (List.mem_reverse.mp member),
        fun member => List.mem_reverse.mpr (isHandedOut item member)⟩
  have equal : seen.reverse = items :=
    permutation.eq_of_pairwise (fun _ _ _ _ less greater => absurd less greater.asymm)
      tour.ascending ascending
  rw [← equal, List.reverse_reverse]

end Tour

/-! ### What an iteration does -/

namespace Flux

variable {σ α κ : Type} [LinearOrder κ] {key : α → κ} {limit fuel : Nat} {holds : σ → Prop}

/-- Whatever happens in the course of an iteration keeps it. -/
structure Keeps (flux : Flux σ key) (holds : σ → Prop) : Prop where
  afterPage : ∀ state, holds state → holds (flux.afterPage state)
  afterItem : ∀ item state, holds state → holds (flux.afterItem item state)

theorem visitPage_take (flux : Flux σ key) (keeps : flux.Keeps holds) (items seen : List α)
    (reading : Reading σ α κ) (start : holds reading.state) :
    ∃ state, holds state ∧
      ((visitPage flux.take seen items).run reading =
          pure (.yield (items.reverse ++ seen), ⟨state, reading.pages⟩) ∨
        ∃ taken, taken <+: items ∧
          (visitPage flux.take seen items).run reading =
            pure (.done (taken.reverse ++ seen), ⟨state, reading.pages⟩) ∧
          ∃ item state, flux.goesOn item state = false) := by
  induction items generalizing seen reading with
  | nil => exact ⟨reading.state, start, .inl rfl⟩
  | cons item items induction =>
      let state := flux.afterItem item reading.state
      have kept : holds state := keeps.afterItem item reading.state start
      cases goes : flux.goesOn item state with
      | false =>
          refine ⟨state, kept, .inr ⟨[item], by simp, ?_, item, state, goes⟩⟩
          simp [visitPage, take, state, goes]
      | true =>
          have first : (visitPage flux.take seen (item :: items)).run reading =
              (visitPage flux.take (item :: seen) items).run ⟨state, reading.pages⟩ := by
            simp [visitPage, take, state, goes]
          obtain ⟨reached, holdsThen, all | ⟨taken, part, stops, refusal⟩⟩ :=
            induction (item :: seen) ⟨state, reading.pages⟩ kept
          · exact ⟨reached, holdsThen, .inl (by simpa [first] using all)⟩
          · refine ⟨reached, holdsThen, .inr ⟨item :: taken, ?_, ?_, refusal⟩⟩
            · exact (List.prefix_append_right_inj [item]).mpr part
            · simpa [first] using stops

/-- **An iteration runs its course, whatever happens to the items.** -/
theorem visitFrom_course (flux : Flux σ key) (keeps : flux.Keeps holds) (positive : 0 < limit)
    (fuel : Nat) (after : Option κ) (seen : List α) (reading : Reading σ α κ)
    (start : holds reading.state) :
    ∃ state pages taken how,
      (visitFrom limit key (flux.fetch limit) flux.take fuel after seen).run reading =
        pure (Ended.map (fun _ => taken.reverse ++ seen) how,
          ⟨state, reading.pages ++ pages⟩) ∧
      Course limit key fuel after pages taken how ∧ holds state ∧
      (∀ page ∈ pages, ∃ state, holds state ∧ page.present = flux.items state) ∧
      (how = .stopped () → ∃ item state, flux.goesOn item state = false) := by
  induction fuel generalizing after seen reading with
  | zero =>
      exact ⟨reading.state, [], [], .outOfFuel (), by simp [visitFrom, Ended.map],
        .outOfFuel, start, by simp, by simp⟩
  | succ fuel induction =>
      let page : Page α κ :=
        ⟨after, flux.items reading.state, pageAfter limit key (flux.items reading.state) after⟩
      have read : page.IsRead limit key after := ⟨rfl, flux.ascending _, rfl⟩
      have isThere : ∃ state, holds state ∧ page.present = flux.items state :=
        ⟨reading.state, start, rfl⟩
      have fetched : (flux.fetch limit after).run reading =
          pure (page.items, ⟨flux.afterPage reading.state, reading.pages ++ [page]⟩) := by
        simp [fetch, page]
      obtain ⟨state, kept, all | ⟨taken, part, stops, refusal⟩⟩ :=
        flux.visitPage_take keeps page.items seen
          ⟨flux.afterPage reading.state, reading.pages ++ [page]⟩
          (keeps.afterPage reading.state start)
      · by_cases short : page.items.length < limit
        · refine ⟨state, [page], page.items, .finished (), ?_, .finished read short, kept,
            by simpa using isThere, by simp⟩
          rw [visitFrom, StateT.run_bind, fetched, pure_bind, StateT.run_bind, all, pure_bind]
          cases page.items.getLast? <;> simp [short, Ended.map]
        · have full : limit ≤ page.items.length := Nat.le_of_not_lt short
          obtain ⟨last, isLast⟩ : ∃ last, page.items.getLast? = some last :=
            Option.ne_none_iff_exists'.mp fun none => by
              simp [List.getLast?_eq_none_iff.mp none] at full
              omega
          obtain ⟨reached, pages, taken, how, run, course, holdsThen, present, refusal⟩ :=
            induction (some (key last)) (page.items.reverse ++ seen)
              ⟨state, reading.pages ++ [page]⟩ kept
          refine ⟨reached, page :: pages, page.items ++ taken, how, ?_,
            .next read full isLast course, holdsThen,
            List.forall_mem_cons.mpr ⟨isThere, present⟩, refusal⟩
          rw [visitFrom, StateT.run_bind, fetched, pure_bind, StateT.run_bind, all, pure_bind]
          simp [isLast, short, run]
      · refine ⟨state, [page], taken, .stopped (), ?_, .stopped read part, kept,
          by simpa using isThere, fun _ => refusal⟩
        rw [visitFrom, StateT.run_bind, fetched, pure_bind, StateT.run_bind, stops, pure_bind]
        simp [Ended.map]

theorem iterate_isTour (flux : Flux σ key) (keeps : flux.Keeps holds) (positive : 0 < limit)
    (fuel : Nat) (reading : Reading σ α κ) (start : holds reading.state) :
    ∃ ended state pages,
      (flux.iterate limit fuel).run reading = pure (ended, ⟨state, reading.pages ++ pages⟩) ∧
      IsTour limit fuel key pages ended ∧ holds state ∧
      (∀ page ∈ pages, ∃ state, holds state ∧ page.present = flux.items state) ∧
      ∀ seen, ended = .stopped seen → ∃ item state, flux.goesOn item state = false := by
  obtain ⟨state, pages, taken, how, run, course, kept, present, refusal⟩ :=
    flux.visitFrom_course keeps positive fuel none [] reading start
  rw [List.append_nil] at run
  refine ⟨_, state, pages, run, course.isTour positive, kept, present, fun seen isStopped => ?_⟩
  cases how with
  | stopped => exact refusal rfl
  | finished | outOfFuel => cases isStopped

theorem patient_take (flux : Flux σ key) :
    flux.patient.take = fun seen item => pure (.yield (item :: seen)) := by
  funext seen item
  rfl

/-- To collect all items is to iterate with a reader who takes them at once. -/
theorem toList_eq (flux : Flux σ key) (limit fuel : Nat) :
    toList limit key (flux.fetch limit) fuel =
      (fun ended => ended.state.reverse) <$> flux.patient.iterate limit fuel := by
  rw [iterate, patient_take, map_eq_pure_bind]
  rfl

/-- What nothing is added to or removed from is shown by all pages, and taken to its end. -/
theorem IsStill.iterate_eq {flux : Flux σ key} (still : flux.IsStill) (positive : 0 < limit)
    (reading : Reading σ α κ) (enough : (flux.items reading.state).length / limit < fuel) :
    ∃ state pages, (flux.iterate limit fuel).run reading =
        pure (.finished (flux.items reading.state).reverse, ⟨state, reading.pages ++ pages⟩) ∧
      flux.items state = flux.items reading.state := by
  have keeps : flux.Keeps fun state => flux.items state = flux.items reading.state :=
    ⟨fun state same => (still.1 state).trans same,
      fun item state same => (still.2 item state).1.trans same⟩
  obtain ⟨ended, state, pages, run, tour, same, present, refusal⟩ :=
    flux.iterate_isTour keeps positive fuel reading rfl
  have shown : ∀ page ∈ pages, page.present = flux.items reading.state := by
    intro page isPage
    obtain ⟨state, same, isThere⟩ := present page isPage
    exact isThere.trans same
  refine ⟨state, pages, ?_, same⟩
  cases ended with
  | finished seen =>
      rw [run, tour.eq_reverse (flux.ascending reading.state) shown]
  | stopped seen =>
      obtain ⟨item, state, stops⟩ := refusal seen rfl
      exact absurd (still.2 item state).2 (by simp [stops])
  | outOfFuel seen =>
      have unique := (flux.ascending reading.state).nodup
      have number : ((flux.items reading.state).map key).toFinset.card / limit < fuel := by
        rwa [List.toFinset_card_of_nodup unique, List.length_map]
      refine absurd rfl ((tour.bounded _ fun page isPage item isThere => ?_).2 number seen)
      rw [shown page isPage] at isThere
      exact List.mem_toFinset.mpr (List.mem_map_of_mem isThere)

end Flux

/-! ### Every schedule of changes -/

section Schedule

variable {σ α κ : Type} [LinearOrder κ] {key : α → κ}

/-- **Whatever is added and removed while a cursor is read**, after each page and after each item,
one iteration hands out items with ascending keys that were there when their pages were read,
leaves out nothing that was there all the time, and reads no more than one page beyond those that
all keys could fill.  So does collecting all items.  Where nothing is added or removed, every
iteration gives all items in order. -/
theorem changing_iteration (flux : Flux σ key) {pageSize : Int} (atLeastOne : 1 ≤ pageSize)
    (fuel : Nat) (reading : Reading σ α κ) :
    ∃ limit : Nat, limitOf pageSize = .ok limit ∧ (limit : Int) = pageSize ∧
    (∃ ended state pages,
      (flux.iterate limit fuel).run reading = (ended, ⟨state, reading.pages ++ pages⟩) ∧
        IsTour limit fuel key pages ended) ∧
    (∃ ended state pages,
      (toList limit key (flux.fetch limit) fuel).run reading =
          (ended.state.reverse, ⟨state, reading.pages ++ pages⟩) ∧
        IsTour limit fuel key pages ended) ∧
    (flux.IsStill → (flux.items reading.state).length / limit < fuel →
      (∃ state pages, (flux.iterate limit fuel).run reading =
          (.finished (flux.items reading.state).reverse, ⟨state, reading.pages ++ pages⟩) ∧
        flux.items state = flux.items reading.state) ∧
      ∃ state pages, (toList limit key (flux.fetch limit) fuel).run reading =
          (flux.items reading.state, ⟨state, reading.pages ++ pages⟩) ∧
        flux.items state = flux.items reading.state) := by
  obtain ⟨limit, accepted, same, positive⟩ := limitOf_of_one_le atLeastOne
  have unbound : ∀ flux : Flux σ key, flux.Keeps fun _ => True :=
    fun flux => ⟨fun _ _ => trivial, fun _ _ _ => trivial⟩
  refine ⟨limit, accepted, same, ?_, ?_,
    fun still enough => ⟨still.iterate_eq positive reading enough, ?_⟩⟩
  · obtain ⟨ended, state, pages, run, tour, -⟩ :=
      flux.iterate_isTour (unbound flux) positive fuel reading trivial
    exact ⟨ended, state, pages, run, tour⟩
  · obtain ⟨ended, state, pages, run, tour, -⟩ :=
      flux.patient.iterate_isTour (unbound flux.patient) positive fuel reading trivial
    refine ⟨ended, state, pages, ?_, tour⟩
    rw [flux.toList_eq, StateT.run_map, run]
    rfl
  · have patientStill : flux.patient.IsStill := ⟨still.1, fun _ _ => ⟨rfl, rfl⟩⟩
    obtain ⟨state, pages, run, unchanged⟩ := patientStill.iterate_eq positive reading enough
    refine ⟨state, pages, ?_, unchanged⟩
    rw [flux.toList_eq, StateT.run_map, run]
    exact congrArg (fun items => (items, _)) (List.reverse_reverse _)

/-- One and five come and go: when two is handed out, the second page has not been read. -/
def replaced : Flux Bool (id : Int → Int) where
  items phase := if phase then [1, 4, 5] else [1, 2, 3, 4]
  ascending phase := by cases phase <;> decide
  afterPage phase := phase
  afterItem item phase := phase || item = 2
  goesOn _ _ := true

/-- Pages of two items of a set in which two and three are replaced by five. -/
theorem replaced_iteration :
    (1 : Int) ≤ 2 ∧ ∃ ended state pages,
      (replaced.iterate 2 3).run ⟨false, []⟩ = (ended, ⟨state, [] ++ pages⟩) ∧
        IsTour 2 3 (id : Int → Int) pages ended ∧ ended = .finished [5, 4, 2, 1] := by
  have atLeastOne : (1 : Int) ≤ 2 := by decide
  obtain ⟨limit, accepted, same, ⟨ended, state, pages, run, tour⟩, -⟩ :=
    changing_iteration replaced atLeastOne 3 ⟨false, []⟩
  obtain rfl : limit = 2 := by omega
  exact ⟨atLeastOne, ended, state, pages, run, tour, (congrArg Prod.fst run).symm⟩

end Schedule

end Workflow.Paging
