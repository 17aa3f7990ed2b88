import Workflow.Proofs.Attempt.Failing
import Workflow.Proofs.Isolation.Attempt

/-!
# A cycle attempts each process once

A cycle reads pages of processes and takes up one process after the other.  Since an attempt
never fails unless it is cancelled and leaves nothing staged, whatever happens to a process
stays with that process: the next one is attempted as if nothing had happened.
-/

namespace Workflow

open Workflow.Action

namespace Turn

/-- The process that is taken up. -/
def taken? : Turn → Option Process
  | ⟨.hold process, _⟩ => some process
  | _ => none

/-- The page that is read. -/
def page? : Turn → Option (List Process)
  | ⟨.eligiblePage _ _ _, .ok page⟩ => some page
  | _ => none

/-- The page size that is said to be used. -/
def limit? : Turn → Option Nat
  | ⟨.discover _, .ok limit⟩ => some limit
  | _ => none

/-- Looking for processes has failed. -/
def isFailedSearch : Turn → Bool
  | ⟨.discover _, .error _⟩ | ⟨.eligiblePage _ _ _, .error _⟩ => true
  | _ => false

end Turn

namespace Cycle

/-- The processes that have been taken up, in order. -/
def attempted (said : List Turn) : List Process :=
  said.filterMap Turn.taken?

/-- The pages that have been read, in order. -/
def pages (said : List Turn) : List (List Process) :=
  said.filterMap Turn.page?

/-- All pages were read: the last one was not full, or the fuel has been used up. -/
def IsReadOut (fuel : Nat) (said : List Turn) : Prop :=
  (pages said).length = fuel ∨ ∃ limit last, said.filterMap Turn.limit? = [limit] ∧
    (pages said).getLast? = some last ∧ (last = [] ∨ last.length < limit)

/-- Since some moment these pages have been read, and each of their processes has been taken
up. -/
structure Tours (fuel limit : Nat) (read : List (List Process)) (before later : List Turn) :
    Prop where
  pages : pages later = pages before ++ read
  attempted : attempted later = attempted before ++ read.flatten
  limits : later.filterMap Turn.limit? = before.filterMap Turn.limit?
  readOut : read.length = fuel ∨
    ∃ last, read.getLast? = some last ∧ (last = [] ∨ last.length < limit)

/-- What is recorded when processes are taken up one after the other. -/
def takings (processes : List Process) : List Turn :=
  processes.map fun process => ⟨.hold process, ()⟩

variable {said : List Turn} {processes : List Process}

theorem filterMap_takings {α : Type} {view : Turn → Option α}
    (unseen : ∀ process, view ⟨.hold process, ()⟩ = none) :
    (takings processes).filterMap view = [] := by
  simp [takings, List.filterMap_map, unseen]

theorem attempted_takings : attempted (takings processes) = processes := by
  simp [attempted, takings, List.filterMap_map, Function.comp_def, Turn.taken?]

variable {before later : List Turn} {query : Eligible} {after : Option Uuid} {size fuel limit : Nat}
  {page : List Process} {read : List (List Process)}

/-- What is recorded when a page is read and all its processes are taken up. -/
def reading (query : Eligible) (after : Option Uuid) (size : Nat) (page : List Process) :
    List Turn :=
  ⟨.eligiblePage query after size, .ok page⟩ :: takings page

theorem pages_reading :
    pages (before ++ reading query after size page) = pages before ++ [page] := by
  have unseen : (takings page).filterMap Turn.page? = [] := filterMap_takings fun _ => rfl
  rw [pages, List.filterMap_append, reading, List.filterMap_cons, unseen]
  rfl

theorem attempted_reading :
    attempted (before ++ reading query after size page) = attempted before ++ page := by
  rw [attempted, List.filterMap_append, reading, List.filterMap_cons]
  exact congrArg _ attempted_takings

theorem limits_reading : (before ++ reading query after size page).filterMap Turn.limit? =
    before.filterMap Turn.limit? := by
  have unseen : (takings page).filterMap Turn.limit? = [] := filterMap_takings fun _ => rfl
  rw [List.filterMap_append, reading, List.filterMap_cons, unseen]
  exact List.append_nil _

theorem tours_last (short : page = [] ∨ page.length < limit) :
    Tours (fuel + 1) limit [page] before (before ++ reading query after size page) where
  pages := pages_reading
  attempted := by simp [attempted_reading]
  limits := limits_reading
  readOut := .inr ⟨page, rfl, short⟩

theorem Tours.cons
    (tours : Tours fuel limit read (before ++ reading query after size page) later) :
    Tours (fuel + 1) limit (page :: read) before later where
  pages := by simp [tours.pages, pages_reading]
  attempted := by simp [tours.attempted, attempted_reading]
  limits := tours.limits.trans limits_reading
  readOut := by
    rcases tours.readOut with full | ⟨last, isLast, short⟩
    · exact .inl (by simp [full])
    · refine .inr ⟨last, ?_, short⟩
      cases read with
      | nil => cases isLast
      | cons next read => rwa [List.getLast?_cons_cons]

end Cycle

namespace Clerk

variable {σ : Type} {site : Site σ} {visits : List Turn} {clerk later next : Clerk σ}
  {request : Request} {reply : request.Reply} {term : LeaseTerm} {registry : Registry}
  {broken : Failure → Clerk σ → Prop} {limit count : Nat}

/-- A process is taken up where nothing is staged. -/
def MayTakeUp (clerk : Clerk σ) : Request → Prop
  | .hold _ => clerk.staged = []
  | _ => True

abbrev cycleRules (site : Site σ) : Rules (Clerk σ) :=
  site.rules MayTakeUp

/-- Nothing is staged, for whatever process. -/
def Ready (site : Site σ) (visits : List Turn) (clerk : Clerk σ) : Prop :=
  ∃ id, clerk.Clean site id visits

theorem stable_ready : (cycleRules site).Stable (Ready site visits) := by
  rintro clerk later ⟨id, clean⟩ meanwhile
  exact ⟨id, stable_clean clerk later clean meanwhile⟩

theorem Ready.answer (ready : clerk.Ready site visits)
    (answers : clerk.Answers site request reply next) (other : request.isOfCycle = false)
    (keeps : request.isStaging = false) : next.Ready site visits := by
  obtain ⟨id, clean⟩ := ready
  have isFor : request.IsFor site.owner id := by
    cases request with
    | stageUpdates _ | stageStep _ _ => cases keeps
    | _ => exact other
  exact ⟨id, clean.answer isFor keeps answers⟩

theorem Clean.say {id : Uuid} {moved : Clerk σ} (clean : moved.Clean site id visits)
    (same : moved.said = clerk.said) (ofCycle : request.isOfCycle) :
    Clean site id (visits ++ [⟨request, reply⟩])
      { moved with said := clerk.said ++ [⟨request, reply⟩] } where
  holds := clean.holds
  attributed := clean.attributed
  isFor := clean.isFor
  unstaged := clean.unstaged
  visits := by
    rw [List.filter_append, ← same, clean.visits]
    simp [ofCycle]

theorem Ready.discover {query : Eligible} {reply : Except Failure Nat}
    (ready : clerk.Ready site visits)
    (answers : clerk.Answers site (.discover query) reply next) :
    next.Ready site (visits ++ [⟨.discover query, reply⟩]) := by
  obtain ⟨id, clean⟩ := ready
  obtain ⟨_, rfl, rfl⟩ := answers.moves
  exact ⟨id, clean.say rfl rfl⟩

theorem Ready.eligiblePage {query : Eligible} {after : Option Uuid}
    {reply : Except Failure (List Process)} (ready : clerk.Ready site visits)
    (answers : clerk.Answers site (.eligiblePage query after limit) reply next) :
    next.Ready site (visits ++ [⟨.eligiblePage query after limit, reply⟩]) := by
  obtain ⟨id, clean⟩ := ready
  obtain ⟨_, rfl, rfl⟩ := answers.moves
  exact ⟨id, clean.say rfl rfl⟩

theorem Ready.filterMap_said {α : Type} {view : Turn → Option α} (ready : clerk.Ready site visits)
    (seen : ∀ request reply, (view ⟨request, reply⟩).isSome → request.isOfCycle) :
    clerk.said.filterMap view = visits.filterMap view := by
  obtain ⟨id, clean⟩ := ready
  rw [← clean.visits, List.filterMap_filter]
  apply List.filterMap_congr
  intro turn _
  split
  · rfl
  · rename_i other
    cases viewed : view turn with
    | none => rfl
    | some value => exact absurd (seen turn.request turn.reply (by simp [viewed])) other

theorem Ready.pages (ready : clerk.Ready site visits) :
    Cycle.pages clerk.said = Cycle.pages visits :=
  ready.filterMap_said fun request _ seen => by cases request <;> first | rfl | cases seen

theorem Ready.attempted (ready : clerk.Ready site visits) :
    Cycle.attempted clerk.said = Cycle.attempted visits :=
  ready.filterMap_said fun request _ seen => by cases request <;> first | rfl | cases seen

theorem Ready.limits (ready : clerk.Ready site visits) :
    clerk.said.filterMap Turn.limit? = visits.filterMap Turn.limit? :=
  ready.filterMap_said fun request _ seen => by cases request <;> first | rfl | cases seen

/-- Whatever was done for the process before, the next one is taken up with nothing
staged. -/
theorem Ready.hold {process : Process} {reply : Unit} (ready : clerk.Ready site visits)
    (answers : clerk.Answers site (.hold process) reply next) :
    next.Clean site process.id (visits ++ [⟨.hold process, reply⟩]) := by
  obtain ⟨id, clean⟩ := ready
  obtain ⟨_, rfl, rfl⟩ := answers.moves
  have moved : Clean site process.id visits { clerk with held := process } :=
    ⟨⟨rfl, clean.attributed, clean.unstaged ▸ Batch.isFor_nil, clean.visits⟩, clean.unstaged⟩
  exact moved.say rfl rfl

/-- Some pages have been read, and as many processes have been taken up as are counted. -/
def Toured (site : Site σ) (fuel limit count : Nat) (visits : List Turn)
    (ended : Paging.Ended Nat) (clerk : Clerk σ) : Prop :=
  ∃ read later, clerk.Ready site later ∧ Cycle.Tours fuel limit read visits later ∧
    ended.state = count + read.flatten.length

section Uncancelled

variable (uncancelled : ¬site.cancels)
  (calm : ∀ failure, term = .error failure → failure.isCancellation → site.cancels)
include uncancelled calm

theorem visit_obeys (ready : clerk.Ready site visits) (process : Process) :
    Obeys (cycleRules site)
      (fun said clerk => said = .yield (count + 1) ∧
        clerk.Ready site (visits ++ Cycle.takings [process]))
      broken (registry.visit term count process) clerk := by
  rw [Registry.visit]
  refine obeys_ask_bind stable_ready ready (fun _ _ => trivial)
    fun clerk ready cancelled _ answers => ?_
  have ready := ready.answer answers rfl rfl
  split
  · rename_i isCancelled
    exact absurd (answers.cancels isCancelled) uncancelled
  refine obeys_ask_bind stable_ready ready (fun _ ready => ready.choose_spec.unstaged) ?_
  intro clerk ready _ next answers
  have attempts := attempt_obeys calm registry (ready.hold answers)
  have allowed : Program.Obeys (cycleRules site) _ (registry.attempt term).run next :=
    attempts.lenient (fun _ _ others => others)
      (fun _ request _ => by cases request <;> trivial)
      (fun _ _ _ _ answers => answers)
  have quietly : Obeys (cycleRules site)
      (fun _ => Clean site process.id (visits ++ Cycle.takings [process])) broken
      (registry.attempt term) next := by
    refine allowed.imp fun outcome clerk ended => ?_
    cases outcome with
    | ok _ => exact ended
    | error failure => exact absurd ended.2.2 uncancelled
  exact quietly.bind fun _ clerk clean => obeys_pure ⟨rfl, process.id, clean⟩

theorem visitPage_obeys (ready : clerk.Ready site visits) (processes : List Process) :
    Obeys (cycleRules site)
      (fun said clerk => said = .yield (count + processes.length) ∧
        clerk.Ready site (visits ++ Cycle.takings processes))
      broken (Paging.visitPage (registry.visit term) count processes) clerk := by
  induction processes generalizing visits clerk count with
  | nil => exact obeys_pure ⟨rfl, by simpa [Cycle.takings] using ready⟩
  | cons process processes induction =>
      rw [Paging.visitPage]
      refine (visit_obeys uncancelled calm ready process).bind ?_
      rintro _ clerk ⟨rfl, ready⟩
      refine (induction ready).imp ?_
      rintro _ clerk ⟨rfl, ready⟩
      refine ⟨by simp [Nat.add_assoc, Nat.add_comm 1], ?_⟩
      simpa [Cycle.takings] using ready

theorem visitFrom_obeys (ready : clerk.Ready site visits) (query : Eligible) (fuel : Nat)
    (after : Option Uuid) :
    Obeys (cycleRules site) (Toured site fuel limit count visits)
      (fun _ clerk => ∃ turn ∈ clerk.said, turn.isFailedSearch)
      (Paging.visitFrom limit Process.id
        (fun after => do Action.ofExcept (← ask (.eligiblePage query after limit)))
        (registry.visit term) fuel after count) clerk := by
  induction fuel generalizing visits clerk count after with
  | zero =>
      refine obeys_pure ⟨[], visits, ready, ⟨by simp, by simp, rfl, .inl rfl⟩, rfl⟩
  | succ fuel induction =>
      rw [Paging.visitFrom, bind_assoc]
      refine obeys_ask_bind stable_ready ready (fun _ _ => trivial) ?_
      intro clerk ready reply next answers
      have ready := ready.eligiblePage answers
      refine obeys_ofExcept_bind ?_ ?_
      · rintro page rfl
        refine (visitPage_obeys uncancelled calm ready page).bind ?_
        rintro _ clerk ⟨rfl, ready⟩
        rw [List.append_assoc] at ready
        have ended : ∀ short : page = [] ∨ page.length < limit,
            clerk.Toured site (fuel + 1) limit count visits (.finished (count + page.length)) :=
          fun short => ⟨[page], _, ready, Cycle.tours_last short, by simp [Paging.Ended.state]⟩
        dsimp only
        split
        · rename_i none
          exact obeys_pure (ended (.inl (List.getLast?_eq_none_iff.mp none)))
        · split
          · rename_i short
            exact obeys_pure (ended (.inr short))
          · refine (induction ready _).imp ?_
            rintro ended clerk ⟨read, later, ready, tours, reached⟩
            refine ⟨page :: read, later, ready, tours.cons, ?_⟩
            rw [reached, List.flatten_cons, List.length_append, Nat.add_assoc]
      · rintro failure rfl
        obtain ⟨_, _, rfl⟩ := answers.moves
        exact ⟨_, List.mem_append_right _ List.mem_cons_self, rfl⟩

theorem cycle_obeys (ready : clerk.Ready site []) (fuel : Nat) :
    Obeys (cycleRules site)
      (fun count clerk => count = (Cycle.attempted clerk.said).length ∧
        Cycle.attempted clerk.said = (Cycle.pages clerk.said).flatten ∧
          Cycle.IsReadOut fuel clerk.said)
      (fun _ clerk => ∃ turn ∈ clerk.said, turn.isFailedSearch)
      (registry.cycle term fuel) clerk := by
  rw [Registry.cycle]
  refine obeys_ask_bind stable_ready ready (fun _ _ => trivial) fun clerk ready date _ answers => ?_
  have ready := ready.answer answers rfl rfl
  refine obeys_ask_bind stable_ready ready (fun _ _ => trivial)
    fun clerk ready reply _ answers => ?_
  have ready := ready.discover answers
  refine obeys_ofExcept_bind ?_ ?_
  · rintro limit rfl
    refine (visitFrom_obeys uncancelled calm ready _ fuel none).bind ?_
    rintro ended clerk ⟨read, later, ready, tours, reached⟩
    refine obeys_ask_bind stable_ready ready (fun _ _ => trivial) fun _ ready _ clerk answers => ?_
    have ready := ready.answer answers rfl rfl
    have pages : Cycle.pages clerk.said = read := ready.pages.trans tours.pages
    have attempted : Cycle.attempted clerk.said = read.flatten :=
      ready.attempted.trans tours.attempted
    refine obeys_pure ⟨?_, ?_, ?_⟩
    · rw [reached, attempted, Nat.zero_add]
    · rw [attempted, pages]
    · rw [Cycle.IsReadOut, pages]
      refine tours.readOut.imp id ?_
      rintro ⟨last, isLast, short⟩
      exact ⟨limit, last, ready.limits.trans tours.limits, isLast, short⟩
  · rintro failure rfl
    obtain ⟨_, _, rfl⟩ := answers.moves
    exact ⟨_, List.mem_append_right _ List.mem_cons_self, rfl⟩

end Uncancelled

end Clerk

/-! ### What follows when a process is taken up -/

namespace Program

variable {α β γ : Type} {attempt : Program γ}

/-- Whenever a process is taken up, an attempt at it follows. -/
def TakesUp (program : Program α) (attempt : Program γ) : Prop :=
  match program with
  | done _ => True
  | ask request rest =>
    (∀ process, request = .hold process → ∃ next, ∀ reply, rest reply = attempt.bind next) ∧
      ∀ reply, (rest reply).TakesUp attempt

theorem takesUp_of_asks {program : Program α}
    (asks : program.Asks fun request => request.isOfCycle = false) :
    program.TakesUp attempt := by
  induction program with
  | done value => trivial
  | ask request rest induction =>
      refine ⟨?_, fun reply => induction reply (asks.2 reply)⟩
      rintro process rfl
      cases asks.1

theorem TakesUp.bind {program : Program α} {next : α → Program β}
    (takesUp : program.TakesUp attempt) (following : ∀ value, (next value).TakesUp attempt) :
    (program.bind next).TakesUp attempt := by
  induction program with
  | done value => exact following value
  | ask request rest induction =>
      refine ⟨fun process isHold => ?_, fun reply => induction reply (takesUp.2 reply)⟩
      obtain ⟨after, same⟩ := takesUp.1 process isHold
      refine ⟨fun value => (after value).bind next, fun reply => ?_⟩
      exact (congrArg (·.bind next) (same reply)).trans (bind_assoc attempt after next)

theorem Leads.takesUp {σ : Type} {rules : Rules σ} {program rest : Program α} {start state : σ}
    (leads : program.Leads rules start rest state) (takesUp : program.TakesUp attempt) :
    rest.TakesUp attempt := by
  induction leads with
  | start => exact takesUp
  | step _ _ _ induction => exact induction.2 _

end Program

namespace Action

variable {α β γ : Type} {attempt : Program γ}

def TakesUp (action : Action α) (attempt : Program γ) : Prop :=
  action.run.TakesUp attempt

theorem takesUp_of_asks {action : Action α}
    (asks : Asks (fun request => request.isOfCycle = false) action) : action.TakesUp attempt :=
  Program.takesUp_of_asks asks

theorem takesUp_ask {request : Request} (other : ∀ process, request ≠ .hold process) :
    (ask request).TakesUp attempt :=
  ⟨fun process isHold => absurd isHold (other process), fun _ => trivial⟩

theorem TakesUp.bind {action : Action α} {next : α → Action β}
    (takesUp : action.TakesUp attempt) (following : ∀ value, (next value).TakesUp attempt) :
    (action >>= next).TakesUp attempt := by
  refine Program.TakesUp.bind takesUp fun outcome => ?_
  cases outcome with
  | ok value => exact following value
  | error failure => trivial

end Action

namespace Registry

variable {registry : Registry} {term : LeaseTerm} {limit count : Nat}

theorem visit_takesUp (process : Process) :
    (registry.visit term count process).TakesUp (registry.attempt term).run := by
  rw [visit]
  refine TakesUp.bind (takesUp_of_asks (asks_ask rfl)) fun cancelled => ?_
  split
  · exact takesUp_of_asks asks_pure
  refine ⟨fun _ _ => ⟨_, fun _ => rfl⟩, fun _ => ?_⟩
  exact TakesUp.bind (takesUp_of_asks registry.attempt_handsOver.asks) fun _ =>
    takesUp_of_asks asks_pure

theorem visitPage_takesUp (processes : List Process) :
    (Paging.visitPage (registry.visit term) count processes).TakesUp
      (registry.attempt term).run := by
  induction processes generalizing count with
  | nil => exact takesUp_of_asks asks_pure
  | cons process processes induction =>
      rw [Paging.visitPage]
      refine TakesUp.bind (visit_takesUp process) fun said => ?_
      cases said with
      | done count => exact takesUp_of_asks asks_pure
      | yield count => exact induction

theorem visitFrom_takesUp {query : Eligible} {after : Option Uuid} (fuel : Nat) :
    (Paging.visitFrom limit Process.id
      (fun after => do Action.ofExcept (← ask (.eligiblePage query after limit)))
      (registry.visit term) fuel after count).TakesUp (registry.attempt term).run := by
  induction fuel generalizing after count with
  | zero => exact takesUp_of_asks asks_pure
  | succ fuel induction =>
      rw [Paging.visitFrom]
      refine TakesUp.bind ?page fun page => ?_
      case page => exact (takesUp_ask (by simp)).bind fun _ => takesUp_of_asks asks_ofExcept
      refine TakesUp.bind (visitPage_takesUp page) fun said => ?_
      cases said with
      | done count => exact takesUp_of_asks asks_pure
      | yield count =>
          dsimp only
          split
          · exact takesUp_of_asks asks_pure
          · split
            · exact takesUp_of_asks asks_pure
            · exact induction

/-- A cycle does nothing with a process but attempt it. -/
theorem cycle_takesUp (fuel : Nat) :
    (registry.cycle term fuel).TakesUp (registry.attempt term).run := by
  rw [cycle]
  refine TakesUp.bind (takesUp_of_asks (asks_ask rfl)) fun date => ?_
  refine (takesUp_ask (by simp)).bind fun reply => ?_
  refine TakesUp.bind (takesUp_of_asks asks_ofExcept) fun limit => ?_
  refine TakesUp.bind (visitFrom_takesUp fuel) fun ended => ?_
  exact TakesUp.bind (takesUp_of_asks (asks_note rfl)) fun _ => takesUp_of_asks asks_pure

end Registry

/-- The course of a program at a site. -/
abbrev Site.course {σ : Type} (site : Site σ) : Rules (Clerk σ) :=
  site.rules fun _ _ => True

theorem Program.Leads.obeys_course {σ α : Type} {site : Site σ} {program rest : Program α}
    {mayAsk : Clerk σ → Request → Prop} {post : α → Clerk σ → Prop} {start clerk : Clerk σ}
    (leads : program.Leads site.course start rest clerk)
    (obeys : program.Obeys (site.rules mayAsk) post start) :
    rest.Obeys (site.rules mayAsk) post clerk :=
  Leads.obeys (leads.imp (fun others => others) fun answers => answers) obeys

/-- Nothing has been said, and nothing is staged. -/
structure Clerk.Begins {σ : Type} (site : Site σ) (clerk : Clerk σ) : Prop where
  attributed : Attributed site.owner (site.stock.entries clerk.store)
  unstaged : clerk.staged = []
  silent : clerk.said = []

theorem Clerk.Begins.clean {σ : Type} {site : Site σ} {clerk : Clerk σ}
    (begins : clerk.Begins site) :
    clerk.Clean site clerk.held.id [] :=
  ⟨⟨rfl, begins.attributed, begins.unstaged ▸ Batch.isFor_nil, by simp [begins.silent]⟩,
    begins.unstaged⟩

theorem Clerk.Begins.ready {σ : Type} {site : Site σ} {clerk : Clerk σ}
    (begins : clerk.Begins site) :
    clerk.Ready site [] :=
  ⟨_, begins.clean⟩

namespace Cycle

variable {σ : Type} {site : Site σ} {start : Clerk σ} {registry : Registry} {term : LeaseTerm}

/-- **Failures stay with their process.**  Whatever fails, an attempt leaves nothing staged and
fails only if it is cancelled, and all its commits leave what belongs to other processes as it
is.  So a cycle that is not cancelled, and that can read its pages, attempts each process that
it reads exactly once, always with nothing staged, and returns their number. -/
theorem failures_isolated (registry : Registry) (fuel : Nat) (begins : start.Begins site)
    (calm : ∀ failure, term = .error failure → failure.isCancellation → site.cancels) :
    (∀ outcome final, (registry.attempt term).run.Leads site.course start (.done outcome) final →
      final.staged = [] ∧
        ∀ failure, outcome = .error failure → failure.isCancellation ∧ site.cancels) ∧
    (∀ rest state later after,
      (registry.attempt term).run.Leads site.course start (.ask .save rest) state →
        state.Meanwhile site later → site.stock.commit later.store later.staged = .ok after →
          site.stock.without start.held.id after =
            site.stock.without start.held.id later.store) ∧
    (¬site.cancels →
      (∀ process rest state,
        (registry.cycle term fuel).run.Leads site.course start (.ask (.hold process) rest) state →
          state.staged = [] ∧ ∃ next, rest () = (registry.attempt term).run.bind next) ∧
      ∀ outcome final,
        (registry.cycle term fuel).run.Leads site.course start (.done outcome) final →
          (∀ turn ∈ final.said, turn.isFailedSearch = false) →
            outcome = .ok (attempted final.said).length ∧
              attempted final.said = (pages final.said).flatten ∧ IsReadOut fuel final.said) := by
  have attempts := Clerk.attempt_obeys calm registry begins.clean
  refine ⟨?attempt, ?commits, fun uncancelled => ⟨?takes, ?cycle⟩⟩
  case attempt =>
    intro outcome final leads
    have ended := leads.obeys_course attempts
    cases outcome with
    | ok _ => exact ⟨ended.unstaged, fun _ impossible => by cases impossible⟩
    | error failure =>
        refine ⟨ended.1.unstaged, fun _ same => ?_⟩
        cases same
        exact ended.2
  case commits =>
    intro rest state later after leads meanwhile committed
    exact (leads.obeys_course attempts later meanwhile).1 after committed
  case takes =>
    intro process rest state leads
    have cycles := leads.obeys_course (Clerk.cycle_obeys uncancelled calm begins.ready fuel)
    have meanwhile : state.Meanwhile site { state with store := start.store } :=
      ⟨rfl, rfl, rfl, begins.attributed⟩
    obtain ⟨next, follows⟩ := (leads.takesUp (registry.cycle_takesUp fuel)).1 process rfl
    exact ⟨(cycles _ meanwhile).1, next, follows ()⟩
  case cycle =>
    intro outcome final leads works
    have ended := leads.obeys_course (Clerk.cycle_obeys uncancelled calm begins.ready fuel)
    cases outcome with
    | ok count => exact ⟨congrArg _ ended.1, ended.2⟩
    | error failure =>
        obtain ⟨turn, member, failed⟩ := ended
        simp [works turn member] at failed

/-- The course so far, in which these processes have been taken up and no search has failed. -/
structure Walks {α : Type} (site : Site σ) (program : Program α) (start : Clerk σ)
    (left : Program α) (clerk : Clerk σ) (taken : List Process) : Prop where
  leads : program.Leads site.course start left clerk
  attempted : attempted clerk.said = taken
  works : ∀ turn ∈ clerk.said, turn.isFailedSearch = false

section Walks

variable {α : Type} {program left : Program α} {clerk moved : Clerk σ} {taken : List Process}

theorem Walks.step (walks : Walks site program start left clerk taken) (request : Request)
    {rest : request.Reply → Program α} (asks : left = .ask request rest) (reply : request.Reply)
    (attributed : Attributed site.owner (site.stock.entries clerk.store))
    (moves : clerk.Moves site request reply moved)
    (calm : Turn.isCancellation ⟨request, reply⟩ = false)
    (works : Turn.isFailedSearch ⟨request, reply⟩ = false) :
    Walks site program start (rest reply)
      { moved with said := clerk.said ++ [⟨request, reply⟩] }
      (taken ++ (Turn.taken? ⟨request, reply⟩).toList) where
  leads := by
    obtain ⟨leads, _, _⟩ := walks
    subst asks
    exact .step leads ⟨rfl, rfl, rfl, attributed⟩ ⟨⟨moved, moves, rfl⟩, by simp [calm]⟩
  attempted := by
    have before := walks.attempted
    rw [Cycle.attempted] at before ⊢
    rw [List.filterMap_append, before, List.filterMap_cons]
    cases Turn.taken? ⟨request, reply⟩ <;> rfl
  works := List.forall_mem_append.mpr ⟨walks.works, List.forall_mem_singleton.mpr works⟩

theorem Walks.answer (walks : Walks site program start left clerk taken) (request : Request)
    {rest : request.Reply → Program α} (asks : left = .ask request rest) (reply : request.Reply)
    (attributed : Attributed site.owner (site.stock.entries clerk.store))
    (moves : clerk.Moves site request reply moved)
    (calm : Turn.isCancellation ⟨request, reply⟩ = false)
    (works : Turn.isFailedSearch ⟨request, reply⟩ = false)
    (other : Turn.taken? ⟨request, reply⟩ = none) :
    Walks site program start (rest reply)
      { moved with said := clerk.said ++ [⟨request, reply⟩] } taken := by
  simpa [other] using walks.step request asks reply attributed moves calm works

theorem Walks.hold (walks : Walks site program start left clerk taken) (process : Process)
    {rest : Unit → Program α} (asks : left = .ask (.hold process) rest)
    (attributed : Attributed site.owner (site.stock.entries clerk.store)) :
    Walks site program start (rest ())
      { clerk with held := process, said := clerk.said ++ [⟨.hold process, ()⟩] }
      (taken ++ [process]) :=
  walks.step (.hold process) asks () attributed rfl rfl rfl

end Walks

/-- Both saves for one process fail and keep what is staged; another process is leased by
somebody else. -/
theorem exists_troubled_cycle :
    ∃ (final : Clerk Rows) (first second : Process),
      Walks ⟨Stock.rows, id, False⟩ (Registry.cycle ⟨[]⟩ (.ok 5) 1).run
        ⟨⟨[first, second], []⟩, first, [], []⟩ (.done (.ok 2)) final [first, second] := by
  let now : Timestamp := ⟨0, 0⟩
  let expiry : Timestamp := ⟨5, 0⟩
  let first : Process := .fresh (.ofNat 1) .setupDim
  let second : Process := { Process.fresh (.ofNat 2) .setupDim with lease := some now }
  let failure := Failure.reported .storage "disk full"
  let start : Clerk Rows := ⟨⟨[first, second], []⟩, first, [], []⟩
  have stepless : Attributed id [] := by simp [Attributed]
  have walk : Walks ⟨Stock.rows, id, False⟩ (Registry.cycle ⟨[]⟩ (.ok 5) 1).run start
      (Registry.cycle ⟨[]⟩ (.ok 5) 1).run start [] := ⟨.start, rfl, by simp [start]⟩
  have walk := walk.answer .now rfl now stepless rfl rfl rfl rfl
  have walk := walk.answer (.discover _) rfl (.ok 3) stepless rfl rfl rfl rfl
  have walk := walk.answer (.eligiblePage _ none 3) rfl (.ok [first, second]) stepless
    rfl rfl rfl rfl
  -- The first process is leased, but neither save succeeds.
  have walk := walk.answer .isCancelled rfl false stepless rfl rfl rfl rfl
  have walk := walk.hold first rfl stepless
  have walk := walk.answer .held rfl first stepless ⟨rfl, rfl⟩ rfl rfl rfl
  have walk := walk.answer .now rfl now stepless rfl rfl rfl rfl
  have walk := walk.answer .held rfl first stepless ⟨rfl, rfl⟩ rfl rfl rfl
  have walk := walk.answer (.lease (.request expiry now)) rfl (.ok true) stepless ⟨rfl, rfl⟩
    rfl rfl rfl
  have walk := walk.answer (.note _) rfl () stepless rfl rfl rfl rfl
  have walk := walk.answer .save rfl (.error failure) stepless (.inr rfl) rfl rfl rfl
  have walk := walk.answer .discard rfl () stepless rfl rfl rfl rfl
  have walk := walk.answer .discard rfl () stepless rfl rfl rfl rfl
  have walk := walk.answer (.note _) rfl () stepless rfl rfl rfl rfl
  have walk := walk.answer (.lease .release) rfl (.ok true) stepless ⟨rfl, rfl⟩ rfl rfl rfl
  have walk := walk.answer .save rfl (.error failure) stepless (.inr rfl) rfl rfl rfl
  have walk := walk.answer .held rfl _ stepless ⟨rfl, rfl⟩ rfl rfl rfl
  have walk := walk.answer (.note _) rfl () stepless rfl rfl rfl rfl
  have walk := walk.answer .discard rfl () stepless rfl rfl rfl rfl
  -- The second process is skipped.
  have walk := walk.answer .isCancelled rfl false stepless rfl rfl rfl rfl
  have walk := walk.hold second rfl stepless
  have walk := walk.answer .held rfl second stepless ⟨rfl, rfl⟩ rfl rfl rfl
  have walk := walk.answer .now rfl now stepless rfl rfl rfl rfl
  have walk := walk.answer .held rfl second stepless ⟨rfl, rfl⟩ rfl rfl rfl
  have walk := walk.answer (.note _) rfl () stepless rfl rfl rfl rfl
  have walk := walk.answer (.note _) rfl () stepless rfl rfl rfl rfl
  exact ⟨_, first, second, walk⟩

/-- Although nothing could be saved for the first of two processes, both were attempted. -/
theorem both_attempted_after_failed_saves :
    ∃ (final : Clerk Rows) (first second : Process), attempted final.said = [first, second] ∧
      (pages final.said).flatten = [first, second] ∧ IsReadOut 1 final.said := by
  obtain ⟨final, first, second, walks⟩ := exists_troubled_cycle
  let site : Site Rows := ⟨Stock.rows, id, False⟩
  have begins : Clerk.Begins site ⟨⟨[first, second], []⟩, first, [], []⟩ :=
    ⟨by simp [site, Attributed, Stock.rows, Rows.entries], rfl, rfl⟩
  have calm (failure : Failure) (same : (.ok 5 : LeaseTerm) = .error failure) :
      failure.isCancellation → site.cancels := by cases same
  obtain ⟨_, _, cycles⟩ := failures_isolated ⟨[]⟩ 1 begins calm
  obtain ⟨_, same, readOut⟩ := (cycles id).2 _ final walks.leads walks.works
  exact ⟨final, first, second, walks.attempted, same ▸ walks.attempted, readOut⟩

end Cycle

end Workflow
