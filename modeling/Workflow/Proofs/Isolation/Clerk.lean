import Workflow.Proofs.Attempt.Course
import Workflow.Proofs.Attempt.Lease
import Workflow.Proofs.Attempt.Requests
import Workflow.Proofs.Drain.Agenda
import Workflow.Proofs.Isolation.Stock

/-!
# An attempt keeps to its process

A clerk is a worker at a store.  It holds one process and stages changes, and others who share
the store do what they like.  Every request can be answered in every way, and any of
them can fail, except that executors stage nothing themselves.

Whatever happens, all that an attempt stages is for the process that it holds, and when the
attempt ends nothing is staged any more.  Only a cancellation makes the attempt fail.
-/

namespace Workflow

open Workflow.Action

namespace Request

/-- The request stages changes. -/
def isStaging : Request → Bool
  | lease _ | stageUpdates _ | stageStep _ _ => true
  | _ => false

/-- The request concerns one process. -/
def IsFor (owner : Uuid → Uuid) (process : Uuid) : Request → Prop
  | stageUpdates updates => ∀ entry ∈ updates, owner entry.1 = process
  | stageStep _ other => other = process
  | request => request.isOfCycle = false

end Request

/-- The work is cancelled: it is asked about it and told so, or a request is cut short. -/
def Turn.isCancellation : Turn → Bool
  | ⟨.isCancelled, cancelled⟩ => cancelled
  | ⟨.lease _, .error failure⟩ | ⟨.pendingSteps _, .error failure⟩
  | ⟨.stepTypes _, .error failure⟩ | ⟨.save, .error failure⟩ | ⟨.prepare _ _ _, .error failure⟩
  | ⟨.needsLease _ _, .error failure⟩ | ⟨.execute _ _ _ _, .error failure⟩
  | ⟨.discover _, .error failure⟩ | ⟨.eligiblePage _ _ _, .error failure⟩
  | ⟨.consult _, .error failure⟩ => failure.isCancellation
  | _ => false

/-- The surroundings of workers: a kind of store, the process for which each identifier of
a step is made, and whether work can be cancelled. -/
structure Site (σ : Type) where
  stock : Stock σ
  owner : Uuid → Uuid
  cancels : Prop

/-- One worker at a store, and the conversation so far. -/
structure Clerk (σ : Type) where
  store : σ
  held : Process
  staged : Batch
  said : List Turn

namespace Clerk

variable {σ : Type}

def stage (clerk : Clerk σ) (batch : Batch) : Clerk σ :=
  { clerk with staged := clerk.staged ++ batch }

def discard (clerk : Clerk σ) : Clerk σ :=
  { clerk with staged := [] }

/-- What a request changes.  A failed save drops what is staged or keeps it. -/
def Moves (site : Site σ) (clerk : Clerk σ) : (request : Request) → request.Reply → Clerk σ → Prop
  | .held, process, next => process = clerk.held ∧ next = clerk
  | .hold process, _, next => next = { clerk with held := process }
  | .lease operation, reply, next =>
    match operation.perform clerk.held with
    | .ok (process, batch) =>
      reply = .ok (!batch.isEmpty) ∧ next = { clerk.stage batch with held := process }
    | .error failure => reply = .error failure ∧ next = clerk
  | .pendingSteps process, reply, next =>
    (∀ steps, reply = .ok steps → steps = site.stock.pendingSteps clerk.store process) ∧
      next = clerk
  | .stageUpdates updates, _, next =>
    ∃ clock, next = clerk.stage (Change.ofUpdates clock updates)
  | .stageStep type process, id, next =>
    site.owner id = process ∧
      ∃ now, next = clerk.stage [.insertStep (.fresh id type .todo process now)]
  | .save, .ok _, next =>
    ∃ store, site.stock.commit clerk.store clerk.staged = .ok store ∧
      next = { clerk.discard with store }
  | .save, .error _, next => next = clerk.discard ∨ next = clerk
  | .discard, _, next => next = clerk.discard
  | _, _, next => next = clerk

/-- How a request can be answered, and the clerk afterwards. -/
structure Answers (site : Site σ) (clerk : Clerk σ) (request : Request) (reply : request.Reply)
    (next : Clerk σ) : Prop where
  moves : ∃ moved, clerk.Moves site request reply moved ∧
    next = { moved with said := clerk.said ++ [⟨request, reply⟩] }
  cancels : Turn.isCancellation ⟨request, reply⟩ → site.cancels

/-- What others can do: change the store as they like, as long as each step belongs to the
process that it was made for. -/
structure Meanwhile (site : Site σ) (clerk later : Clerk σ) : Prop where
  held : later.held = clerk.held
  staged : later.staged = clerk.staged
  said : later.said = clerk.said
  attributed : Attributed site.owner (site.stock.entries later.store)

end Clerk

/-- The rules of workers who share a store. -/
def Site.rules {σ : Type} (site : Site σ) (mayAsk : Clerk σ → Request → Prop) :
    Rules (Clerk σ) where
  others := Clerk.Meanwhile site
  mayAsk := mayAsk
  answers := Clerk.Answers site

namespace Clerk

variable {σ : Type} {site : Site σ} {id : Uuid} {visits : List Turn} {clerk later next : Clerk σ}
  {request : Request} {reply : request.Reply}

/-- What an attempt at a process may ask.  A save changes nothing that belongs to others. -/
def MayAsk (site : Site σ) (id : Uuid) (clerk : Clerk σ) : Request → Prop
  | .save => ∀ after, site.stock.commit clerk.store clerk.staged = .ok after →
    site.stock.without id after = site.stock.without id clerk.store
  | request => request.isOfCycle = false

/-- All that is staged is for the process that is held, and no other process is looked
for. -/
structure Confined (site : Site σ) (id : Uuid) (visits : List Turn) (clerk : Clerk σ) : Prop where
  holds : clerk.held.id = id
  attributed : Attributed site.owner (site.stock.entries clerk.store)
  isFor : clerk.staged.IsFor site.owner id
  visits : (clerk.said.filter fun turn => turn.request.isOfCycle) = visits

/-- Nothing is staged. -/
structure Clean (site : Site σ) (id : Uuid) (visits : List Turn) (clerk : Clerk σ) : Prop extends
    Confined site id visits clerk where
  unstaged : clerk.staged = []

/-- A failure that is a cancellation only if the work can be cancelled. -/
structure Broken (site : Site σ) (id : Uuid) (visits : List Turn) (failure : Failure)
    (clerk : Clerk σ) : Prop extends Confined site id visits clerk where
  cancels : failure.isCancellation → site.cancels

abbrev attemptRules (site : Site σ) (id : Uuid) : Rules (Clerk σ) :=
  site.rules (MayAsk site id)

theorem stable_confined : (attemptRules site id).Stable (Confined site id visits) := by
  intro clerk later confined meanwhile
  refine ⟨?_, meanwhile.attributed, ?_, ?_⟩
  · rw [meanwhile.held, confined.holds]
  · rw [meanwhile.staged]
    exact confined.isFor
  · rw [meanwhile.said, confined.visits]

theorem stable_clean : (attemptRules site id).Stable (Clean site id visits) :=
  fun clerk later clean meanwhile =>
    ⟨stable_confined clerk later clean.toConfined meanwhile, meanwhile.staged.trans clean.unstaged⟩

theorem Confined.mayAsk (confined : clerk.Confined site id visits)
    (isFor : request.IsFor site.owner id) : clerk.MayAsk site id request := by
  cases request with
  | save => exact fun after committed =>
      Stock.without_commit confined.attributed confined.isFor committed
  | stageUpdates _ | stageStep _ _ => rfl
  | _ => exact isFor

theorem isOfCycle_of_isFor (isFor : request.IsFor site.owner id) : request.isOfCycle = false := by
  cases request with
  | stageUpdates _ | stageStep _ _ => rfl
  | _ => exact isFor

theorem Confined.say {moved : Clerk σ} (confined : moved.Confined site id visits)
    (same : moved.said = clerk.said) (isFor : request.IsFor site.owner id) :
    Confined site id visits { moved with said := clerk.said ++ [⟨request, reply⟩] } where
  holds := confined.holds
  attributed := confined.attributed
  isFor := confined.isFor
  visits := by
    rw [List.filter_append, ← same, confined.visits]
    simp [isOfCycle_of_isFor isFor]

theorem Confined.stage (confined : clerk.Confined site id visits) {batch : Batch}
    (isFor : batch.IsFor site.owner id) : (clerk.stage batch).Confined site id visits :=
  ⟨confined.holds, confined.attributed, Batch.IsFor.append confined.isFor isFor, confined.visits⟩

theorem Confined.discard (confined : clerk.Confined site id visits) :
    clerk.discard.Clean site id visits :=
  ⟨⟨confined.holds, confined.attributed, Batch.isFor_nil, confined.visits⟩, rfl⟩

/-- No answer to a request for the process brings in anything that is for others. -/
theorem Confined.answer (confined : clerk.Confined site id visits)
    (isFor : request.IsFor site.owner id) (answers : clerk.Answers site request reply next) :
    next.Confined site id visits := by
  obtain ⟨moved, moves, rfl⟩ := answers.moves
  cases request with
  | hold _ | discover _ | eligiblePage _ _ _ => cases isFor
  | note _ | now | isCancelled | stepTypes _ | prepare _ _ _ | needsLease _ _ | execute _ _ _ _
  | consult _ =>
      obtain rfl := moves
      exact confined.say rfl isFor
  | held =>
      obtain ⟨_, rfl⟩ := moves
      exact confined.say rfl isFor
  | pendingSteps _ =>
      obtain ⟨_, rfl⟩ := moves
      exact confined.say rfl isFor
  | lease operation =>
      simp only [Moves] at moves
      split at moves
      · rename_i performed
        obtain ⟨_, rfl⟩ := moves
        have follows := LeaseOp.follows_of_perform performed
        have staged : Batch.IsFor site.owner id _ := fun change member => by
          obtain ⟨update, rfl⟩ := follows.member member
          exact confined.holds
        have holds := follows.id_eq.trans confined.holds
        exact Confined.say ⟨holds, confined.attributed, (confined.stage staged).isFor,
          confined.visits⟩ rfl isFor
      · obtain ⟨_, rfl⟩ := moves
        exact confined.say rfl isFor
  | stageUpdates updates =>
      obtain ⟨clock, rfl⟩ := moves
      exact (confined.stage (Batch.isFor_ofUpdates isFor)).say rfl isFor
  | stageStep type process =>
      obtain ⟨made, now, rfl⟩ := moves
      have staged : Batch.IsFor site.owner id [.insertStep (.fresh reply type .todo process now)] :=
        List.forall_mem_singleton.mpr ⟨isFor, made.trans isFor⟩
      exact (confined.stage staged).say rfl isFor
  | discard =>
      obtain rfl := moves
      exact confined.discard.say rfl isFor
  | save =>
      cases reply with
      | ok _ =>
          obtain ⟨store, committed, rfl⟩ := moves
          have attributed := Stock.attributed_commit confined.attributed confined.isFor committed
          exact Confined.say ⟨confined.holds, attributed, Batch.isFor_nil, confined.visits⟩
            rfl isFor
      | error failure =>
          rcases moves with rfl | rfl
          · exact confined.discard.say rfl isFor
          · exact confined.say rfl isFor

theorem Clean.answer (clean : clerk.Clean site id visits) (isFor : request.IsFor site.owner id)
    (keeps : request.isStaging = false) (answers : clerk.Answers site request reply next) :
    next.Clean site id visits := by
  refine ⟨clean.toConfined.answer isFor answers, ?_⟩
  obtain ⟨moved, moves, rfl⟩ := answers.moves
  cases request with
  | lease _ | stageUpdates _ | stageStep _ _ => cases keeps
  | hold _ | discover _ | eligiblePage _ _ _ => cases isFor
  | note _ | now | isCancelled | stepTypes _ | prepare _ _ _ | needsLease _ _ | execute _ _ _ _
  | consult _ =>
      obtain rfl := moves
      exact clean.unstaged
  | held | pendingSteps _ =>
      obtain ⟨_, rfl⟩ := moves
      exact clean.unstaged
  | discard =>
      obtain rfl := moves
      rfl
  | save =>
      cases reply with
      | ok _ =>
          obtain ⟨store, _, rfl⟩ := moves
          rfl
      | error failure =>
          rcases moves with rfl | rfl
          · rfl
          · exact clean.unstaged

theorem Answers.made {process : Uuid} {steps : List PendingStep}
    (answers : clerk.Answers site (.pendingSteps process) (.ok steps) next)
    (attributed : Attributed site.owner (site.stock.entries clerk.store)) :
    ∀ step ∈ steps, site.owner step.id = process := by
  obtain ⟨moved, ⟨read, _⟩, _⟩ := answers.moves
  intro step member
  rw [read steps rfl] at member
  exact attributed _ (site.stock.mem_entries member)

/-! ### Requests -/

section Requests

variable {α : Type} {post : α → Clerk σ → Prop} {broken : Failure → Clerk σ → Prop}

theorem ask_bind {following : request.Reply → Action α} (confined : clerk.Confined site id visits)
    (isFor : request.IsFor site.owner id)
    (answered : ∀ later reply next, Answers site later request reply next →
      next.Confined site id visits →
        Obeys (attemptRules site id) post broken (following reply) next) :
    Obeys (attemptRules site id) post broken (ask request >>= following) clerk := by
  refine obeys_ask_bind stable_confined confined (fun _ confined => confined.mayAsk isFor) ?_
  intro later confined reply next answers
  exact answered later reply next answers (confined.answer isFor answers)

theorem clean_bind {following : request.Reply → Action α} (clean : clerk.Clean site id visits)
    (isFor : request.IsFor site.owner id) (keeps : request.isStaging = false)
    (answered : ∀ later reply next, Clean site id visits later →
      Answers site later request reply next → next.Clean site id visits →
        Obeys (attemptRules site id) post broken (following reply) next) :
    Obeys (attemptRules site id) post broken (ask request >>= following) clerk := by
  refine obeys_ask_bind stable_clean clean (fun _ clean => clean.toConfined.mayAsk isFor) ?_
  intro later clean reply next answers
  exact answered later reply next clean answers (clean.answer isFor keeps answers)

theorem note_obeys {notice : Notice} (clean : clerk.Clean site id visits) :
    Obeys (attemptRules site id) (fun _ => Clean site id visits) broken (note notice) clerk := by
  have isFor : Request.IsFor site.owner id (.note notice) := rfl
  rw [note]
  refine obeys_ask stable_clean clean (fun _ clean => clean.toConfined.mayAsk isFor) ?_
  intro later clean reply next answers
  exact clean.answer isFor rfl answers

theorem discard_bind {following : Unit → Action α} (confined : clerk.Confined site id visits)
    (dropped : ∀ next : Clerk σ, next.Clean site id visits →
      Obeys (attemptRules site id) post broken (following ()) next) :
    Obeys (attemptRules site id) post broken (Action.discard >>= following) clerk := by
  have isFor : Request.IsFor site.owner id .discard := rfl
  rw [Action.discard]
  refine ask_bind confined isFor fun later reply next answers confined => ?_
  refine dropped next ⟨confined, ?_⟩
  obtain ⟨moved, rfl, rfl⟩ := answers.moves
  rfl

theorem discard_obeys (confined : clerk.Confined site id visits) :
    Obeys (attemptRules site id) (fun _ => Clean site id visits) broken Action.discard clerk := by
  rw [← bind_pure Action.discard]
  exact discard_bind confined fun _ clean => obeys_pure clean

theorem lease_bind {operation : LeaseOp} {following : Bool → Action α}
    (confined : clerk.Confined site id visits)
    (staged : ∀ isStaged (next : Clerk σ), next.Confined site id visits →
      Obeys (attemptRules site id) post broken (following isStaged) next)
    (refused : ∀ failure next, Broken site id visits failure next → broken failure next) :
    Obeys (attemptRules site id) post broken (lease operation >>= following) clerk := by
  rw [Action.lease, bind_assoc]
  refine ask_bind confined rfl fun later reply next answers confined => ?_
  refine obeys_ofExcept_bind (fun isStaged _ => staged isStaged next confined) ?_
  rintro failure rfl
  exact refused failure next ⟨confined, answers.cancels⟩

/-- A release is never refused, and if there is no lease it stages nothing. -/
theorem release_bind {following : Bool → Action α} (clean : clerk.Clean site id visits)
    (leased : ∀ next : Clerk σ, next.Confined site id visits →
      Obeys (attemptRules site id) post broken (following true) next)
    (unleased : ∀ next : Clerk σ, next.Clean site id visits →
      Obeys (attemptRules site id) post broken (following false) next) :
    Obeys (attemptRules site id) post broken (lease .release >>= following) clerk := by
  have isFor : Request.IsFor site.owner id (.lease .release) := rfl
  rw [Action.lease, bind_assoc]
  refine obeys_ask_bind stable_clean clean (fun _ clean => clean.toConfined.mayAsk isFor) ?_
  intro later clean reply next answers
  have confined := clean.toConfined.answer isFor answers
  obtain ⟨moved, moves, rfl⟩ := answers.moves
  simp only [Moves, LeaseOp.perform, Process.releaseLease_eq] at moves
  by_cases isLeased : later.held.lease.isSome
  · simp only [isLeased, if_true] at moves
    obtain ⟨rfl, rfl⟩ := moves
    exact leased _ confined
  · simp only [isLeased] at moves
    obtain ⟨rfl, rfl⟩ := moves
    exact unleased _ ⟨confined, by simp [stage, clean.unstaged]⟩

theorem save_obeys (confined : clerk.Confined site id visits) :
    Obeys (attemptRules site id) (fun _ => Clean site id visits) (Broken site id visits) save
      clerk := by
  have isFor : Request.IsFor site.owner id .save := rfl
  rw [save]
  refine ask_bind confined isFor fun later reply next answers still => ?_
  cases reply with
  | ok _ =>
      refine obeys_pure ⟨still, ?_⟩
      obtain ⟨moved, ⟨store, _, rfl⟩, rfl⟩ := answers.moves
      rfl
  | error failure => exact obeys_throw ⟨still, answers.cancels⟩

end Requests

/-! ### The parts of an attempt -/

variable {term : LeaseTerm} {process : Process} {failure : Failure} {registry : Registry}

theorem cancels_of_expiryAfter {now : Timestamp}
    (calm : ∀ failure, term = .error failure → failure.isCancellation → site.cancels)
    (fails : Attempt.expiryAfter term now = .error failure) (cancelled : failure.isCancellation) :
    site.cancels := by
  cases term with
  | error refusal =>
      cases fails
      exact calm _ rfl cancelled
  | ok span =>
      have swallowed := Attempt.isSwallowed_of_expiryAfter fails
      exact absurd cancelled (by simp [swallowed.2])

section Term

variable (calm : ∀ failure, term = .error failure → failure.isCancellation → site.cancels)
include calm

theorem acquire_obeys (clean : clerk.Clean site id visits) :
    Obeys (attemptRules site id) (fun _ => Clean site id visits) (Broken site id visits)
      (Attempt.acquire term) clerk := by
  rw [Attempt.acquire]
  refine clean_bind clean rfl rfl fun _ now _ _ _ clean => ?_
  refine clean_bind clean rfl rfl fun _ process _ _ _ clean => ?_
  split
  · exact (note_obeys clean).bind fun _ _ clean => obeys_pure clean
  · refine obeys_ofExcept_bind (fun expiry _ => ?_) fun failure fails =>
      ⟨clean.toConfined, cancels_of_expiryAfter calm fails⟩
    refine lease_bind clean.toConfined (fun _ clerk confined => ?_) fun _ _ broken => broken
    refine ask_bind confined rfl fun _ _ clerk _ confined => ?_
    refine (save_obeys confined).outcome_bind ?_ ?_
    · intro _ clerk clean
      exact discard_bind clean.toConfined fun _ clean => obeys_pure clean
    · intro failure clerk broken
      dsimp only
      split
      · refine ask_bind broken.toConfined rfl fun _ _ clerk _ confined => ?_
        exact discard_bind confined fun _ clean => obeys_pure clean
      · exact discard_bind broken.toConfined fun _ clean =>
          obeys_throw ⟨clean.toConfined, broken.cancels⟩

theorem settle_obeys (confined : clerk.Confined site id visits) (result : DrainResult) :
    Obeys (attemptRules site id) (fun _ => Clean site id visits) (Broken site id visits)
      (Attempt.settle term result) clerk := by
  have commits : Obeys (attemptRules site id) (fun _ => Confined site id visits)
      (Broken site id visits) (Attempt.settle.commit term result) clerk := by
    cases result with
    | leaseRequested =>
        have renews : Obeys (attemptRules site id) (fun _ => Confined site id visits)
            (Broken site id visits) (Attempt.renew term) clerk := by
          refine ask_bind confined rfl fun _ now _ _ confined => ?_
          refine obeys_ofExcept_bind (fun expiry _ => ?_) fun failure fails =>
            ⟨confined, cancels_of_expiryAfter calm fails⟩
          refine lease_bind confined (fun _ clerk confined => ?_) fun _ _ broken => broken
          refine ask_bind confined rfl fun _ process _ _ confined => ?_
          exact ask_bind confined rfl fun _ _ _ _ confined => obeys_pure confined
        exact renews.bind fun _ _ confined =>
          (save_obeys confined).imp fun _ _ clean => clean.toConfined
    | saveRequested =>
        refine lease_bind confined (fun _ clerk confined => ?_) fun _ _ broken => broken
        exact (save_obeys confined).imp fun _ _ clean => clean.toConfined
    | unmodified => exact obeys_pure confined
  exact commits.bind fun _ _ confined =>
    discard_bind confined fun _ clean => obeys_pure clean

end Term

/-- The lease is given back, or its release has failed; in any case nothing is staged. -/
theorem releaseAfterFailure_obeys (clean : clerk.Clean site id visits) :
    Obeys (attemptRules site id) (fun _ => Clean site id visits)
      (fun failure clerk => clerk.Clean site id visits ∧ failure.isCancellation ∧ site.cancels)
      Attempt.releaseAfterFailure clerk := by
  rw [Attempt.releaseAfterFailure]
  refine release_bind clean (fun clerk confined => ?_) fun _ clean => obeys_pure clean
  refine (save_obeys confined).outcome_bind (fun _ _ clean => discard_obeys clean.toConfined) ?_
  intro failure clerk broken
  dsimp only
  split
  · rename_i cancelled
    exact discard_bind broken.toConfined fun _ clean =>
      obeys_throw ⟨clean, cancelled, broken.cancels cancelled⟩
  · refine ask_bind broken.toConfined rfl fun _ _ _ _ confined => ?_
    exact ask_bind confined rfl fun _ _ _ _ confined => discard_obeys confined

theorem recover_obeys (broken : Broken site id visits failure clerk) :
    Obeys (attemptRules site id) (fun _ => Clean site id visits)
      (fun failure clerk => clerk.Clean site id visits ∧ failure.isCancellation ∧ site.cancels)
      (Attempt.recover process failure) clerk := by
  rw [Attempt.recover]
  refine discard_bind broken.toConfined fun clerk clean => ?_
  split
  · exact note_obeys clean
  · split
    · rename_i cancelled
      exact obeys_throw ⟨clean, cancelled, broken.cancels cancelled⟩
    · exact (note_obeys clean).bind fun _ _ clean => releaseAfterFailure_obeys clean

end Clerk

end Workflow
