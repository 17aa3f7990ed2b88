import Workflow.Proofs.Attempt.Release
import Workflow.Proofs.Drain.Sequence

/-!
# The version and the expiry in the course of an attempt

If nothing goes wrong and nobody else writes the row of a process, the row tells what its
worker has done.  Its version counts the commits: one for the lease, one for each renewal,
one for each result that has changed something, and one for the end.  Its lease runs from
the last reading of the clock, which belongs to the lease or to the last renewal.
-/

namespace Workflow

open Workflow.Action Workflow.Drain

/-! ### Counting results -/

/-- The reading of the clock. -/
def Turn.reading? : Turn → Option Timestamp
  | ⟨.now, now⟩ => some now
  | _ => none

/-- The copy of a worker by what has been said: its version counts the results but the
last one, which has not been dealt with, and its lease runs from the last reading of the
clock. -/
structure Tally (term : LeaseTerm) (version : Int) (result : DrainResult) (copy : Process)
    (said : List Turn) : Prop where
  version : copy.version + result.renewals + result.saves =
    version + 1 + (Ledger.of said).renewals + (Ledger.of said).saves
  readings : (said.filterMap Turn.reading?).length + result.renewals =
    1 + (Ledger.of said).renewals
  expiry : ∃ now expiry, (said.filterMap Turn.reading?).getLast? = some now ∧
    term.Ends now expiry ∧ copy.lease = some expiry

namespace Tally

variable {term : LeaseTerm} {version : Int} {result : DrainResult} {copy : Process}
  {said : List Turn} {turn : Turn} {now expiry : Timestamp}

theorem first (mute : ∀ turn ∈ said, turn.request.isMute)
    (readings : said.filterMap Turn.reading? = [now])
    (expires : term.Ends now expiry) :
    Tally term copy.version .unmodified { copy.raiseVersion with lease := some expiry } said := by
  have ledger : Ledger.of said = .empty := @Ledger.of_append_of_isMute [] _ mute
  refine ⟨?_, ?_, now, expiry, ?_, expires, rfl⟩
  · rw [ledger]
    simp [DrainResult.renewals, DrainResult.saves, Ledger.empty, Process.raiseVersion]
  · simp [readings, ledger, DrainResult.renewals, Ledger.empty]
  · rw [readings]
    rfl

theorem tell (tally : Tally term version .unmodified copy said) (silent : turn.reading? = none) :
    Tally term version ((Ledger.of said).due turn) copy (said ++ [turn]) := by
  obtain ⟨sameVersion, readings, expiry⟩ := tally
  have same : (said ++ [turn]).filterMap Turn.reading? = said.filterMap Turn.reading? := by
    simp [silent]
  simp only [DrainResult.renewals, DrainResult.saves] at sameVersion readings
  constructor
  · rw [Ledger.of_append_singleton, Ledger.renewals_record, Ledger.saves_record]
    omega
  · rw [Ledger.of_append_singleton, Ledger.renewals_record, same]
    omega
  · rwa [same]

theorem hear (tally : Tally term version result copy said) (turn : Turn)
    (silent : turn.reading? = none)
    (other : turn.request.isForExecutor = false) :
    Tally term version result copy (said ++ [turn]) := by
  obtain ⟨sameVersion, readings, expiry⟩ := tally
  have same : (said ++ [turn]).filterMap Turn.reading? = said.filterMap Turn.reading? := by
    simp [silent]
  have renewals : (Ledger.of (said ++ [turn])).renewals = (Ledger.of said).renewals := by
    rw [Ledger.of_append_singleton, Ledger.renewals_record, Ledger.due_of_not_isForExecutor _ other]
    rfl
  have saves : (Ledger.of (said ++ [turn])).saves = (Ledger.of said).saves := by
    rw [Ledger.of_append_singleton, Ledger.saves_record, Ledger.due_of_not_isForExecutor _ other]
    rfl
  exact ⟨by rwa [renewals, saves], by rwa [renewals, same], by rwa [same]⟩

theorem hearAll (tally : Tally term version result copy said) (turns : List Turn)
    (silent : ∀ turn ∈ turns, turn.reading? = none ∧ turn.request.isForExecutor = false) :
    Tally term version result copy (said ++ turns) := by
  induction turns generalizing said with
  | nil => rwa [List.append_nil]
  | cons turn turns induction =>
      obtain ⟨unread, other⟩ := silent turn List.mem_cons_self
      have later := induction (tally.hear turn unread other) fun next member =>
        silent next (List.mem_cons_of_mem turn member)
      rwa [List.append_assoc] at later

theorem raise (tally : Tally term version .saveRequested copy said) :
    Tally term version .unmodified copy.raiseVersion said := by
  obtain ⟨sameVersion, readings, expiry⟩ := tally
  refine ⟨?_, readings, expiry⟩
  simp only [DrainResult.renewals, DrainResult.saves, Process.raiseVersion] at sameVersion ⊢
  omega

theorem renew (tally : Tally term version .leaseRequested copy said)
    (expires : term.Ends now expiry) :
    Tally term version .unmodified { copy.raiseVersion with lease := some expiry }
      (said ++ [⟨.now, now⟩]) := by
  obtain ⟨sameVersion, readings, _⟩ := tally
  have ledger : Ledger.of (said ++ [⟨.now, now⟩]) = Ledger.of said := by
    rw [Ledger.of_append_singleton, Ledger.record_of_isMute rfl]
  have last : (said ++ [⟨.now, now⟩] : List Turn).filterMap Turn.reading? =
      said.filterMap Turn.reading? ++ [now] := by
    simp [Turn.reading?]
  simp only [DrainResult.renewals, DrainResult.saves] at sameVersion readings
  constructor
  · rw [ledger]
    simp only [DrainResult.renewals, DrainResult.saves, Process.raiseVersion]
    omega
  · rw [ledger, last, List.length_append]
    simp only [DrainResult.renewals, List.length_singleton]
    omega
  · rw [last]
    exact ⟨now, expiry, List.getLast?_concat, expires, rfl⟩

end Tally

/-! ### The row of the process -/

/-- The change leaves the row of a process alone. -/
def Change.sparesRow (process : Uuid) : Change → Bool
  | insertProcess inserted => inserted.id != process
  | updateProcess id _ _ => id != process
  | _ => true

theorem Batch.processAfter?_of_sparesRow {batch : Batch} {process : Process}
    (spares : ∀ change ∈ batch, change.sparesRow process.id) :
    Batch.processAfter? batch process = some process := by
  induction batch with
  | nil => rfl
  | cons change batch induction =>
      have kept : change.processAfter? process = some process := by
        have spared := spares change List.mem_cons_self
        cases change with
        | insertProcess _ | updateProcess _ _ _ =>
            have other := bne_iff_ne.mp spared
            simp [Change.processAfter?, other]
        | _ => rfl
      rw [processAfter?_cons, kept]
      exact induction fun other member => spares other (List.mem_cons_of_mem change member)

theorem Rows.process?_commit_update {rows after : Rows} {copy : Process} {batch : Batch}
    {update : ProcessUpdate} (anchored : rows.Anchors copy)
    (spares : ∀ change ∈ batch, change.sparesRow copy.id)
    (committed : rows.commit (batch ++ [.updateProcess copy.id copy.version update]) = .ok after) :
    after.process? copy.id = some (update.apply copy) := by
  obtain ⟨stored, found, _, same⟩ := anchored
  obtain ⟨final, followed, finalFound⟩ := Rows.process?_commit committed found
  have storedId : stored.id = copy.id := Rows.id_of_process? found
  rw [Batch.processAfter?_append, Batch.processAfter?_of_sparesRow (storedId ▸ spares)] at followed
  simp only [Option.bind_some, Batch.processAfter?_cons, Change.processAfter?, storedId,
    if_true] at followed
  split at followed
  · rename_i expected
    obtain rfl : stored = copy := same expected
    cases followed
    exact finalFound
  · cases followed

/-- The conversation that a history records. -/
def Exchange.said (log : List Exchange) : List Turn :=
  log.map fun exchange => ⟨exchange.request, exchange.reply⟩

def Passage.said (passage : Passage) : List Turn :=
  Exchange.said passage.log

/-- Nothing goes wrong with a request: the process is found unlocked, no expiry lies beyond
the calendar, saves and executors work, and what executors stage leaves the row of the
process alone. -/
def Scene.IsSmooth (term : LeaseTerm) (id : Uuid) (scene : Scene) :
    (request : Request) → request.Reply → Scene → Prop
  | .now, now, _ =>
    (scene.saves = [] → scene.held.isLeased now = false) ∧
      ∃ expiry, Attempt.expiryAfter term now = .ok expiry
  | .save, reply, _ => reply = .ok ()
  | .prepare _ _ _, reply, next | .needsLease _ _, reply, next
  | .execute _ _ _ _, reply, next =>
    (∀ failure, reply ≠ .error failure) ∧ ∃ batch, next.staged = scene.staged ++ batch ∧
      ∀ change ∈ batch, change.sparesRow id
  | _, _, _ => True

/-- The turns of a renewal: the clock is read, and a lease that runs from this reading is
committed. -/
def IsRenewal (term : LeaseTerm) (turns : List Turn) : Prop :=
  ∃ now expiry copy, term.Ends now expiry ∧
    turns = [⟨.now, now⟩, ⟨.lease (.renew expiry), .ok true⟩, ⟨.held, copy⟩,
      ⟨.note (.renewed copy.id expiry), ()⟩, ⟨.save, .ok ()⟩, ⟨.discard, ()⟩]

namespace Passage

/-- Others leave the row of a process alone. -/
structure SparesRow (id : Uuid) (passage later : Passage) : Prop where
  log : later.log = passage.log
  station : later.scene.toStation = passage.scene.toStation
  row : later.scene.rows.process? id = passage.scene.rows.process? id

/-- How a request is answered and recorded if nothing goes wrong. -/
structure AnswersSmoothly (habits : Habits) (term : LeaseTerm) (id : Uuid) (passage : Passage)
    (request : Request) (reply : request.Reply) (next : Passage) : Prop where
  scene : passage.scene.Answers habits request reply next.scene
  smooth : passage.scene.IsSmooth term id request reply next.scene
  log : next.log = passage.log ++ [⟨passage.scene, request, reply, next.scene⟩]

/-- The rules of a process whose row nobody else writes, where nothing goes wrong. -/
def smoothRules (habits : Habits) (term : LeaseTerm) (id : Uuid)
    (mayAsk : Passage → Request → Prop) : Rules Passage where
  others := SparesRow id
  mayAsk := mayAsk
  answers := AnswersSmoothly habits term id

/-- How a worker stands that holds the lease while a result has to be dealt with. -/
structure Owes (term : LeaseTerm) (id : Uuid) (version : Int) (result : DrainResult)
    (passage : Passage) : Prop where
  holds : passage.scene.held.id = id
  stored : passage.scene.rows.process? id = some passage.scene.held
  spares : ∀ change ∈ passage.scene.staged, change.sparesRow id
  tally : Tally term version result passage.scene.held passage.said

/-- A step is run under a lease that is accounted for, and that has just been renewed if the
executor asked for it. -/
def MayRequest (term : LeaseTerm) (id : Uuid) (version : Int) (passage : Passage) : Request → Prop
  | .execute runner _ type _ =>
    passage.Owes term id version .unmodified ∧
      ∃ before needed handled, passage.said = before ++ ⟨.isCancelled, false⟩ ::
        ⟨.needsLease runner type, .ok needed⟩ :: handled ∧
          (needed = true → IsRenewal term handled) ∧ (needed = false → handled = [])
  | _ => True

/-- Something has failed like a lost race or a cancellation. -/
def Mishap (passage : Passage) : Prop :=
  ∃ turn ∈ passage.said, ∃ failure, turn.failure? = some failure ∧ ¬failure.IsSwallowed

/-- What is certain of a drain under a lease. -/
def leasing (habits : Habits) (term : LeaseTerm) (id : Uuid) (version : Int) : Watch Passage where
  rules := smoothRules habits term id (MayRequest term id version)
  said := said
  owes := Owes term id version
  broken failure passage :=
    passage.Owes term id version .unmodified ∧ (failure.IsSwallowed ∨ passage.Mishap)
  renewed handled _ := IsRenewal term handled

variable {habits : Habits} {term : LeaseTerm} {id : Uuid} {version : Int} {copy : Process}
  {result : DrainResult} {lease : Field (Option Timestamp)} {passage later next : Passage}
  {request : Request} {reply : request.Reply}

theorem AnswersSmoothly.said (answers : passage.AnswersSmoothly habits term id request reply next) :
    next.said = passage.said ++ [⟨request, reply⟩] := by
  rw [Passage.said, answers.log, Exchange.said, List.map_append]
  rfl

theorem AnswersSmoothly.mute
    (answers : passage.AnswersSmoothly habits term id request reply next) (mute : request.isMute)
    (before : ∀ turn ∈ passage.said, turn.request.isMute) :
    ∀ turn ∈ next.said, turn.request.isMute := by
  intro turn member
  rw [answers.said] at member
  rcases List.mem_append.mp member with earlier | last
  · exact before turn earlier
  · rw [List.mem_singleton.mp last]
    exact mute

theorem SparesRow.said (spares : passage.SparesRow id later) : later.said = passage.said := by
  rw [Passage.said, spares.log]
  rfl

theorem SparesRow.held (spares : passage.SparesRow id later) :
    later.scene.held = passage.scene.held :=
  congrArg Station.held spares.station

theorem SparesRow.staged (spares : passage.SparesRow id later) :
    later.scene.staged = passage.scene.staged :=
  congrArg Station.staged spares.station

theorem Owes.sparesRow (owes : passage.Owes term id version result)
    (spares : passage.SparesRow id later) : later.Owes term id version result where
  holds := spares.held ▸ owes.holds
  stored := spares.held ▸ spares.row ▸ owes.stored
  spares := spares.staged ▸ owes.spares
  tally := spares.held ▸ spares.said ▸ owes.tally

theorem Mishap.sparesRow (mishap : passage.Mishap) (spares : passage.SparesRow id later) :
    later.Mishap := by
  rw [Mishap, spares.said]
  exact mishap

theorem Mishap.answer (mishap : passage.Mishap)
    (answers : passage.AnswersSmoothly habits term id request reply next) : next.Mishap := by
  obtain ⟨turn, member, failed⟩ := mishap
  exact ⟨turn, answers.said ▸ List.mem_append_left _ member, failed⟩

/-- A drain changes neither the copy nor the rows by what it asks on its own. -/
theorem AnswersSmoothly.stages
    (answers : passage.AnswersSmoothly habits term id request reply next)
    (asked : request.isInquiry ∨ request.isForExecutor) :
    next.scene.held = passage.scene.held ∧ next.scene.rows = passage.scene.rows ∧
      ∃ batch, next.scene.staged = passage.scene.staged ++ batch ∧
        ∀ change ∈ batch, change.sparesRow id := by
  obtain ⟨answered, smooth, _⟩ := answers
  cases request with
  | note _ | isCancelled => exact answered ▸ ⟨rfl, rfl, [], by simp, by simp⟩
  | pendingSteps _ | stepTypes _ =>
      obtain ⟨_, _, same⟩ := answered
      exact same ▸ ⟨rfl, rfl, [], by simp, by simp⟩
  | stageUpdates updates =>
      obtain ⟨now, same⟩ := answered
      refine same ▸ ⟨rfl, rfl, _, rfl, ?_⟩
      intro change member
      obtain ⟨update, _, rfl⟩ := List.mem_map.mp member
      rfl
  | stageStep type process =>
      obtain ⟨now, same⟩ := answered
      refine same ▸ ⟨rfl, rfl, _, rfl, ?_⟩
      intro change member
      rw [List.mem_singleton.mp member]
      rfl
  | prepare _ _ _ | needsLease _ _ | execute _ _ _ _ =>
      obtain ⟨_, staged, _, same⟩ := answered
      obtain ⟨_, batch, stages, spares⟩ := smooth
      refine ⟨?_, ?_, batch, stages, spares⟩ <;> rw [same] <;> rfl
  | _ => simp [Request.isInquiry, Request.isForExecutor] at asked

theorem Owes.stages {owed : DrainResult} (owes : passage.Owes term id version result)
    (answers : passage.AnswersSmoothly habits term id request reply next)
    (asked : request.isInquiry ∨ request.isForExecutor)
    (tally : Tally term version owed passage.scene.held next.said) :
    next.Owes term id version owed := by
  obtain ⟨held, rows, batch, staged, spares⟩ := answers.stages asked
  refine ⟨held ▸ owes.holds, ?_, ?_, held ▸ tally⟩
  · rw [held, rows]
    exact owes.stored
  · intro change member
    rcases List.mem_append.mp (staged ▸ member) with before | added
    · exact owes.spares change before
    · exact spares change added

end Passage

/-! ### The parts of an attempt -/

theorem Rows.Anchors.congr {rows after : Rows} {copy : Process} (anchored : rows.Anchors copy)
    (same : after.process? copy.id = rows.process? copy.id) : after.Anchors copy := by
  obtain ⟨stored, found, rest⟩ := anchored
  exact ⟨stored, same.trans found, rest⟩

namespace Passage

/-- An update of a copy of the process has been staged behind changes of other rows. -/
structure Updates (id : Uuid) (copy : Process) (lease : Field (Option Timestamp))
    (passage : Passage) : Prop where
  id_copy : copy.id = id
  anchored : passage.scene.rows.Anchors copy
  held : passage.scene.held =
    { copy with version := copy.version + 1, lease := lease.apply copy.lease }
  staged : ∃ batch, (∀ change ∈ batch, change.sparesRow copy.id) ∧ passage.scene.staged =
    batch ++ [.updateProcess copy.id copy.version ⟨copy.version + 1, lease⟩]

variable {habits : Habits} {term : LeaseTerm} {id : Uuid} {version : Int} {copy : Process}
  {result : DrainResult} {lease : Field (Option Timestamp)} {passage later next : Passage}
  {request : Request} {reply : request.Reply} {operation : LeaseOp}
  {staged : Except Failure Bool} {α : Type} {final : α → Passage → Prop}
  {broken : Failure → Passage → Prop}

theorem SparesRow.refl (id : Uuid) (passage : Passage) : passage.SparesRow id passage :=
  ⟨rfl, rfl, rfl⟩

theorem SparesRow.trans (first : passage.SparesRow id later) (second : later.SparesRow id next) :
    passage.SparesRow id next :=
  ⟨second.log.trans first.log, second.station.trans first.station, second.row.trans first.row⟩

theorem Updates.sparesRow (updates : passage.Updates id copy lease)
    (spares : passage.SparesRow id later) : later.Updates id copy lease where
  id_copy := updates.id_copy
  anchored := updates.anchored.congr (updates.id_copy ▸ spares.row)
  held := spares.held.trans updates.held
  staged := spares.staged ▸ updates.staged

theorem Updates.same (updates : passage.Updates id copy lease) (same : next.scene = passage.scene) :
    next.Updates id copy lease :=
  ⟨updates.id_copy, same ▸ updates.anchored, same ▸ updates.held, same ▸ updates.staged⟩

theorem obeys_request_bind {next : request.Reply → Action α}
    (free : ∀ passage, MayRequest term id version passage request)
    (answered : ∀ later, passage.SparesRow id later → ∀ reply after,
      later.AnswersSmoothly habits term id request reply after →
        Obeys (leasing habits term id version).rules final broken (next reply) after) :
    Obeys (leasing habits term id version).rules final broken (ask request >>= next) passage :=
  have stable : (leasing habits term id version).rules.Stable (passage.SparesRow id) :=
    fun _ _ => SparesRow.trans
  obeys_ask_bind stable (.refl id passage) (fun _ _ => free _) answered

theorem lease_bind_obeys {following : Bool → Action α} (lease : Field (Option Timestamp))
    (holds : passage.scene.held.id = id) (anchored : passage.scene.rows.Anchors passage.scene.held)
    (spares : ∀ change ∈ passage.scene.staged, change.sparesRow id)
    (performed : operation.perform passage.scene.held = .ok
      ({ passage.scene.held with
        version := passage.scene.held.version + 1
        lease := lease.apply passage.scene.held.lease },
      [.updateProcess passage.scene.held.id passage.scene.held.version
        ⟨passage.scene.held.version + 1, lease⟩]))
    (answered : ∀ raised : Passage, raised.Updates id passage.scene.held lease →
      raised.said = passage.said ++ [⟨.lease operation, .ok true⟩] →
        Obeys (leasing habits term id version).rules final broken (following true) raised) :
    Obeys (leasing habits term id version).rules final broken
      (Action.lease operation >>= following) passage := by
  rw [Action.lease, bind_assoc]
  refine obeys_request_bind (fun _ => trivial) ?_
  intro later others reply raised answers
  have held : later.scene.held = passage.scene.held := others.held
  have row := holds ▸ others.row
  obtain ⟨rfl, same⟩ := (Scene.answers_lease_iff (held ▸ performed)).mp answers.scene
  rw [held] at same
  refine answered raised ⟨holds, ?_, same ▸ rfl, later.scene.staged, ?_, same ▸ rfl⟩ ?_
  · rw [same]
    exact anchored.congr row
  · rw [others.staged, holds]
    exact spares
  · rw [answers.said, others.said]
    rfl

/-- What a save leaves behind: the stored process is the copy. -/
structure HasSaved (id : Uuid) (passage next : Passage) : Prop where
  said : next.said = passage.said ++ [⟨.save, .ok ()⟩]
  held : next.scene.held = passage.scene.held
  stored : next.scene.rows.process? id = some next.scene.held
  unstaged : next.scene.staged = []

theorem HasSaved.owes (saved : HasSaved id passage next) (holds : passage.scene.held.id = id)
    (tally : Tally term version .unmodified next.scene.held next.said) :
    next.Owes term id version .unmodified :=
  ⟨saved.held ▸ holds, saved.stored, by simp [saved.unstaged], tally⟩

theorem save_obeys (updates : passage.Updates id copy lease) :
    Obeys (leasing habits term id version).rules (fun _ => HasSaved id passage)
      (fun _ _ => False) save passage := by
  refine obeys_request_bind (fun _ => trivial) ?_
  intro later spares reply next answers
  have updates := updates.sparesRow spares
  have said := answers.said
  rw [spares.said] at said
  obtain ⟨batch, others, staged⟩ := updates.staged
  cases reply with
  | error failure => cases answers.smooth
  | ok _ =>
      obtain ⟨after, commits, same⟩ := answers.scene
      have committed := Rows.process?_commit_update updates.anchored others (staged ▸ commits.1)
      rw [updates.id_copy] at committed
      have held : next.scene.held = later.scene.held := same ▸ rfl
      refine obeys_pure ⟨said, held.trans spares.held, ?_, same ▸ rfl⟩
      rw [held, updates.held, same]
      exact committed

/-- A renewal takes a reading of the clock and stages the lease that runs from it. -/
theorem renew_obeys (owes : passage.Owes term id version .leaseRequested) :
    Obeys (leasing habits term id version).rules
      (fun _ next => ∃ now expiry copy, term.Ends now expiry ∧
        next.said = passage.said ++ [⟨.now, now⟩, ⟨.lease (.renew expiry), .ok true⟩,
          ⟨.held, copy⟩, ⟨.note (.renewed copy.id expiry), ()⟩] ∧
        next.Updates id passage.scene.held (.write (some expiry)))
      (fun _ _ => False) (Attempt.renew term) passage := by
  rw [Attempt.renew]
  refine obeys_request_bind (fun _ => trivial) ?_
  intro later spares now read answersNow
  have owes := owes.sparesRow spares
  obtain ⟨_, expiry, expires⟩ := answersNow.smooth
  have saidNow := answersNow.said
  obtain ⟨scene, log⟩ := read
  obtain rfl : scene = later.scene.read now := answersNow.scene
  rw [expires]
  change Obeys _ _ _ (Action.lease (.renew expiry) >>= _) _
  refine lease_bind_obeys (.write (some expiry)) owes.holds (Rows.anchors_of_process? owes.stored)
    owes.spares rfl ?_
  intro renewed updates saidRenewed
  replace updates : renewed.Updates id passage.scene.held (.write (some expiry)) :=
    spares.held ▸ updates
  change Obeys _ _ _ (ask .held >>= _) _
  refine obeys_request_bind (fun _ => trivial) ?_
  intro holding sparesLease copy told answersHeld
  have updates := (updates.sparesRow sparesLease).same answersHeld.scene.2
  refine obeys_request_bind (fun _ => trivial) ?_
  intro noting sparesHeld _ noted answersNote
  have updates := (updates.sparesRow sparesHeld).same answersNote.scene
  refine obeys_pure ⟨now, expiry, copy, Attempt.ends_of_expiryAfter expires, ?_, updates⟩
  rw [answersNote.said, sparesHeld.said, answersHeld.said, sparesLease.said, saidRenewed, saidNow,
    spares.said]
  simp

/-- A unit of work is committed. -/
theorem commit_obeys (owes : passage.Owes term id version result) :
    Obeys (leasing habits term id version).rules
      (fun _ next => next.Owes term id version .unmodified ∧ ∃ handled,
        next.said = passage.said ++ handled ∧ (∀ turn ∈ handled, turn.request.isMute) ∧
          (result = .leaseRequested → IsRenewal term (handled ++ [⟨.discard, ()⟩])))
      (leasing habits term id version).broken (Attempt.settle.commit term result) passage := by
  cases result with
  | unmodified => exact obeys_pure ⟨owes, [], by simp, by simp, by simp⟩
  | saveRequested =>
      rw [Attempt.settle.commit]
      refine lease_bind_obeys .keep owes.holds (Rows.anchors_of_process? owes.stored) owes.spares
        rfl ?_
      intro raised updates saidRaised
      refine ((save_obeys updates).imp ?_).imp_broken fun _ _ => False.elim
      intro _ next saved
      have said : next.said = passage.said ++ [⟨.lease .raise, .ok true⟩, ⟨.save, .ok ()⟩] := by
        rw [saved.said, saidRaised, List.append_assoc]
        rfl
      have tally := owes.tally.hearAll [⟨.lease .raise, .ok true⟩, ⟨.save, .ok ()⟩]
        (by simp [Turn.reading?, Request.isForExecutor])
      rw [← said] at tally
      have raised : next.scene.held = passage.scene.held.raiseVersion :=
        saved.held.trans updates.held
      exact ⟨saved.owes (updates.held ▸ owes.holds) (raised ▸ tally.raise), _, said,
        by simp [Request.isMute], by simp⟩
  | leaseRequested =>
      rw [Attempt.settle.commit]
      refine ((renew_obeys owes).imp_broken fun _ _ => False.elim).bind ?_
      rintro _ renewed ⟨now, expiry, copy, expires, saidRenewed, updates⟩
      refine ((save_obeys updates).imp ?_).imp_broken fun _ _ => False.elim
      intro _ next saved
      have said : next.said = passage.said ++ [⟨.now, now⟩, ⟨.lease (.renew expiry), .ok true⟩,
          ⟨.held, copy⟩, ⟨.note (.renewed copy.id expiry), ()⟩, ⟨.save, .ok ()⟩] := by
        rw [saved.said, saidRenewed, List.append_assoc]
        rfl
      have tally := (owes.tally.renew expires).hearAll [⟨.lease (.renew expiry), .ok true⟩,
        ⟨.held, copy⟩, ⟨.note (.renewed copy.id expiry), ()⟩, ⟨.save, .ok ()⟩]
        (by simp [Turn.reading?, Request.isForExecutor])
      rw [List.append_assoc, List.singleton_append, ← said] at tally
      have moved : next.scene.held =
          { passage.scene.held.raiseVersion with lease := some expiry } :=
        saved.held.trans updates.held
      exact ⟨saved.owes (updates.held ▸ owes.holds) (moved ▸ tally), _, said,
        by simp [Request.isMute], fun _ => ⟨now, expiry, copy, expires, rfl⟩⟩

/-- What is staged under a lease can be dropped once nothing has to be saved. -/
theorem Owes.discard (owes : passage.Owes term id version result) {reply : Unit}
    (answers : passage.AnswersSmoothly habits term id .discard reply next) :
    next.Owes term id version result := by
  have tally := owes.tally.hear ⟨.discard, reply⟩ rfl rfl
  rw [← answers.said] at tally
  have same : next.scene = passage.scene.discard := answers.scene
  exact ⟨same ▸ owes.holds, same ▸ owes.stored, by simp [same, Scene.discard], same ▸ tally⟩

theorem settle_obeys (owes : passage.Owes term id version result) :
    Obeys (leasing habits term id version).rules
      (fun _ next => next.Owes term id version .unmodified ∧ ∃ handled,
        next.said = passage.said ++ handled ∧ (∀ turn ∈ handled, turn.request.isMute) ∧
          (result = .leaseRequested → IsRenewal term handled))
      (leasing habits term id version).broken (Attempt.settle term result) passage := by
  rw [Attempt.settle]
  refine (commit_obeys owes).bind ?_
  rintro _ committed ⟨owes, handled, said, mute, renewal⟩
  refine obeys_request_bind (fun _ => trivial) ?_
  intro later spares _ next answers
  refine obeys_pure ⟨(owes.sparesRow spares).discard answers, handled ++ [⟨.discard, ()⟩], ?_, ?_,
    renewal⟩
  · rw [answers.said, spares.said, said, List.append_assoc]
  · intro turn member
    rcases List.mem_append.mp member with before | last
    · exact mute turn before
    · rw [List.mem_singleton.mp last]
      rfl

end Passage

namespace Passage

variable {habits : Habits} {term : LeaseTerm} {id : Uuid} {version : Int} {copy : Process}
  {result : DrainResult} {passage later next : Passage} {request : Request}
  {reply : request.Reply} {executor : ProcessType} {executable : List StepType}

theorem reading?_eq_none (asked : request.isInquiry ∨ request.isForExecutor) :
    Turn.reading? ⟨request, reply⟩ = none := by
  cases request <;> first | rfl | simp [Request.isInquiry, Request.isForExecutor] at asked

theorem asked_of_failure? {failure : Failure}
    (fails : Turn.failure? ⟨request, reply⟩ = some failure) :
    request.isInquiry ∨ request.isForExecutor := by
  cases request with
  | pendingSteps _ | stepTypes _ => exact .inl rfl
  | prepare _ _ _ | needsLease _ _ | execute _ _ _ _ => exact .inr rfl
  | _ => cases fails

theorem AnswersSmoothly.failure?_eq_none
    (answers : passage.AnswersSmoothly habits term id request reply next)
    (isForExecutor : request.isForExecutor) : Turn.failure? ⟨request, reply⟩ = none := by
  have smooth := answers.smooth
  cases request with
  | prepare _ _ _ | needsLease _ _ | execute _ _ _ _ =>
      cases reply with
      | ok _ => rfl
      | error failure => exact absurd rfl (smooth.1 failure)
  | _ => cases isForExecutor

theorem leasing_isKept :
    (leasing habits term id version).IsKept executor executable id (Attempt.settle term) where
  others spares := spares.said
  stableOwes _ _ _ owes spares := owes.sparesRow spares
  stableRenewed _ _ _ renewal _ := renewal
  answers answered := answered.said
  mayAsk {_ _ request} _ inquiry := by
    cases request <;> trivial
  mayExecute owes isDue renewed := by
    obtain ⟨before, said, _, unneeded⟩ := isDue.asked
    exact ⟨owes, before, _, _, said, renewed, unneeded⟩
  replies owes inquiry other _ answers :=
    owes.stages answers (.inl inquiry)
      (answers.said ▸ owes.tally.hear _ (reading?_eq_none (.inl inquiry)) other)
  tells owes isForExecutor _ answers :=
    owes.stages answers (.inr isForExecutor)
      (answers.said ▸ owes.tally.tell (reading?_eq_none (.inr isForExecutor)))
  fails {failure state request reply next} owes fails answers := by
    have other : request.isForExecutor = false := by
      by_contra isFor
      have works := answers.failure?_eq_none (by simpa using isFor)
      simp [works] at fails
    have owes := owes.stages answers (asked_of_failure? fails)
      (answers.said ▸ owes.tally.hear _ (reading?_eq_none (asked_of_failure? fails)) other)
    refine ⟨owes, ?_⟩
    by_cases swallowed : failure.IsSwallowed
    · exact .inl swallowed
    · exact .inr ⟨_, by simp [answers.said], failure, fails, swallowed⟩
  consumes owes := settle_obeys owes

/-- Nothing has been saved yet. -/
structure Opens (id : Uuid) (copy : Process) (passage : Passage) : Prop where
  held : passage.scene.held = copy
  holds : copy.id = id
  anchored : passage.scene.rows.Anchors copy
  unstaged : passage.scene.staged = []
  unsaved : passage.scene.saves = []
  mute : ∀ turn ∈ passage.said, turn.request.isMute

theorem opens_of_beginning {start : Scene} (begins : start.Beginning id) :
    Opens id start.held ⟨start, []⟩ where
  held := rfl
  holds := begins.holds
  anchored := begins.anchored
  unstaged := begins.unstaged
  unsaved := begins.unsaved
  mute _ member := by cases member

theorem Opens.sparesRow (opens : passage.Opens id copy) (spares : passage.SparesRow id later) :
    later.Opens id copy where
  held := spares.held.trans opens.held
  holds := opens.holds
  anchored := opens.anchored.congr (opens.holds ▸ spares.row)
  unstaged := spares.staged.trans opens.unstaged
  unsaved := (congrArg Station.saves spares.station).trans opens.unsaved
  mute := spares.said ▸ opens.mute

/-- A question about the time or the copy changes at most the last reading of the clock. -/
theorem Opens.answer (opens : passage.Opens id copy)
    (answers : passage.AnswersSmoothly habits term id request reply next) (mute : request.isMute)
    (same : ∃ reading, next.scene = { passage.scene with reading }) : next.Opens id copy := by
  obtain ⟨reading, same⟩ := same
  exact ⟨same ▸ opens.held, opens.holds, same ▸ opens.anchored, same ▸ opens.unstaged,
    same ▸ opens.unsaved, answers.mute mute opens.mute⟩

/-- The lease is taken, under the next version. -/
theorem acquire_obeys (opens : passage.Opens id copy)
    (unread : passage.said.filterMap Turn.reading? = []) :
    Obeys (leasing habits term id copy.version).rules
      (fun isLeased next => isLeased = true ∧ next.Owes term id copy.version .unmodified ∧
        ∀ turn ∈ next.said, turn.request.isMute)
      (fun _ _ => False) (Attempt.acquire term) passage := by
  rw [Attempt.acquire]
  refine obeys_request_bind (fun _ => trivial) ?_
  intro later spares now read answersNow
  have opens := opens.sparesRow spares
  obtain ⟨free, expiry, expires⟩ := answersNow.smooth
  have free : copy.isLeased now = false := opens.held ▸ free opens.unsaved
  have opens := opens.answer answersNow rfl ⟨some now, answersNow.scene⟩
  refine obeys_request_bind (fun _ => trivial) ?_
  intro waiting sparesNow process told answersHeld
  have opens := opens.sparesRow sparesNow
  obtain ⟨rfl, same⟩ := answersHeld.scene
  rw [opens.held, if_neg (by simp [free]), expires]
  have opens := opens.answer answersHeld rfl ⟨_, same⟩
  change Obeys _ _ _ (Action.lease (.request expiry now) >>= _) _
  refine lease_bind_obeys (.write (some expiry)) (opens.held ▸ opens.holds)
    (opens.held.symm ▸ opens.anchored) (by simp [opens.unstaged])
    (Process.requestLease_eq_ok_iff.mpr ⟨opens.held ▸ free, rfl, rfl⟩) ?_
  intro leased updates saidLeased
  rw [opens.held] at updates
  change Obeys _ _ _ (ask (.note _) >>= _) _
  refine obeys_request_bind (fun _ => trivial) ?_
  intro noting sparesLease _ noted answersNote
  have updates := (updates.sparesRow sparesLease).same answersNote.scene
  refine (save_obeys updates).outcome_bind ?_ fun _ _ => False.elim
  intro _ saving saved
  have said : saving.said = told.said ++ [⟨.lease (.request expiry now), .ok true⟩,
      ⟨.note (.leased copy.id expiry), ()⟩, ⟨.save, .ok ()⟩] := by
    rw [saved.said, answersNote.said, sparesLease.said, saidLeased]
    simp
  have mute : ∀ turn ∈ saving.said, turn.request.isMute := by
    intro turn member
    rw [said, List.mem_append] at member
    rcases member with before | added
    · exact opens.mute turn before
    · simp only [List.mem_cons, List.not_mem_nil, or_false] at added
      rcases added with rfl | rfl | rfl <;> rfl
  have readings : saving.said.filterMap Turn.reading? = [now] := by
    rw [said, answersHeld.said, sparesNow.said, answersNow.said, spares.said]
    simp [unread, Turn.reading?]
  have leased : saving.scene.held = { copy.raiseVersion with lease := some expiry } :=
    saved.held.trans updates.held
  have owes : saving.Owes term id copy.version .unmodified :=
    saved.owes (updates.held ▸ opens.holds)
      (leased ▸ .first mute readings (Attempt.ends_of_expiryAfter expires))
  refine obeys_request_bind (fun _ => trivial) ?_
  intro later spares _ next answers
  exact obeys_pure ⟨rfl, (owes.sparesRow spares).discard answers,
    answers.mute rfl (spares.said ▸ mute)⟩

end Passage

namespace Passage

/-- The lease has been given back, one version after the last commit. -/
structure IsClosed (id : Uuid) (version : Int) (passage : Passage) : Prop where
  stored : passage.scene.rows.process? id = some passage.scene.held
  lease : passage.scene.held.lease = none
  version : passage.scene.held.version =
    version + 2 + (Ledger.of passage.said).renewals + (Ledger.of passage.said).saves

variable {habits : Habits} {term : LeaseTerm} {id : Uuid} {version : Int} {copy process : Process}
  {passage later next released : Passage} {request : Request} {reply : request.Reply} {α : Type}
  {final : α → Passage → Prop} {broken : Failure → Passage → Prop} {registry : Registry}
  {failure : Failure}

theorem IsClosed.sparesRow (closed : passage.IsClosed id version)
    (spares : passage.SparesRow id later) : later.IsClosed id version where
  stored := spares.held ▸ spares.row ▸ closed.stored
  lease := spares.held ▸ closed.lease
  version := spares.held ▸ spares.said ▸ closed.version

theorem IsClosed.answer (closed : passage.IsClosed id version)
    (answers : passage.AnswersSmoothly habits term id request reply next)
    (mute : request.isMute) (held : next.scene.held = passage.scene.held)
    (rows : next.scene.rows = passage.scene.rows) : next.IsClosed id version := by
  have ledger : Ledger.of next.said = Ledger.of passage.said := by
    rw [answers.said, Ledger.of_append_singleton, Ledger.record_of_isMute mute]
  refine ⟨?_, held ▸ closed.lease, ?_⟩
  · rw [rows, held, closed.stored]
  · rw [held, ledger, closed.version]

theorem HasSaved.isClosed (owes : passage.Owes term id version .unmodified)
    (updates : released.Updates id passage.scene.held (.write none))
    (said : released.said = passage.said ++ [⟨.lease .release, .ok true⟩])
    (saved : HasSaved id released next) : next.IsClosed id version := by
  have ledger : Ledger.of next.said = Ledger.of passage.said := by
    rw [saved.said, said, Ledger.of_append_singleton, Ledger.of_append_singleton,
      Ledger.record_of_isMute rfl, Ledger.record_of_isMute rfl]
  have held := saved.held.trans updates.held
  refine ⟨saved.stored, held ▸ rfl, ?_⟩
  have counted := owes.tally.version
  simp only [DrainResult.renewals, DrainResult.saves] at counted
  rw [ledger, held]
  change passage.scene.held.version + 1 = _
  omega

/-- A lease is there to be given back. -/
theorem release_bind_obeys {following : Bool → Action α}
    (owes : passage.Owes term id version .unmodified)
    (answered : ∀ released : Passage, released.Updates id passage.scene.held (.write none) →
      released.said = passage.said ++ [⟨.lease .release, .ok true⟩] →
        Obeys (leasing habits term id version).rules final broken (following true) released) :
    Obeys (leasing habits term id version).rules final broken
      (Action.lease .release >>= following) passage := by
  obtain ⟨_, expiry, _, _, leased⟩ := owes.tally.expiry
  have anchors := Rows.anchors_of_process? owes.stored
  refine lease_bind_obeys _ owes.holds anchors owes.spares ?_ answered
  simp [LeaseOp.perform, Process.releaseLease_eq, leased]

theorem work_obeys (opens : passage.Opens id copy)
    (unread : passage.said.filterMap Turn.reading? = []) (same : process.id = id) :
    Obeys (leasing habits term id copy.version).rules
      (fun _ next => next.IsClosed id copy.version) (leasing habits term id copy.version).broken
      (Attempt.work registry term process) passage := by
  subst same
  rw [Attempt.work]
  refine ((acquire_obeys opens unread).imp_broken fun _ _ => False.elim).bind ?_
  rintro _ leased ⟨rfl, owes, mute⟩
  rw [if_pos rfl]
  have drained : Obeys (leasing habits term process.id copy.version).rules
      (fun _ => Owes term process.id copy.version .unmodified)
      (leasing habits term process.id copy.version).broken
      (registry.drain process.id process.type (Attempt.settle term)) leased :=
    Registry.drain_watched (fun _ _ => leasing_isKept) (fun _ => ⟨owes, .inl ⟨rfl, rfl⟩⟩) mute owes
  refine drained.bind ?_
  intro _ drained owes
  refine release_bind_obeys owes fun released updates said => ?_
  rw [if_pos rfl]
  refine ((save_obeys updates).imp_broken fun _ _ => False.elim).bind ?_
  intro _ next saved
  have closed := saved.isClosed owes updates said
  refine obeys_request_bind (fun _ => trivial) ?_
  intro later spares reply told answers
  obtain ⟨_, sameScene⟩ := answers.scene
  have closed := (closed.sparesRow spares).answer answers rfl (sameScene ▸ rfl) (sameScene ▸ rfl)
  rw [Action.note, ← bind_pure (ask _)]
  refine obeys_request_bind (fun _ => trivial) ?_
  intro later spares _ noted answers
  have sameScene : noted.scene = later.scene := answers.scene
  exact obeys_pure <|
    (closed.sparesRow spares).answer answers rfl (sameScene ▸ rfl) (sameScene ▸ rfl)

/-- Only what has failed like a lost race or a cancellation leaves the lease where it is. -/
theorem recover_obeys (owes : passage.Owes term id version .unmodified)
    (origin : failure.IsSwallowed ∨ passage.Mishap) :
    Obeys (leasing habits term id version).rules
      (fun _ next => next.Mishap ∨ next.IsClosed id version) (fun _ => Mishap)
      (Attempt.recover process failure) passage := by
  rw [Attempt.recover]
  refine obeys_request_bind (fun _ => trivial) ?_
  intro later spares _ dropped answers
  have owes := (owes.sparesRow spares).discard answers
  have origin : failure.IsSwallowed ∨ dropped.Mishap :=
    origin.imp_right fun mishap => (mishap.sparesRow spares).answer answers
  by_cases stale : failure.isStale
  · rw [if_pos stale, Action.note, ← bind_pure (ask _)]
    refine obeys_request_bind (fun _ => trivial) ?_
    intro later spares _ noted answers
    rcases origin with swallowed | mishap
    · simp [swallowed.1] at stale
    · exact obeys_pure (.inl ((mishap.sparesRow spares).answer answers))
  rw [if_neg stale]
  by_cases cancelled : failure.isCancellation
  · rw [if_pos cancelled]
    rcases origin with swallowed | mishap
    · simp [swallowed.2] at cancelled
    · exact obeys_throw mishap
  rw [if_neg cancelled, Action.note]
  refine obeys_request_bind (fun _ => trivial) ?_
  intro later spares _ noted answers
  have waiting := owes.sparesRow spares
  have owes := waiting.stages answers (.inl rfl) (answers.said ▸ waiting.tally.hear _ rfl rfl)
  rw [Attempt.releaseAfterFailure]
  refine release_bind_obeys owes fun released updates said => ?_
  rw [if_pos rfl]
  refine (save_obeys updates).outcome_bind ?_ fun _ _ => False.elim
  intro _ next saved
  have closed := saved.isClosed owes updates said
  rw [Action.discard, ← bind_pure (ask _)]
  refine obeys_request_bind (fun _ => trivial) ?_
  intro later spares _ dropped answers
  have sameScene : dropped.scene = later.scene.discard := answers.scene
  exact obeys_pure (.inr
    ((closed.sparesRow spares).answer answers rfl (sameScene ▸ rfl) (sameScene ▸ rfl)))

end Passage

/-- An attempt turns to executors under a lease that is accounted for, and it ends with the
process unlocked unless something has failed like a lost race or a cancellation. -/
theorem Registry.attempt_obeys_leasing {habits : Habits} {term : LeaseTerm} {id : Uuid}
    {start : Scene} {registry : Registry} (begins : start.Beginning id) :
    (registry.attempt term).run.Obeys
      (Passage.leasing habits term id start.held.version).rules
      (fun outcome passage => passage.Mishap ∨
        outcome = .ok () ∧ passage.IsClosed id start.held.version)
      ⟨start, []⟩ := by
  suffices obeys : Obeys (Passage.leasing habits term id start.held.version).rules
      (fun _ passage => passage.Mishap ∨ passage.IsClosed id start.held.version)
      (fun _ => Passage.Mishap) (registry.attempt term) ⟨start, []⟩ by
    refine Program.Obeys.imp obeys ?_
    intro outcome passage ended
    cases outcome with
    | ok _ => exact ended.imp_right fun closed => ⟨rfl, closed⟩
    | error failure => exact .inl ended
  rw [Registry.attempt]
  refine Passage.obeys_request_bind (fun _ => trivial) ?_
  intro later spares copy told answers
  obtain ⟨rfl, same⟩ := answers.scene
  have opens := (Passage.opens_of_beginning begins).sparesRow spares
  have holds : later.scene.held.id = id := opens.held.symm ▸ opens.holds
  have opens := opens.answer answers rfl ⟨_, same⟩
  have unread : told.said.filterMap Turn.reading? = [] := by
    rw [answers.said, spares.said]
    rfl
  refine (Passage.work_obeys opens unread holds).outcome_bind ?_ ?_
  · intro _ next closed
    exact obeys_pure (.inr closed)
  · rintro failure next ⟨owes, origin⟩
    exact Passage.recover_obeys owes origin

theorem Program.Leads.smooth {α : Type} {habits : Habits} {term : LeaseTerm} {id : Uuid}
    {program left : Program α} {start : Passage} {scene next : Scene} {log : List Exchange}
    {mayAsk : Passage → Request → Prop}
    (leads : program.Leads (Passage.smoothRules habits term id mayAsk) start left ⟨scene, log⟩)
    (request : Request) {rest : request.Reply → Program α} (asks : left = .ask request rest)
    (reply : request.Reply) (answers : scene.Answers habits request reply next)
    (smooth : scene.IsSmooth term id request reply next) :
    program.Leads (Passage.smoothRules habits term id mayAsk) start (rest reply)
      ⟨next, log ++ [⟨scene, request, reply, next⟩]⟩ := by
  subst asks
  exact .step leads (Passage.SparesRow.refl id _) ⟨answers, smooth, rfl⟩

theorem Program.Leads.executor {α : Type} {term : LeaseTerm} {id : Uuid}
    {program left : Program α} {start : Passage} {scene : Scene} {log : List Exchange}
    {mayAsk : Passage → Request → Prop}
    (leads : program.Leads (Passage.smoothRules .silent term id mayAsk) start left ⟨scene, log⟩)
    (request : Request) {rest : request.Reply → Program α} (asks : left = .ask request rest)
    (reply : request.Reply) (isForExecutor : request.isForExecutor)
    (works : Turn.failure? ⟨request, reply⟩ = none) :
    program.Leads (Passage.smoothRules .silent term id mayAsk) start (rest reply)
      ⟨scene, log ++ [⟨scene, request, reply, scene⟩]⟩ := by
  refine leads.smooth request asks reply ?_ ?_
  · cases request with
    | prepare _ _ _ | needsLease _ _ | execute _ _ _ _ =>
        exact ⟨fun _ _ => trivial, [], by simp, by simp [Scene.stage]⟩
    | _ => cases isForExecutor
  · cases request with
    | prepare _ _ _ | needsLease _ _ | execute _ _ _ _ =>
        refine ⟨?_, [], by simp, by simp⟩
        rintro failure rfl
        cases works
    | _ => cases isForExecutor

namespace Attempt

variable {habits : Habits} {term : LeaseTerm} {id : Uuid} {start : Scene} {registry : Registry}
  {passage : Passage} {rest : Program (Except Failure Unit)}

/-- **The version and the expiry in the course of an attempt.**  Let nothing go wrong, and
let nobody else write the row of the process, which is found unlocked.  Whenever a step is
run, the row is the copy of the worker.  Its version is one above the version that was
found, for the lease, and one more for each result that asked for a renewal or a commit.
Its lease runs from the last reading of the clock, and there is one reading for the lease
and one for each renewal.  Right before, the executor was asked whether it needs a renewal,
and if it did, one was committed.  In the end the row is still the copy; it is unlocked, and
its version is one more.  Only a question to the store that fails like a lost race or a
cancellation can prevent this. -/
theorem version_and_expiry_accounted (begins : start.Beginning id)
    (leads : (registry.attempt term).run.Leads
      (Passage.smoothRules habits term id fun _ _ => True) ⟨start, []⟩ rest passage) :
    (∀ earlier exchange after runner owner type told,
      passage.log = earlier ++ exchange :: after →
        exchange.request = .execute runner owner type told →
          exchange.scene.rows.process? id = some exchange.scene.held ∧
          exchange.scene.held.version = start.held.version + 1 +
            (Ledger.of (Exchange.said earlier)).renewals +
            (Ledger.of (Exchange.said earlier)).saves ∧
          (∃ now expiry,
            ((Exchange.said earlier).filterMap Turn.reading?).getLast? = some now ∧
            term.Ends now expiry ∧ exchange.scene.held.lease = some expiry) ∧
          ((Exchange.said earlier).filterMap Turn.reading?).length =
            1 + (Ledger.of (Exchange.said earlier)).renewals ∧
          ∃ before needed handled, Exchange.said earlier = before ++ ⟨.isCancelled, false⟩ ::
            ⟨.needsLease runner type, .ok needed⟩ :: handled ∧
              (needed = true → IsRenewal term handled) ∧ (needed = false → handled = [])) ∧
      ∀ outcome, rest = .done outcome →
        (∀ turn ∈ passage.said, ∀ failure, turn.failure? = some failure →
          failure.IsSwallowed) →
        outcome = .ok () ∧
          passage.scene.rows.process? id = some passage.scene.held ∧
          passage.scene.held.lease = none ∧
          passage.scene.held.version = start.held.version + 2 +
            (Ledger.of passage.said).renewals + (Ledger.of passage.said).saves := by
  have obeys := @Registry.attempt_obeys_leasing habits term id start registry begins
  have leads : (registry.attempt term).run.Leads
      (Passage.leasing habits term id start.held.version).rules ⟨start, []⟩ rest passage :=
    leads.imp (fun others => others) (fun answers => answers)
  constructor
  · intro earlier exchange after runner owner type told whole isExecute
    have records : (Passage.leasing habits term id start.held.version).rules.Records Passage.log
        fun earlier exchange =>
          Passage.MayRequest term id start.held.version ⟨exchange.scene, earlier⟩
            exchange.request := by
      constructor
      · exact fun others => others.log
      · exact fun mayAsk answers => ⟨_, answers.log, mayAsk⟩
    have correct := leads.correct obeys records rfl earlier exchange after whole
    rw [isExecute] at correct
    obtain ⟨owes, renewal⟩ := correct
    refine ⟨owes.stored, ?_, owes.tally.expiry, ?_, renewal⟩
    · simpa [DrainResult.renewals, DrainResult.saves, Passage.said] using owes.tally.version
    · simpa [DrainResult.renewals, Passage.said] using owes.tally.readings
  · rintro outcome rfl harmless
    rcases leads.obeys obeys with ⟨turn, member, failure, fails, passed⟩ | ⟨same, closed⟩
    · exact absurd (harmless turn member failure fails) passed
    · exact ⟨same, closed.stored, closed.lease, closed.version⟩

/-- A worker runs one step, for which the executor asks for a renewed lease. -/
theorem exists_renewing_run :
    ∃ (start : Scene) (passage : Passage), start.Beginning (.ofNat 1) ∧ start.held.version = 0 ∧
      (Registry.attempt ⟨[⟨.setupDim, [.createSubaccount]⟩]⟩ (.ok 5)).run.Leads
        (Passage.smoothRules .silent (.ok 5) (.ofNat 1) fun _ _ => True) ⟨start, []⟩
          (.done (.ok ())) passage ∧
      (∀ turn ∈ passage.said, turn.failure? = none) ∧
      (Ledger.of passage.said).renewals = 1 ∧ (Ledger.of passage.said).saves = 1 ∧
      passage.said.filterMap Turn.runs? = [.createSubaccount] := by
  let now : Timestamp := ⟨0, 0⟩
  let later : Timestamp := ⟨3, 0⟩
  let process := Process.fresh (.ofNat 1) .setupDim
  let step := Step.fresh (.ofNat 2) .createSubaccount .todo process.id now
  let ended : Step := { step with status := some .done, changed := some later }
  let start : Scene := ⟨⟨process, [], none, []⟩, ⟨[process], [step]⟩⟩
  let registry : Registry := ⟨[⟨.setupDim, [.createSubaccount]⟩]⟩
  have keyed : start.rows.Keyed := ⟨by decide, by decide⟩
  have isStored : start.rows.process? process.id = some process := by decide
  have begins : start.Beginning process.id :=
    ⟨keyed, rfl, Rows.anchors_of_process? isStored, rfl, rfl⟩
  have pending : ∀ processes, Rows.pendingSteps ⟨processes, [step]⟩ process.id =
      [⟨step.id, step.type⟩] := by
    intro processes
    simp [Rows.pendingSteps, step, Step.fresh, Step.isPending]
  have run : (registry.attempt (.ok 5)).run.Leads
      (Passage.smoothRules .silent (.ok 5) process.id fun _ _ => True) ⟨start, []⟩
      (registry.attempt (.ok 5)).run ⟨start, []⟩ := .start
  -- The process is leased and prepared.
  have run := run.smooth .held rfl process ⟨rfl, rfl⟩ trivial
  have run := run.smooth .now rfl now rfl ⟨fun _ => rfl, ⟨5, 0⟩, rfl⟩
  have run := run.smooth .held rfl process ⟨rfl, rfl⟩ trivial
  have run := run.smooth (.lease (.request ⟨5, 0⟩ now)) rfl (.ok true) ⟨rfl, rfl⟩ trivial
  have run := run.smooth (.note _) rfl () rfl trivial
  have run := run.smooth .save rfl (.ok ())
    ⟨⟨[⟨process.id, .setupDim, 1, some ⟨5, 0⟩⟩], [step]⟩,
      ⟨rfl, fun _ => Batch.isFresh_of_insertless rfl rfl⟩, rfl⟩ rfl
  have run := run.smooth .discard rfl () rfl trivial
  have run := run.smooth (.pendingSteps _) rfl (.ok [⟨step.id, step.type⟩])
    ⟨fun _ _ => trivial, fun _ replied => by cases replied; exact (pending _).symm, rfl⟩ trivial
  have run := run.smooth (.stepTypes _) rfl (.ok [step.type])
    ⟨fun _ _ => trivial, fun _ replied => by cases replied; rfl, rfl⟩ trivial
  have run := run.executor (.prepare _ _ _) rfl (.ok ⟨false, none⟩) rfl rfl
  have run := run.smooth .discard rfl () rfl trivial
  -- The lease is renewed.
  have run := run.smooth .isCancelled (by rw [runQueue]; rfl) false rfl trivial
  have run := run.executor (.needsLease _ _) rfl (.ok true) rfl rfl
  have run := run.smooth .now rfl later rfl ⟨by simp [Scene.discard, Scene.commit], ⟨8, 0⟩, rfl⟩
  have run := run.smooth (.lease (.renew ⟨8, 0⟩)) rfl (.ok true) ⟨rfl, rfl⟩ trivial
  have run := run.smooth .held rfl _ ⟨rfl, rfl⟩ trivial
  have run := run.smooth (.note _) rfl () rfl trivial
  have run := run.smooth .save rfl (.ok ())
    ⟨⟨[⟨process.id, .setupDim, 2, some ⟨8, 0⟩⟩], [step]⟩,
      ⟨rfl, fun _ => Batch.isFresh_of_insertless rfl rfl⟩, rfl⟩ rfl
  have run := run.smooth .discard rfl () rfl trivial
  -- The step is run.
  have run := run.executor (.execute .setupDim process.id step.type [step.type]) rfl
    (.ok ⟨false, .done, none, none, none⟩) rfl rfl
  have run := run.smooth (.stageUpdates _) rfl () ⟨fun _ => later, rfl⟩ trivial
  have run := run.smooth (.note _) rfl () rfl trivial
  have run := run.smooth (.lease .raise) rfl (.ok true) ⟨rfl, rfl⟩ trivial
  have run := run.smooth .save rfl (.ok ())
    ⟨⟨[⟨process.id, .setupDim, 3, some ⟨8, 0⟩⟩], [ended]⟩,
      ⟨rfl, fun _ => Batch.isFresh_of_insertless rfl rfl⟩, rfl⟩ rfl
  have run := run.smooth .discard rfl () rfl trivial
  -- Nothing is left to be run.
  have run := run.smooth .isCancelled (by rw [runQueue]; rfl) false rfl trivial
  have run := run.smooth (.lease .release) rfl (.ok true) ⟨rfl, rfl⟩ trivial
  have run := run.smooth .save rfl (.ok ())
    ⟨⟨[⟨process.id, .setupDim, 4, none⟩], [ended]⟩,
      ⟨rfl, fun _ => Batch.isFresh_of_insertless rfl rfl⟩, rfl⟩ rfl
  have run := run.smooth .held rfl _ ⟨rfl, rfl⟩ trivial
  have run := run.smooth (.note _) rfl () rfl trivial
  refine ⟨start, _, begins, rfl, run, ?works, ?renewals, ?saves, ?runs⟩
  case works =>
    have silent : ∀ turn : Turn, turn.failure? = none ↔ turn.failure?.isNone := by simp
    simp only [silent, ← List.all_eq_true]
    decide +kernel
  case renewals => decide +kernel
  case saves => decide +kernel
  case runs => decide +kernel

/-- The step is run under a lease, and in the end the process is unlocked under its fourth
version. -/
theorem version_accounted_after_renewal :
    ∃ (passage : Passage) (exchange : Exchange), exchange ∈ passage.log ∧
      exchange.request.due? = some .createSubaccount ∧
      exchange.scene.rows.process? (.ofNat 1) = some exchange.scene.held ∧
      exchange.scene.held.lease.isSome ∧
      passage.scene.rows.process? (.ofNat 1) = some passage.scene.held ∧
      passage.scene.held.lease = none ∧ passage.scene.held.version = 4 := by
  obtain ⟨start, passage, begins, version, leads, works, renewals, saves, runs⟩ :=
    exists_renewing_run
  obtain ⟨running, ends⟩ := version_and_expiry_accounted begins leads
  obtain ⟨_, stored, unleased, last⟩ :=
    ends (.ok ()) rfl fun turn member failure fails => by
      rw [works turn member] at fails
      cases fails
  have isRun : StepType.createSubaccount ∈ passage.said.filterMap Turn.runs? :=
    runs ▸ List.mem_cons_self
  obtain ⟨turn, heard, isExecute⟩ := List.mem_filterMap.mp isRun
  obtain ⟨⟨scene, request, reply, next⟩, member, rfl⟩ := List.mem_map.mp heard
  obtain ⟨earlier, after, whole⟩ := List.append_of_mem member
  cases request with
  | execute runner owner type told =>
      obtain rfl : type = .createSubaccount := Option.some.inj isExecute
      obtain ⟨current, _, ⟨_, expiry, _, _, leased⟩, _⟩ :=
        running earlier _ after runner owner _ told whole rfl
      refine ⟨passage, _, member, rfl, current, Option.isSome_iff_exists.mpr ⟨expiry, leased⟩,
        stored, unleased, ?_⟩
      rw [last, version, renewals, saves]
      rfl
  | _ => cases isExecute

end Attempt

end Workflow
