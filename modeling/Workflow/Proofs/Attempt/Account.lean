import Workflow.Proofs.Attempt.Failing
import Workflow.Proofs.Drain.Yield

/-!
# An attempt accounts for its steps

Outside the drain an attempt is *calm*: nothing that concerns a step is staged, and
only the lease is changed.  Every result of the drain is either committed as a whole
or has changed no step.  So whatever happens, the stored steps are those that some of
the outcomes told have made of the original ones.  A save that follows an outcome, with
nothing dropped in between, commits what all outcomes told have made of them.
-/

namespace Workflow

open Workflow.Action Workflow.Drain

namespace Passage

variable {habits : Habits} {id : Uuid} {origin steps : List Step} {base : List Exchange}
  {allowed : Change → Prop} {passage later next : Passage} {request : Request}
  {reply : request.Reply} {failure : Failure} {α : Type} {action : Action α}

/-- The steps stay as they are whether or not what is staged is committed. -/
def Calm (id : Uuid) (origin : List Step) (base : List Exchange) (steps : List Step)
    (passage : Passage) : Prop :=
  passage.Drafts id origin base steps ∧ passage.Clean (fun _ => True) id

theorem stable_calm : (rules habits id origin).Stable (Calm id origin base steps) :=
  stable_drafts.and stable_clean

theorem Calm.owned_eq (calm : passage.Calm id origin base steps) :
    passage.scene.rows.owned id = steps :=
  calm.2.draft_eq.symm.trans calm.1.draft

theorem Calm.settled (calm : passage.Calm id origin base steps)
    (applied : Exchange.Applied id origin base steps) :
    Settled (fun _ => True) id origin passage := by
  refine ⟨calm.1.accounted.keyed, calm.1.follows.applied ?_, calm.2⟩
  rwa [calm.owned_eq]

theorem calm_of_settled (settled : Settled (fun _ => True) id origin passage) :
    passage.Calm id origin passage.log (passage.scene.rows.owned id) :=
  ⟨settled.drafts, settled.clean⟩

theorem Accounted.calm (accounted : passage.Accounted id origin) (follows : passage.Follows base)
    (unstaged : passage.scene.staged = []) :
    passage.Calm id origin base (passage.scene.rows.owned id) := by
  have clean := @clean_of_unstaged id (fun _ => True) _ unstaged
  exact ⟨⟨accounted, follows, clean.draft_eq⟩, clean⟩

/-! ### Clerical requests -/

theorem Answers.exists_concerned (answers : passage.Answers habits id request reply next)
    (quiet : request.isQuiet) :
    ∃ batch : Batch, (∀ change ∈ batch, change.concernsProcess) ∧
      next.scene.rows = passage.scene.rows ∧
      next.scene.staged = passage.scene.staged ++ batch := by
  have answered := answers.scene
  cases request with
  | note _ | now | isCancelled =>
      refine ⟨[], by simp, ?_⟩
      rw [show next.scene = _ from answered]
      simp [Scene.read]
  | held =>
      refine ⟨[], by simp, ?_⟩
      rw [answered.2]
      simp
  | lease operation =>
      simp only [Scene.Answers] at answered
      split at answered
      · rename_i process batch performed
        have follows := LeaseOp.follows_of_perform performed
        refine ⟨batch, ?_, ?_⟩
        · intro change member
          obtain ⟨_, rfl⟩ := follows.member member
          rfl
        · rw [answered.2]
          exact ⟨rfl, rfl⟩
      · refine ⟨[], by simp, ?_⟩
        rw [answered.2]
        simp
  | _ => cases quiet

theorem Drafts.quiet (drafts : passage.Drafts id origin base steps)
    (answers : passage.Answers habits id request reply next) (quiet : request.isQuiet) :
    next.Drafts id origin base steps := by
  obtain ⟨batch, concerned, sameRows, staged⟩ := answers.exists_concerned quiet
  have other := Request.isForExecutor_of_isClerical (Request.isClerical_of_isQuiet quiet)
  have extended := drafts.extend answers (Request.outcome?_eq_none other) sameRows staged
  rwa [Batch.ownedAfter_of_spares fun change member =>
    Change.spares_of_concernsProcess (concerned change member)] at extended

theorem Clean.quiet (clean : passage.Clean (fun _ => True) id)
    (answers : passage.Answers habits id request reply next) (quiet : request.isQuiet) :
    next.Clean (fun _ => True) id := by
  obtain ⟨batch, concerned, sameRows, staged⟩ := answers.exists_concerned quiet
  rw [Clean, sameRows, staged]
  intro change member
  rcases List.mem_append.mp member with before | added
  · exact clean change before
  · exact ⟨trivial, Change.spares_of_concernsProcess (concerned change added)⟩

theorem Accounted.fail (accounted : passage.Accounted id origin)
    (answers : passage.Answers habits id .save (.error failure) next) :
    next.Accounted id origin := by
  obtain ⟨left, _, same⟩ := answers.scene
  exact accounted.answer answers (same ▸ rfl)

/-- A save commits what is staged as a whole. -/
theorem Drafts.commit (newIds : habits.newIds) (drafts : passage.Drafts id origin base steps)
    (applied : ∃ applied, applied <+: Outcome.told passage.log ∧
      Outcome.Applied id origin applied steps)
    (answers : passage.Answers habits id .save (.ok ()) next) :
    next.Calm id origin base steps := by
  obtain ⟨after, commits, same⟩ := answers.scene
  have keyed := drafts.accounted.keyed
  have sameTold : Outcome.told next.log = Outcome.told passage.log := by
    simp [answers.told, Request.outcome?]
  have sameSteps : next.scene.rows.owned id = steps := by
    rw [same, ← drafts.draft]
    exact Rows.owned_commit_eq keyed (commits.2 newIds) commits.1
  have unstaged : next.scene.staged = [] := same ▸ rfl
  have accounted : next.Accounted id origin := by
    refine ⟨?_, ?_⟩
    · rw [same]
      exact Rows.keyed_commit keyed commits.1
    · rw [sameTold, sameSteps]
      exact applied
  exact sameSteps ▸ accounted.calm (drafts.follows.answer answers rfl) unstaged

theorem Calm.answer (newIds : habits.newIds) (calm : passage.Calm id origin base steps)
    (answers : passage.Answers habits id request reply next) (clerical : request.isClerical) :
    next.Calm id origin base steps := by
  obtain ⟨drafts, clean⟩ := calm
  have other := Request.isForExecutor_of_isClerical clerical
  have follows := drafts.follows.answer answers (Request.outcome?_eq_none other)
  have unstagedCalm : next.scene.rows = passage.scene.rows → next.scene.staged = [] →
      next.Calm id origin base steps := by
    intro sameRows unstaged
    have calm := (drafts.accounted.answer answers sameRows).calm follows unstaged
    rwa [sameRows, ← clean.draft_eq, drafts.draft] at calm
  cases request with
  | discard =>
      have same : next.scene = passage.scene.discard := answers.scene
      exact unstagedCalm (same ▸ rfl) (same ▸ rfl)
  | save =>
      cases reply with
      | ok _ =>
          have applied := drafts.accounted.applied
          rw [← clean.draft_eq, drafts.draft] at applied
          exact drafts.commit newIds applied answers
      | error failure =>
          have accounted := drafts.accounted.fail answers
          obtain ⟨left, origin, same⟩ := answers.scene
          have sameRows : next.scene.rows = passage.scene.rows := same ▸ rfl
          rcases origin with rfl | rfl
          · exact unstagedCalm sameRows (same ▸ rfl)
          · have sameStaged : next.scene.staged = passage.scene.staged := same ▸ rfl
            refine ⟨⟨accounted, follows, ?_⟩, ?_⟩
            · rw [Passage.draft, sameStaged, sameRows]
              exact drafts.draft
            · rw [Clean, sameStaged, sameRows]
              exact clean
  | _ => exact ⟨drafts.quiet answers clerical, clean.quiet answers clerical⟩

theorem mayAsk_of_clerical (accounted : passage.Accounted id origin)
    (clerical : request.isClerical) : passage.MayAsk id origin request :=
  mayAsk_of_undue accounted (Request.due?_eq_none (Request.isForExecutor_of_isClerical clerical))

/-! ### Saves -/

/-- Something has been told, and nothing has been dropped since. -/
def Retains (passage : Passage) : Prop :=
  ∃ earlier exchange since, passage.log = earlier ++ exchange :: since ∧
    exchange.outcome?.isSome ∧ ∀ later ∈ since, later.request ≠ .discard

/-- What is certain whenever an attempt asks.  As long as nothing that has been told is
dropped, a save commits what all of it has made of the steps. -/
structure MayDo (id : Uuid) (origin : List Step) (passage : Passage) (request : Request) :
    Prop extends MayAsk id origin passage request where
  whole : request = .save → passage.Retains →
    Exchange.Applied id origin passage.log (passage.draft id)

def strictRules (habits : Habits) (id : Uuid) (origin : List Step) : Rules Passage where
  others := Undisturbed id
  mayAsk := MayDo id origin
  answers := Answers habits id

theorem MayAsk.mayDo (mayAsk : passage.MayAsk id origin request) (other : request ≠ .save) :
    passage.MayDo id origin request :=
  ⟨mayAsk, fun saves => absurd saves other⟩

theorem stable_strictly {assertion : Passage → Prop}
    (stable : (rules habits id origin).Stable assertion) :
    (strictRules habits id origin).Stable assertion :=
  stable

theorem Undisturbed.retains_iff (undisturbed : passage.Undisturbed id later) :
    later.Retains ↔ passage.Retains := by
  rw [Retains, undisturbed.log, Retains]

/-- A request that tells nothing retains what has been told unless it drops it. -/
theorem Answers.retains (answers : passage.Answers habits id request reply next)
    (silent : request.outcome? reply = none) (retains : next.Retains) :
    passage.Retains ∧ request ≠ .discard := by
  obtain ⟨earlier, exchange, since, whole, tells, kept⟩ := retains
  rw [answers.log] at whole
  rcases List.eq_nil_or_concat since with rfl | ⟨shorter, last, rfl⟩
  · obtain ⟨_, same⟩ := List.append_inj' whole rfl
    obtain rfl := List.singleton_inj.mp same
    simp [Exchange.outcome?, silent] at tells
  · rw [List.concat_eq_append] at whole kept
    have regrouped : passage.log ++ [⟨passage.scene, request, reply, next.scene⟩] =
        (earlier ++ exchange :: shorter) ++ [last] := by simp [whole]
    obtain ⟨before, same⟩ := List.append_inj' regrouped rfl
    obtain rfl := List.singleton_inj.mp same
    exact ⟨⟨earlier, exchange, shorter, before, tells,
      fun later member => kept later (List.mem_append_left _ member)⟩,
      kept ⟨passage.scene, request, reply, next.scene⟩
        (List.mem_append_right _ List.mem_cons_self)⟩

end Passage

namespace Action

variable {habits : Habits} {id : Uuid} {origin steps : List Step} {base : List Exchange}
  {passage : Passage} {α : Type} {action : Action α} {post : α → Passage → Prop}
  {broken : Failure → Passage → Prop}

theorem Asks.strict (asks : Asks (fun request => request ≠ .save) action)
    (obeys : Obeys (Passage.rules habits id origin) post broken action passage) :
    Obeys (Passage.strictRules habits id origin) post broken action passage :=
  Program.Asks.obeys_strict asks obeys (fun _ _ others => others)
    (fun _ _ other mayAsk => mayAsk.mayDo other) fun _ _ _ _ answers => answers

theorem Asks.calm (newIds : habits.newIds) (asks : Asks (fun request => request.isClerical) action)
    (applied : passage.Retains → Exchange.Applied id origin base steps)
    (calm : passage.Calm id origin base steps) :
    Obeys (Passage.strictRules habits id origin) (fun _ => Passage.Calm id origin base steps)
      (fun _ => Passage.Calm id origin base steps) action passage := by
  let wholly : Passage → Prop := fun passage =>
    passage.Calm id origin base steps ∧ (passage.Retains → Exchange.Applied id origin base steps)
  have stable : (Passage.strictRules habits id origin).Stable wholly := by
    intro passage later ⟨calm, applied⟩ undisturbed
    have stableCalm := @Passage.stable_calm habits id origin steps base
    exact ⟨stableCalm _ _ calm undisturbed,
      fun retains => applied ((Passage.Undisturbed.retains_iff undisturbed).mp retains)⟩
  have obeys := asks.obeys stable ?kept ⟨calm, applied⟩
  case kept =>
    intro passage ⟨calm, applied⟩ request clerical
    have other := Request.isForExecutor_of_isClerical clerical
    refine ⟨⟨Passage.mayAsk_of_clerical calm.1.accounted clerical, fun _ retains => ?_⟩, ?_⟩
    · exact calm.1.draft.symm ▸ calm.1.follows.applied (applied retains)
    · intro reply next answers
      refine ⟨calm.answer newIds answers clerical, fun retains => ?_⟩
      exact applied (answers.retains (Request.outcome?_eq_none other) retains).1
  exact (obeys.imp fun _ _ holds => holds.1).imp_broken fun _ _ holds => holds.1

theorem Asks.settled (newIds : habits.newIds)
    (asks : Asks (fun request => request.isClerical) action)
    (settled : Settled (fun _ => True) id origin passage) :
    Obeys (Passage.strictRules habits id origin) (fun _ => Settled (fun _ => True) id origin)
      (fun _ => Passage.Accounted id origin) action passage := by
  have calm := Passage.calm_of_settled settled
  refine ((asks.calm newIds (fun _ => settled.applied) calm).imp ?_).imp_broken ?_
  · intro _ _ calm
    exact calm.settled settled.applied
  · intro _ _ calm
    exact calm.1.accounted

theorem Asks.drafts (asks : Asks (fun request => request.isQuiet) action)
    (drafts : passage.Drafts id origin base steps) :
    Obeys (Passage.strictRules habits id origin) (fun _ => Passage.Drafts id origin base steps)
      (fun _ => Passage.Accounted id origin) action passage := by
  have unsaved : Asks (fun request => request ≠ .save) action :=
    asks.imp fun request quiet saves => by simp [saves, Request.isQuiet] at quiet
  refine unsaved.strict ((asks.obeys Passage.stable_drafts ?_ drafts).imp_broken ?_)
  · intro passage drafts request quiet
    exact ⟨Passage.mayAsk_of_clerical drafts.accounted (Request.isClerical_of_isQuiet quiet),
      fun reply next answers => drafts.quiet answers quiet⟩
  · intro _ _ drafts
    exact drafts.accounted

theorem save_obeys (newIds : habits.newIds) (applied : Exchange.Applied id origin base steps)
    (drafts : passage.Drafts id origin base steps) :
    Obeys (Passage.strictRules habits id origin) (fun _ => Passage.Calm id origin base steps)
      (fun _ => Passage.Accounted id origin) save passage := by
  refine obeys_ask_bind (Passage.stable_strictly Passage.stable_drafts) drafts ?_ ?_
  · intro passage drafts
    refine ⟨mayAsk_of_undue drafts.accounted rfl, fun _ _ => ?_⟩
    exact drafts.draft.symm ▸ drafts.follows.applied applied
  intro passage drafts reply next answers
  cases reply with
  | ok _ =>
      have whole := (drafts.follows.applied applied).outcomes
      exact drafts.commit newIds ⟨_, List.prefix_rfl, whole⟩ answers
  | error failure => exact drafts.accounted.fail answers

end Action

namespace Drain

variable {executor : ProcessType} {process : Uuid} {type : StepType} {agenda : Agenda}

theorem yieldStep_asks :
    Asks (fun request => request ≠ .save) (yieldStep executor process type agenda) := by
  rw [yieldStep, runStep]
  refine Asks.bind (Asks.bind (asks_ask (by simp)) fun _ => ?_) fun _ => asks_pure
  refine Asks.bind asks_ofExcept fun result => ?_
  refine Asks.bind (stageUpdates_asks (by simp)) fun _ => ?_
  refine Asks.bind (stageSteps_asks (by simp)) fun created => ?_
  exact Asks.bind (asks_note (by simp)) fun _ => asks_pure

/-- Between two results a drain saves nothing. -/
theorem resume_asks {halt : Halt} :
    Asks (fun request => request ≠ .save) (resume executor process halt) := by
  cases halt with
  | renewed type agenda => exact yieldStep_asks
  | pending type agenda => exact Asks.bind (asks_note (by simp)) fun _ => asks_pure
  | ready agenda =>
      refine Asks.bind (asks_ask (by simp)) fun cancelled => ?_
      split
      · exact Asks.bind (asks_note (by simp)) fun _ => asks_pure
      · split
        · exact asks_pure
        · refine Asks.bind (asks_ask (by simp)) fun _ => Asks.bind asks_ofExcept fun needed => ?_
          split
          · exact asks_pure
          · exact yieldStep_asks

end Drain

theorem Registry.begin_asks {registry : Registry} {process : Uuid} {type : ProcessType} :
    Asks (fun request => request ≠ .save) (registry.begin process type) := by
  rw [Registry.begin]
  split
  · exact asks_throw
  · refine Asks.bind (asks_ask (by simp)) fun _ => Asks.bind asks_ofExcept fun steps => ?_
    refine Asks.bind (asks_ask (by simp)) fun _ => Asks.bind asks_ofExcept fun types => ?_
    refine Asks.bind (asks_ask (by simp)) fun _ => Asks.bind asks_ofExcept fun prepared => ?_
    exact Asks.bind (Drain.stageSteps_asks (by simp)) fun created => asks_pure

namespace Attempt

variable {habits : Habits} {id : Uuid} {origin : List Step} {passage : Passage}
  {term : LeaseTerm} {result : DrainResult} {halt : Halt}

/-- Every result is committed as a whole, or has changed no step and is dropped. -/
theorem settle_obeys (newIds : habits.newIds)
    (yields : Yields (fun _ => True) id origin result halt passage) :
    Obeys (Passage.strictRules habits id origin)
      (fun goesOn passage => goesOn = true ∧ Ready (fun _ => True) id origin halt passage)
      (fun _ => Passage.Accounted id origin) (settle term result) passage := by
  have applied := yields.applied
  have drafts : passage.Drafts id origin passage.log (passage.draft id) :=
    ⟨yields.accounted, Passage.follows_refl, rfl⟩
  have commits : Obeys (Passage.strictRules habits id origin)
      (fun _ => Passage.Calm id origin passage.log (passage.draft id))
      (fun _ => Passage.Accounted id origin) (settle.commit term result) passage := by
    cases result with
    | saveRequested =>
        have raises : Asks (fun request => request.isQuiet) (lease .raise) := asks_lease rfl
        exact (raises.drafts drafts).bind fun _ _ drafts => save_obeys newIds applied drafts
    | leaseRequested =>
        have renews : Asks (fun request => request.isQuiet) (renew term) := renew_asks
        exact (renews.drafts drafts).bind fun _ _ drafts => save_obeys newIds applied drafts
    | unmodified => exact obeys_pure ⟨drafts, yields.clean (by simp)⟩
  apply commits.bind
  intro _ next calm
  refine obeys_ask_bind (Passage.stable_strictly Passage.stable_calm) calm
    (fun _ calm => (mayAsk_of_undue calm.1.accounted rfl).mayDo (by simp)) ?_
  intro _ calm _ next answers
  have calm := calm.answer newIds answers rfl
  exact obeys_pure ⟨rfl, calm.settled applied, calm.owned_eq.symm ▸ yields.mirrors⟩

/-- A drain goes on from result to result. -/
theorem proceed_obeys (newIds : habits.newIds) (executor : ProcessType) {rank : Nat}
    {yielded : Option (DrainResult × Halt)}
    (resumed : Resumed (fun _ => True) id origin rank yielded passage) :
    Obeys (Passage.strictRules habits id origin) (fun _ => Settled (fun _ => True) id origin)
      (fun _ => Passage.Accounted id origin)
      (proceed executor id (settle term) yielded) passage := by
  induction rank generalizing yielded passage with
  | zero =>
      cases yielded with
      | none => exact obeys_pure resumed
      | some yielded => exact absurd resumed.2 (Nat.not_lt_zero _)
  | succ rank induction =>
      cases yielded with
      | none => exact obeys_pure resumed
      | some yielded =>
          obtain ⟨yields, lower⟩ := resumed
          apply (settle_obeys newIds yields).bind
          rintro _ next ⟨rfl, ready⟩
          rw [if_pos rfl, goOn_eq]
          apply (resume_asks.strict (resume_obeys executor (fun _ _ => trivial) ready)).bind
          intro further next resumed
          exact induction (resumed.mono (Nat.le_of_lt_succ lower))

theorem work_obeys (newIds : habits.newIds) (registry : Registry) {process : Process}
    (settled : Settled (fun _ => True) process.id origin passage) :
    Obeys (Passage.strictRules habits process.id origin)
      (fun _ => Passage.Accounted process.id origin)
      (fun _ => Passage.Accounted process.id origin) (work registry term process) passage := by
  apply (acquire_asks.settled newIds settled).bind
  intro isLeased passage settled
  cases isLeased with
  | false => exact obeys_pure settled.accounted
  | true =>
      have drains : Obeys (Passage.strictRules habits process.id origin)
          (fun _ => Settled (fun _ => True) process.id origin)
          (fun _ => Passage.Accounted process.id origin)
          (registry.drain process.id process.type (settle term)) passage := by
        rw [Registry.drain_eq]
        apply (Registry.begin_asks.strict (registry.begin_obeys (fun _ _ => trivial) settled)).bind
        intro yielded passage yields
        exact proceed_obeys newIds process.type ⟨yields, Nat.lt_succ_self _⟩
      apply drains.bind
      intro _ passage settled
      exact (close_asks.settled newIds settled).imp fun _ _ settled => settled.accounted

theorem recover_obeys (newIds : habits.newIds) {process : Process} {failure : Failure}
    (accounted : passage.Accounted id origin) :
    Obeys (Passage.strictRules habits id origin) (fun _ => Passage.Accounted id origin)
      (fun _ => Passage.Accounted id origin) (recover process failure) passage := by
  refine obeys_ask_bind (Passage.stable_strictly Passage.stable_accounted) accounted
    (fun _ accounted => (mayAsk_of_undue accounted rfl).mayDo (by simp)) ?_
  intro passage accounted _ next answers
  have same : next.scene = passage.scene.discard := answers.scene
  have dropped : ¬next.Retains := fun retains =>
    absurd rfl (Passage.Answers.retains answers rfl retains).2
  have accounted : next.Accounted id origin := accounted.answer answers (same ▸ rfl)
  have calm := accounted.calm Passage.follows_refl (same ▸ rfl)
  have rest := (@recover_asks process failure).2 ()
  refine ((Asks.calm newIds rest (fun retains => absurd retains dropped) calm).imp ?_).imp_broken ?_
  · intro _ _ calm
    exact calm.1.accounted
  · intro _ _ calm
    exact calm.1.accounted

end Attempt

open Attempt in
/-- **An attempt accounts for its steps.**  Wherever it asks, and when it ends, the
stored steps are those that some of the outcomes told have made of the original ones,
and a step that is about to be run is pending.  What has been told and not been dropped is
saved as a whole. -/
theorem Registry.attempt_obeys_strictly {habits : Habits} {id : Uuid} {start : Scene}
    (newIds : habits.newIds) (registry : Registry) (term : LeaseTerm)
    (begins : start.Beginning id) :
    Obeys (Passage.strictRules habits id (start.rows.owned id))
      (fun _ => Passage.Accounted id (start.rows.owned id))
      (fun _ => Passage.Accounted id (start.rows.owned id)) (registry.attempt term)
      ⟨start, []⟩ := by
  have settled : Settled (fun _ => True) id (start.rows.owned id) ⟨start, []⟩ :=
    ⟨begins.keyed, .nil, Passage.clean_of_unstaged begins.unstaged⟩
  have holds : start.held.id = id := begins.holds
  have stableHolds : (Passage.rules habits id (start.rows.owned id)).Stable
      fun passage => passage.scene.held.id = id := by
    intro _ _ holds undisturbed
    exact congrArg (fun station => station.held.id) undisturbed.scene.station ▸ holds
  rw [Registry.attempt]
  refine obeys_ask_bind (Passage.stable_strictly (stable_settled.and stableHolds)) ⟨settled, holds⟩
    (fun _ holds => (mayAsk_of_undue holds.1.accounted rfl).mayDo (by simp)) ?_
  intro passage holds process next answers
  obtain ⟨settled, holds⟩ := holds
  obtain ⟨isHeld, same⟩ := answers.scene
  obtain rfl : process.id = id := isHeld ▸ holds
  refine (work_obeys newIds registry (settled.same answers rfl same)).outcome_bind ?_ ?_
  · intro _ passage accounted
    exact obeys_pure accounted
  · intro failure passage accounted
    exact recover_obeys newIds accounted

theorem Registry.attempt_obeys {habits : Habits} {id : Uuid} {start : Scene}
    (newIds : habits.newIds) (registry : Registry) (term : LeaseTerm)
    (begins : start.Beginning id) :
    Obeys (Passage.rules habits id (start.rows.owned id))
      (fun _ => Passage.Accounted id (start.rows.owned id))
      (fun _ => Passage.Accounted id (start.rows.owned id)) (registry.attempt term)
      ⟨start, []⟩ :=
  Program.Obeys.lenient (registry.attempt_obeys_strictly newIds term begins)
    (fun _ _ others => others) (fun _ _ mayDo => mayDo.toMayAsk) fun _ _ _ _ answers => answers

end Workflow
