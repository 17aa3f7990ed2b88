import Workflow.Proofs.Attempt.History
import Workflow.Proofs.Drain.Generator
import Workflow.Proofs.Drain.Mirror

/-!
# What a drain yields

Between two results a drain is *ready*: everything that the executors have told is
applied to the steps, and its agenda mirrors them.  When it yields a result, what is
staged is the last outcome and nothing else that concerns a step, and the agenda
mirrors the steps as they will be once this is committed.  If there is nothing to be
saved, then nothing that concerns a step is staged.
-/

namespace Workflow

open Workflow.Action

namespace Passage

variable {habits : Habits} {id : Uuid} {origin steps : List Step} {base : List Exchange}
  {allowed : Change → Prop} {passage later next : Passage} {request : Request}
  {reply : request.Reply}

/-- The steps of a process as they will be once what is staged has been committed. -/
def draft (id : Uuid) (passage : Passage) : List Step :=
  Batch.ownedAfter id passage.scene.staged (passage.scene.rows.owned id)

/-- Whatever is staged is of some kind and concerns no step of a process. -/
def Clean (allowed : Change → Prop) (id : Uuid) (passage : Passage) : Prop :=
  ∀ change ∈ passage.scene.staged,
    allowed change ∧ change.Spares id (passage.scene.rows.owned id)

/-- Nothing has been told since a history was written. -/
def Follows (base : List Exchange) (passage : Passage) : Prop :=
  ∃ since, passage.log = base ++ since ∧ ∀ exchange ∈ since, exchange.outcome? = none

/-- Nothing has been told since, and what the steps will be. -/
structure Drafts (id : Uuid) (origin : List Step) (base : List Exchange) (steps : List Step)
    (passage : Passage) : Prop where
  accounted : passage.Accounted id origin
  follows : passage.Follows base
  draft : passage.draft id = steps

theorem follows_refl : passage.Follows passage.log :=
  ⟨[], (List.append_nil _).symm, fun _ member => by cases member⟩

theorem Follows.answer (follows : passage.Follows base)
    (answers : passage.Answers habits id request reply next)
    (silent : request.outcome? reply = none) : next.Follows base := by
  obtain ⟨since, whole, others⟩ := follows
  refine ⟨since ++ [⟨passage.scene, request, reply, next.scene⟩], ?_, ?_⟩
  · rw [answers.log, whole, List.append_assoc]
  · exact List.forall_mem_append.mpr ⟨others, List.forall_mem_singleton.mpr silent⟩

theorem Follows.applied (follows : passage.Follows base)
    (applied : Exchange.Applied id origin base steps) :
    Exchange.Applied id origin passage.log steps := by
  obtain ⟨since, whole, silent⟩ := follows
  exact whole ▸ applied.append silent

theorem Clean.draft_eq (clean : passage.Clean allowed id) :
    passage.draft id = passage.scene.rows.owned id :=
  Batch.ownedAfter_of_spares fun change member => (clean change member).2

theorem clean_of_unstaged (unstaged : passage.scene.staged = []) : passage.Clean allowed id := by
  simp [Clean, unstaged]

theorem Accounted.of_rows_eq (accounted : passage.Accounted id origin)
    (sameRows : next.scene.rows = passage.scene.rows)
    (told : Outcome.told passage.log <+: Outcome.told next.log) : next.Accounted id origin := by
  obtain ⟨keyed, applied, isPrefix, steps⟩ := accounted
  exact ⟨sameRows ▸ keyed, applied, isPrefix.trans told, sameRows ▸ steps⟩

theorem Accounted.answer (accounted : passage.Accounted id origin)
    (answers : passage.Answers habits id request reply next)
    (sameRows : next.scene.rows = passage.scene.rows) : next.Accounted id origin :=
  accounted.of_rows_eq sameRows (answers.told ▸ List.prefix_append _ _)

/-! ### Stability -/

theorem stable_accounted : (rules habits id origin).Stable (Accounted id origin) := by
  intro passage later accounted undisturbed
  obtain ⟨keyed, applied, isPrefix, steps⟩ := accounted
  refine ⟨undisturbed.scene.keyed keyed, applied, ?_, ?_⟩
  · rwa [undisturbed.log]
  · rwa [undisturbed.scene.steps]

theorem Undisturbed.staged (undisturbed : passage.Undisturbed id later) :
    later.scene.staged = passage.scene.staged :=
  congrArg Station.staged undisturbed.scene.station

theorem stable_clean : (rules habits id origin).Stable (Clean allowed id) := by
  intro passage later clean undisturbed
  rw [Clean, undisturbed.staged, undisturbed.scene.steps]
  exact clean

theorem stable_drafts : (rules habits id origin).Stable (Drafts id origin base steps) := by
  intro passage later drafts undisturbed
  refine ⟨stable_accounted _ _ drafts.accounted undisturbed, ?_, ?_⟩
  · rw [Follows, undisturbed.log]
    exact drafts.follows
  · rw [Passage.draft, undisturbed.staged, undisturbed.scene.steps]
    exact drafts.draft

/-! ### Answers -/

/-- An executor stages what it may, and nothing that concerns a step of the process. -/
theorem Answers.exists_stage (answers : passage.Answers habits id request reply next)
    (isForExecutor : request.isForExecutor) :
    ∃ batch, (∀ change ∈ batch, habits.mayStage change) ∧
      Batch.Spares id (passage.scene.rows.owned id) batch ∧
      next.scene = passage.scene.stage batch := by
  obtain ⟨spared, sameStaged, spares⟩ := answers.spares isForExecutor
  have staged : ∃ batch, (∀ change ∈ batch, habits.mayStage change) ∧
      next.scene = passage.scene.stage batch := by
    have answered := answers.scene
    cases request with
    | prepare _ _ _ | needsLease _ _ | execute _ _ _ _ =>
        obtain ⟨_, batch, mayStage, same⟩ := answered
        exact ⟨batch, mayStage, same⟩
    | _ => cases isForExecutor
  obtain ⟨batch, mayStage, same⟩ := staged
  have sameBatch : batch = spared := by
    rw [same] at sameStaged
    exact List.append_cancel_left sameStaged
  exact ⟨batch, mayStage, sameBatch ▸ spares, same⟩

theorem Clean.executor (clean : passage.Clean allowed id)
    (allows : ∀ change, habits.mayStage change → allowed change)
    (answers : passage.Answers habits id request reply next)
    (isForExecutor : request.isForExecutor) :
    next.Clean allowed id ∧ next.scene.rows = passage.scene.rows := by
  obtain ⟨batch, mayStage, spares, same⟩ := answers.exists_stage isForExecutor
  rw [Clean, same]
  refine ⟨fun change member => ?_, rfl⟩
  rcases List.mem_append.mp member with before | added
  · exact clean change before
  · exact ⟨allows change (mayStage change added), spares change added⟩

theorem Drafts.extend (drafts : passage.Drafts id origin base steps)
    (answers : passage.Answers habits id request reply next)
    (silent : request.outcome? reply = none) {batch : Batch}
    (sameRows : next.scene.rows = passage.scene.rows)
    (staged : next.scene.staged = passage.scene.staged ++ batch) :
    next.Drafts id origin base (Batch.ownedAfter id batch steps) := by
  refine ⟨drafts.accounted.answer answers sameRows, drafts.follows.answer answers silent, ?_⟩
  rw [Passage.draft, sameRows, staged, ← drafts.draft]
  exact Batch.ownedAfter_append

theorem Drafts.stage (drafts : passage.Drafts id origin base steps)
    (answers : passage.Answers habits id request reply next)
    (silent : request.outcome? reply = none) {batch : Batch}
    (staged : next.scene = passage.scene.stage batch) :
    next.Drafts id origin base (Batch.ownedAfter id batch steps) :=
  drafts.extend answers silent (staged ▸ rfl) (staged ▸ rfl)

theorem Drafts.same (drafts : passage.Drafts id origin base steps)
    (answers : passage.Answers habits id request reply next)
    (silent : request.outcome? reply = none) (same : next.scene = passage.scene) :
    next.Drafts id origin base steps := by
  have staged : next.scene = passage.scene.stage [] := by simp [same, Scene.stage]
  exact drafts.stage answers silent staged

end Passage

namespace Drain

variable {habits : Habits} {id : Uuid} {origin steps : List Step} {base : List Exchange}
  {allowed : Change → Prop} {passage next : Passage} {agenda : Agenda} {halt : Halt}
  {type : StepType} {executor : ProcessType} {request : Request} {reply : request.Reply}

/-- The agenda of a halt mirrors the steps, and a step that comes next is pending. -/
def Halt.Mirrors : Halt → List Step → Prop
  | ready agenda, steps | pending _ agenda, steps => agenda.Mirrors steps
  | renewed type agenda, steps =>
    agenda.Mirrors steps ∧ type ∉ agenda.queue ∧ ∃ step ∈ steps, step.isDue type

theorem Halt.Mirrors.toAgenda (mirrors : halt.Mirrors steps) : halt.agenda.Mirrors steps := by
  cases halt with
  | ready agenda | pending type agenda => exact mirrors
  | renewed type agenda => exact mirrors.1

theorem Halt.mirrors_afterStep {status : StepStatus} (mirrors : agenda.Mirrors steps) :
    (Halt.afterStep type status agenda).Mirrors steps := by
  rw [afterStep]
  split <;> exact mirrors

/-- Everything that has been told is applied to the steps, and nothing that concerns a
step is staged. -/
structure Settled (allowed : Change → Prop) (id : Uuid) (origin : List Step)
    (passage : Passage) : Prop where
  keyed : passage.scene.rows.Keyed
  applied : Exchange.Applied id origin passage.log (passage.scene.rows.owned id)
  clean : passage.Clean allowed id

/-- The drain is settled, and its agenda mirrors the steps. -/
structure Ready (allowed : Change → Prop) (id : Uuid) (origin : List Step) (halt : Halt)
    (passage : Passage) : Prop extends Settled allowed id origin passage where
  mirrors : halt.Mirrors (passage.scene.rows.owned id)

/-- A result is yielded: what is staged is the rest of what has been told. -/
structure Yields (allowed : Change → Prop) (id : Uuid) (origin : List Step)
    (result : DrainResult) (halt : Halt) (passage : Passage) : Prop where
  accounted : passage.Accounted id origin
  applied : Exchange.Applied id origin passage.log (passage.draft id)
  mirrors : halt.Mirrors (passage.draft id)
  clean : result ≠ .saveRequested → passage.Clean allowed id

/-- A drain has yielded something and has less to do than before, or it has ended. -/
def Resumed (allowed : Change → Prop) (id : Uuid) (origin : List Step) (rank : Nat)
    (yielded : Option (DrainResult × Halt)) (passage : Passage) : Prop :=
  match yielded with
  | none => Settled allowed id origin passage
  | some (result, halt) => Yields allowed id origin result halt passage ∧ halt.rank < rank

theorem Settled.accounted (settled : Settled allowed id origin passage) :
    passage.Accounted id origin :=
  ⟨settled.keyed, _, List.prefix_rfl, settled.applied.outcomes⟩

theorem Settled.drafts (settled : Settled allowed id origin passage) :
    passage.Drafts id origin passage.log (passage.scene.rows.owned id) :=
  ⟨settled.accounted, Passage.follows_refl, settled.clean.draft_eq⟩

theorem stable_settled :
    (Passage.rules habits id origin).Stable (Settled allowed id origin) := by
  intro passage later settled undisturbed
  refine ⟨undisturbed.scene.keyed settled.keyed, ?_,
    @Passage.stable_clean habits id origin allowed _ _ settled.clean undisturbed⟩
  rw [undisturbed.log, undisturbed.scene.steps]
  exact settled.applied

theorem stable_ready :
    (Passage.rules habits id origin).Stable (Ready allowed id origin halt) := by
  intro passage later ready undisturbed
  refine ⟨stable_settled _ _ ready.toSettled undisturbed, ?_⟩
  rw [undisturbed.scene.steps]
  exact ready.mirrors

theorem Settled.same (settled : Settled allowed id origin passage)
    (answers : passage.Answers habits id request reply next)
    (silent : request.outcome? reply = none) (same : next.scene = passage.scene) :
    Settled allowed id origin next := by
  have follows := Passage.follows_refl.answer answers silent
  refine ⟨same ▸ settled.keyed, follows.applied (same ▸ settled.applied), ?_⟩
  rw [Passage.Clean, same]
  exact settled.clean

/-- Whatever an executor stages and tells, the steps stay as they are. -/
theorem Settled.ask (settled : Settled allowed id origin passage)
    (allows : ∀ change, habits.mayStage change → allowed change)
    (answers : passage.Answers habits id request reply next)
    (isForExecutor : request.isForExecutor) :
    next.scene.rows = passage.scene.rows ∧ next.Clean allowed id ∧
      next.Drafts id origin next.log (passage.scene.rows.owned id) := by
  obtain ⟨clean, sameRows⟩ := settled.clean.executor allows answers isForExecutor
  refine ⟨sameRows, clean, settled.accounted.answer answers sameRows, Passage.follows_refl, ?_⟩
  rw [clean.draft_eq, sameRows]

theorem Settled.ask_silent (settled : Settled allowed id origin passage)
    (allows : ∀ change, habits.mayStage change → allowed change)
    (answers : passage.Answers habits id request reply next)
    (isForExecutor : request.isForExecutor) (silent : request.outcome? reply = none) :
    Settled allowed id origin next := by
  obtain ⟨sameRows, clean, _⟩ := settled.ask allows answers isForExecutor
  have follows := Passage.follows_refl.answer answers silent
  exact ⟨sameRows ▸ settled.keyed, follows.applied (sameRows ▸ settled.applied), clean⟩

/-- What an executor tells is applied to the steps that are there. -/
theorem Settled.tells {outcome : Outcome} {after : List Step}
    (settled : Settled allowed id origin passage)
    (answers : passage.Answers habits id request reply next)
    (told : request.outcome? reply = some outcome)
    (applies : outcome.Applies id (passage.scene.rows.owned id) after) :
    Exchange.Applied id origin next.log after :=
  answers.log ▸ .tells settled.applied told applies

theorem mayAsk_of_undue (accounted : passage.Accounted id origin)
    (undue : request.due? = none) : passage.MayAsk id origin request :=
  ⟨accounted, fun type due => by simp [undue] at due, fun due => by simp [undue] at due⟩

theorem Settled.mayAsk (settled : Settled allowed id origin passage)
    (undue : request.due? = none) : passage.MayAsk id origin request :=
  mayAsk_of_undue settled.accounted undue

theorem Ready.mayAsk (ready : Ready allowed id origin (.renewed type agenda) passage)
    (due : request.due? = some type) : passage.MayAsk id origin request where
  accounted := ready.accounted
  due other isDue := by
    obtain rfl := Option.some.inj (due.symm.trans isDue)
    exact ready.mirrors.2.2
  applied _ := ready.applied.outcomes

/-! ### Staging -/

theorem stageSteps_obeys {idle : Prop} {types : List StepType} (nodup : types.Nodup)
    (unknown : ∀ type ∈ types, type ∉ agenda.known) (mirrors : agenda.Mirrors steps)
    (drafts : passage.Drafts id origin base steps) (clean : idle → passage.Clean allowed id) :
    Obeys (Passage.rules habits id origin)
      (fun created passage => ∃ added, List.Forall₂ (Step.IsScheduled id) types added ∧
          (agenda.addSteps created).Mirrors (steps ++ added) ∧
          passage.Drafts id origin base (steps ++ added) ∧
          (idle → created = [] → passage.Clean allowed id))
      (fun _ => Passage.Accounted id origin) (stageSteps id types) passage := by
  induction types generalizing agenda steps passage idle with
  | nil =>
      apply obeys_pure
      exact ⟨[], .nil, by simpa [Agenda.addSteps] using mirrors, by simpa using drafts,
        fun isIdle _ => clean isIdle⟩
  | cons type types induction =>
      obtain ⟨notLater, restNodup⟩ := List.nodup_cons.mp nodup
      have isNew : type ∉ agenda.known := unknown type List.mem_cons_self
      rw [stageSteps]
      refine obeys_ask_bind Passage.stable_drafts drafts
        (fun _ drafts => mayAsk_of_undue drafts.accounted rfl) ?_
      intro passage drafts new next answers
      obtain ⟨now, staged⟩ := answers.scene
      let step := Step.fresh new type .todo id now
      have added : (agenda.addStep type new).Mirrors (steps ++ [step]) :=
        @Agenda.Mirrors.addStep agenda steps mirrors step isNew rfl
      have nextDrafts : next.Drafts id origin base (steps ++ [step]) :=
        @Batch.ownedAfter_insertStep id steps step rfl ▸ drafts.stage answers rfl staged
      have restUnknown : ∀ other ∈ types, other ∉ (agenda.addStep type new).known := by
        intro other member known
        rw [Agenda.addStep, if_neg isNew] at known
        rcases List.mem_cons.mp known with same | before
        · exact notLater (same ▸ member)
        · exact unknown other (List.mem_cons_of_mem type member) before
      have idle : False → next.Clean allowed id := False.elim
      refine (induction restNodup restUnknown added nextDrafts idle).bind ?_
      intro created passage staged
      obtain ⟨others, matched, mirrors, drafts, _⟩ := staged
      apply obeys_pure
      refine ⟨step :: others, .cons ⟨new, now, rfl⟩ matched, ?_, ?_, ?_⟩
      · simpa [Agenda.addSteps, List.append_assoc] using mirrors
      · simpa [List.append_assoc] using drafts
      · intro _ impossible
        cases impossible

theorem stageUpdates_obeys {updates : List (Uuid × StepUpdate)}
    (drafts : passage.Drafts id origin base steps) (clean : passage.Clean allowed id) :
    Obeys (Passage.rules habits id origin)
      (fun _ passage => ∃ clock,
        passage.Drafts id origin base
            (steps.map (Batch.stepAfter (Change.ofUpdates clock updates))) ∧
          (updates = [] → passage.Clean allowed id))
      (fun _ => Passage.Accounted id origin) (stageUpdates updates) passage := by
  rw [stageUpdates]
  split
  · rename_i nothing
    obtain rfl : updates = [] := by simpa using nothing
    apply obeys_pure
    exact ⟨fun _ => ⟨0, 0⟩, by simpa using drafts, fun _ => clean⟩
  · rename_i something
    refine obeys_ask Passage.stable_drafts drafts
      (fun _ drafts => mayAsk_of_undue drafts.accounted rfl) ?_
    intro passage drafts _ next answers
    obtain ⟨clock, staged⟩ := answers.scene
    have drafts := drafts.stage answers rfl staged
    rw [Batch.ownedAfter_ofUpdates] at drafts
    exact ⟨clock, drafts, fun nothing => absurd (by simpa using nothing) something⟩

/-! ### From one result to the next -/

theorem Resumed.mono {rank higher : Nat} {yielded : Option (DrainResult × Halt)}
    (resumed : Resumed allowed id origin rank yielded passage) (lower : rank ≤ higher) :
    Resumed allowed id origin higher yielded passage := by
  cases yielded with
  | none => exact resumed
  | some yielded => exact ⟨resumed.1, Nat.lt_of_lt_of_le resumed.2 lower⟩

theorem yieldStep_obeys (allows : ∀ change, habits.mayStage change → allowed change)
    (ready : Ready allowed id origin (.renewed type agenda) passage) :
    Obeys (Passage.rules habits id origin)
      (Resumed allowed id origin (Halt.renewed type agenda).rank)
      (fun _ => Passage.Accounted id origin) (yieldStep executor id type agenda) passage := by
  rw [yieldStep, runStep, bind_assoc]
  refine obeys_ask_bind stable_ready ready (fun _ ready => ready.mayAsk rfl) ?_
  intro passage ready reply next answers
  obtain ⟨mirrors, unqueued, _⟩ := ready.mirrors
  obtain ⟨_, clean, drafts⟩ := ready.ask allows answers rfl
  rw [bind_assoc]
  refine obeys_ofExcept_bind ?_ fun failure _ => drafts.accounted
  intro result replied
  subst replied
  have tells {after : List Step} : (Outcome.ran type result).Applies id
      (passage.scene.rows.owned id) after → Exchange.Applied id origin next.log after :=
    ready.toSettled.tells answers rfl
  have unique := ready.keyed.nodup_owned id
  have sameLacking : ∀ settled skipped, Steps.lacking (result.schedule.getD [])
      ((Outcome.ran type result).resolved settled skipped (passage.scene.rows.owned id)) =
        Steps.lacking (result.schedule.getD []) (passage.scene.rows.owned id) := fun _ _ =>
    Steps.lacking_congr Outcome.map_type_resolved
  simp only [bind_assoc, pure_bind]
  refine (stageUpdates_obeys drafts clean).bind ?_
  intro _ passage updated
  obtain ⟨clock, drafts, cleanUnlessUpdated⟩ := updated
  obtain ⟨settledAt, skippedAt, settled, sameSteps⟩ :=
    mirrors.afterResult unique unqueued clock result
  rw [sameSteps] at drafts
  refine (stageSteps_obeys Agenda.nodup_unknown
    (fun _ => Agenda.notMem_known_of_mem_unknown) settled drafts cleanUnlessUpdated).bind ?_
  intro created passage staged
  obtain ⟨added, scheduled, mirrors, drafts, cleanUnlessCreated⟩ := staged
  rw [settled.unknown_eq, sameLacking settledAt skippedAt] at scheduled
  refine obeys_ask_bind
    (Passage.stable_drafts.and (Passage.stable_clean.imp.imp)) ⟨drafts, cleanUnlessCreated⟩
    (fun _ holds => mayAsk_of_undue holds.1.accounted rfl) ?_
  intro passage holds _ next answers
  obtain ⟨drafts, clean⟩ := holds
  have same : next.scene = passage.scene := answers.scene
  have drafts := drafts.same answers rfl same
  refine ⟨⟨drafts.accounted, ?_, ?_, ?_⟩, ?_⟩
  · rw [drafts.draft]
    exact drafts.follows.applied (tells ⟨settledAt, skippedAt, added, scheduled, rfl⟩)
  · rw [drafts.draft]
    exact Halt.mirrors_afterStep mirrors
  · intro unsaved
    have nothing := DrainResult.unmodified_of_ne_saveRequested unsaved
    simp only [Bool.or_eq_false_iff, Bool.not_eq_false', List.isEmpty_iff] at nothing
    rw [Passage.Clean, same]
    exact clean nothing.1.2 nothing.2
  · apply Nat.lt_succ_of_le
    apply Nat.le_trans Halt.rank_afterStep_le
    apply Nat.mul_le_mul_left
    exact Nat.le_trans (Agenda.measure_addSteps_le _ _) (Agenda.measure_afterResult_le _ _ _)

/-- A step that comes next is run, unless the lease is to be renewed for it first. -/
theorem renewOrYield_obeys (allows : ∀ change, habits.mayStage change → allowed change)
    (ready : Ready allowed id origin (.renewed type agenda) passage) {rank : Nat}
    (lower : (Halt.renewed type agenda).rank < rank) :
    Obeys (Passage.rules habits id origin) (Resumed allowed id origin rank)
      (fun _ => Passage.Accounted id origin)
      (do
        if ← Action.ofExcept (← Action.ask (.needsLease executor type)) then
          return some (.leaseRequested, .renewed type agenda)
        else yieldStep executor id type agenda)
      passage := by
  refine obeys_ask_bind stable_ready ready (fun _ ready => ready.mayAsk rfl) ?_
  intro passage ready reply next answers
  obtain ⟨sameRows, _⟩ := ready.ask allows answers rfl
  have settled := ready.ask_silent allows answers rfl rfl
  have ready : Ready allowed id origin (.renewed type agenda) next :=
    ⟨settled, sameRows ▸ ready.mirrors⟩
  refine obeys_ofExcept_bind ?_ fun failure _ => settled.accounted
  intro needed _
  cases needed with
  | true =>
      apply obeys_pure
      refine ⟨⟨settled.accounted, ?_, ?_, fun _ => settled.clean⟩, lower⟩
      · rw [settled.clean.draft_eq]
        exact settled.applied
      · rw [settled.clean.draft_eq]
        exact ready.mirrors
  | false =>
      apply (yieldStep_obeys allows ready).imp
      intro yielded passage resumed
      exact resumed.mono (Nat.le_of_lt lower)

/-- **From one result to the next.**  A drain that is ready yields the next result or
ends settled, unless an executor fails. -/
theorem resume_obeys (executor : ProcessType)
    (allows : ∀ change, habits.mayStage change → allowed change)
    (ready : Ready allowed id origin halt passage) :
    Obeys (Passage.rules habits id origin) (Resumed allowed id origin halt.rank)
      (fun _ => Passage.Accounted id origin) (resume executor id halt) passage := by
  cases halt with
  | renewed type agenda => exact yieldStep_obeys allows ready
  | pending type agenda =>
      rw [resume]
      refine obeys_ask_bind stable_settled ready.toSettled (fun _ settled => settled.mayAsk rfl) ?_
      intro passage settled _ next answers
      exact obeys_pure (settled.same answers rfl answers.scene)
  | ready agenda =>
      rw [resume]
      refine obeys_ask_bind stable_ready ready (fun _ ready => ready.toSettled.mayAsk rfl) ?_
      intro passage ready cancelled next answers
      have same : next.scene = passage.scene := answers.scene
      have settled := ready.toSettled.same answers rfl same
      have mirrors : agenda.Mirrors (next.scene.rows.owned id) := same ▸ ready.mirrors
      cases cancelled with
      | true =>
          rw [if_pos rfl]
          refine obeys_ask_bind stable_settled settled (fun _ settled => settled.mayAsk rfl) ?_
          intro passage settled _ next answers
          exact obeys_pure (settled.same answers rfl answers.scene)
      | false =>
          rw [if_neg (by simp)]
          split
          · exact obeys_pure settled
          · rename_i type rest found
            obtain ⟨restMirrors, unqueued, queued⟩ := mirrors.next? found
            have smaller := Agenda.measure_of_next? found
            refine renewOrYield_obeys allows
              ⟨settled, restMirrors, unqueued, mirrors.exists_isDue queued⟩ ?_
            simp only [Halt.rank]
            omega

end Drain

open Drain in
/-- **Up to the first result.**  A drain begins by preparing its process. -/
theorem Registry.begin_obeys {habits : Habits} {id : Uuid} {origin : List Step}
    {allowed : Change → Prop} {passage : Passage} {type : ProcessType} (registry : Registry)
    (allows : ∀ change, habits.mayStage change → allowed change)
    (settled : Settled allowed id origin passage) :
    Obeys (Passage.rules habits id origin)
      (fun yielded => Yields allowed id origin yielded.1 yielded.2)
      (fun _ => Passage.Accounted id origin) (registry.begin id type) passage := by
  rw [Registry.begin]
  split
  · exact obeys_throw settled.accounted
  · rename_i registration _
    refine obeys_ask_bind stable_settled settled (fun _ settled => settled.mayAsk rfl) ?_
    intro passage settled reply next answers
    obtain ⟨_, read, same⟩ := answers.scene
    have settled := settled.same answers rfl same
    refine obeys_ofExcept_bind ?_ fun _ _ => settled.accounted
    intro steps replied
    have listed : next.scene.rows.pendingSteps id = steps := same ▸ (read steps replied).symm
    have stableList : (Passage.rules habits id origin).Stable
        fun passage => passage.scene.rows.pendingSteps id = steps :=
      fun _ _ listed undisturbed =>
        (Rows.pendingSteps_congr undisturbed.scene.steps).trans listed
    refine obeys_ask_bind (stable_settled.and stableList) ⟨settled, listed⟩
      (fun _ holds => holds.1.mayAsk rfl) ?_
    intro passage holds reply next answers
    obtain ⟨settled, listed⟩ := holds
    obtain ⟨_, read, same⟩ := answers.scene
    have settled := settled.same answers rfl same
    refine obeys_ofExcept_bind ?_ fun _ _ => settled.accounted
    intro types replied
    have ready : Ready allowed id origin
        (.ready (Agenda.load registration.executable steps types)) next := by
      refine ⟨settled, ?_⟩
      rw [read types replied, ← listed, ← same]
      exact Rows.mirrors_load settled.keyed registration.executable
    refine obeys_ask_bind stable_ready ready (fun _ ready => ready.toSettled.mayAsk rfl) ?_
    intro passage ready reply next answers
    have mirrors : Agenda.Mirrors _ (passage.scene.rows.owned id) := ready.mirrors
    obtain ⟨_, clean, drafts⟩ := ready.ask allows answers rfl
    refine obeys_ofExcept_bind ?_ fun _ _ => drafts.accounted
    intro preparation replied
    subst replied
    have tells {after : List Step} : (Outcome.prepared preparation).Applies id
        (passage.scene.rows.owned id) after → Exchange.Applied id origin next.log after :=
      ready.toSettled.tells answers rfl
    refine (stageSteps_obeys Agenda.nodup_unknown
      (fun _ => Agenda.notMem_known_of_mem_unknown) mirrors drafts (fun _ : True => clean)).bind ?_
    intro created passage staged
    obtain ⟨added, scheduled, addedMirrors, drafts, clean⟩ := staged
    rw [mirrors.unknown_eq] at scheduled
    refine obeys_pure ⟨drafts.accounted, ?_, ?_, ?_⟩
    · rw [drafts.draft]
      exact drafts.follows.applied
        (tells ⟨fun _ => ⟨0, 0⟩, fun _ => ⟨0, 0⟩, added, scheduled, rfl⟩)
    · rw [drafts.draft]
      exact addedMirrors
    · intro unsaved
      have nothing := DrainResult.unmodified_of_ne_saveRequested unsaved
      simp only [Bool.or_eq_false_iff, Bool.not_eq_false', List.isEmpty_iff] at nothing
      exact clean trivial nothing.2

end Workflow
