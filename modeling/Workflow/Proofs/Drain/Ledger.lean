import Mathlib.Data.Finset.Basic
import Mathlib.Data.Finset.Dedup
import Mathlib.Data.Finset.Filter
import Mathlib.Data.Finset.Lattice.Lemmas
import Mathlib.Data.Finset.SDiff
import Mathlib.Data.List.Nodup
import Workflow.Proofs.Attempt.Course
import Workflow.Proofs.Drain.Mirror

/-!
# What a drain has been told

Everything that a drain knows of its process it has been told in its conversation: by
the store at its beginning, and then by the executor.  A *ledger* keeps account of this
without any regard to how the drain works: which types have pending steps, which ones
were scheduled, skipped or run, and how many results asked for a renewed lease or for a
commit.

The agenda of a drain *agrees* with the ledger of what has been said.
-/

namespace Workflow

namespace DrainResult

def renewals : DrainResult → Nat
  | leaseRequested => 1
  | _ => 0

def saves : DrainResult → Nat
  | saveRequested => 1
  | _ => 0

end DrainResult

/-- An account of the step types of a process in the course of a drain. -/
@[ext] structure Ledger where
  /-- The types with pending steps at the beginning. -/
  loaded : Finset StepType
  /-- The types with steps in any status. -/
  known : Finset StepType
  /-- The types that the process has got in the course of the drain. -/
  scheduled : Finset StepType
  /-- The types whose pending steps have been skipped. -/
  skipped : Finset StepType
  /-- The types with pending steps. -/
  pending : Finset StepType
  /-- The types that have been run, in this order. -/
  ran : List StepType
  /-- How many results asked for a renewed lease. -/
  renewals : Nat
  /-- How many results asked for a commit. -/
  saves : Nat

namespace Ledger

def empty : Ledger := ⟨∅, ∅, ∅, ∅, ∅, [], 0, 0⟩

/-- The types among the requested ones that the process does not have. -/
def lacking (ledger : Ledger) (types : List StepType) : Finset StepType :=
  types.toFinset \ ledger.known

/-- The types that can be run and have not been. -/
def candidates (ledger : Ledger) (executable : List StepType) : Finset StepType :=
  ledger.pending.filter fun type => type ∈ executable ∧ type ∉ ledger.ran

/-- Types with pending steps are loaded. -/
def load (types : List StepType) (ledger : Ledger) : Ledger :=
  { ledger with
    loaded := ledger.loaded ∪ types.toFinset
    known := ledger.known ∪ types.toFinset
    pending := ledger.pending ∪ types.toFinset }

def learn (types : List StepType) (ledger : Ledger) : Ledger :=
  { ledger with known := ledger.known ∪ types.toFinset }

/-- Each type that the process does not have gets a pending step. -/
def schedule (types : List StepType) (ledger : Ledger) : Ledger :=
  { ledger with
    scheduled := ledger.scheduled ∪ ledger.lacking types
    known := ledger.known ∪ ledger.lacking types
    pending := ledger.pending ∪ ledger.lacking types }

def run (type : StepType) (ledger : Ledger) : Ledger :=
  { ledger with ran := ledger.ran ++ [type] }

/-- A type that has been run is no longer pending, unless its status says so. -/
def finish (type : StepType) (status : StepStatus) (ledger : Ledger) : Ledger :=
  { ledger with
    pending := if status = .todo then ledger.pending else ledger.pending.erase type }

/-- Types are skipped as far as they are pending. -/
def skip (types : List StepType) (ledger : Ledger) : Ledger :=
  { ledger with
    skipped := ledger.skipped ∪ ledger.pending ∩ types.toFinset
    pending := ledger.pending \ types.toFinset }

/-- The result of a step takes effect: its status, what it skips and what it
schedules. -/
def settle (type : StepType) (result : StepResult) (ledger : Ledger) : Ledger :=
  ((ledger.finish type result.status).skip (result.skip.getD [])).schedule
    (result.schedule.getD [])

/-- Whether the result of a step changes any step. -/
def isChangedBy (ledger : Ledger) (type : StepType) (result : StepResult) : Bool :=
  decide (type ∈ ledger.pending ∧ ¬(result.status = .todo ∧ result.message = none)) ||
    decide (((ledger.finish type result.status).pending ∩
      (result.skip.getD []).toFinset).Nonempty) ||
    decide ((ledger.lacking (result.schedule.getD [])).Nonempty)

/-- What has to be done with the process after a turn, if it is a turn of an executor. -/
def due (ledger : Ledger) : Turn → DrainResult
  | ⟨.prepare _ _ _, .ok preparation⟩ => .ofModified
      (preparation.modified || decide (ledger.lacking (preparation.schedule.getD [])).Nonempty)
  | ⟨.needsLease _ _, .ok true⟩ => .leaseRequested
  | ⟨.execute _ _ type _, .ok result⟩ =>
    .ofModified (result.modified || ledger.isChangedBy type result)
  | _ => .unmodified

def count (result : DrainResult) (ledger : Ledger) : Ledger :=
  match result with
  | .saveRequested => { ledger with saves := ledger.saves + 1 }
  | .leaseRequested => { ledger with renewals := ledger.renewals + 1 }
  | .unmodified => ledger

/-- What a turn tells of the types of the process. -/
def hear (ledger : Ledger) : Turn → Ledger
  | ⟨.pendingSteps _, .ok steps⟩ => ledger.load (steps.map PendingStep.type)
  | ⟨.stepTypes _, .ok types⟩ => ledger.learn types
  | ⟨.prepare _ _ _, .ok preparation⟩ => ledger.schedule (preparation.schedule.getD [])
  | ⟨.execute _ _ type _, .ok result⟩ => (ledger.run type).settle type result
  | ⟨.execute _ _ type _, .error _⟩ => ledger.run type
  | _ => ledger

def record (ledger : Ledger) (turn : Turn) : Ledger :=
  (ledger.hear turn).count (ledger.due turn)

/-- The account of a conversation. -/
def of (said : List Turn) : Ledger :=
  said.foldl record empty

@[simp] theorem of_nil : of [] = empty := rfl

@[simp] theorem of_append_singleton {said : List Turn} {turn : Turn} :
    of (said ++ [turn]) = (of said).record turn := by
  rw [of, List.foldl_append]
  rfl

/-- What is true of the account of every drain. -/
structure Sound (ledger : Ledger) : Prop where
  origin : ∀ type ∈ ledger.pending, type ∈ ledger.loaded ∨ type ∈ ledger.scheduled
  known : ∀ type ∈ ledger.pending, type ∈ ledger.known
  unskipped : ∀ type ∈ ledger.pending, type ∉ ledger.skipped
  skippedKnown : ∀ type ∈ ledger.skipped, type ∈ ledger.known
  ranKnown : ∀ type ∈ ledger.ran, type ∈ ledger.known
  ranOnce : ledger.ran.Nodup

variable {ledger : Ledger} {type other : StepType} {types others executable : List StepType}
  {status : StepStatus} {result : StepResult} {due : DrainResult}

theorem mem_candidates : type ∈ ledger.candidates executable ↔
    type ∈ ledger.pending ∧ type ∈ executable ∧ type ∉ ledger.ran := by
  rw [candidates, Finset.mem_filter]

theorem mem_lacking : type ∈ ledger.lacking types ↔ type ∈ types ∧ type ∉ ledger.known := by
  rw [lacking, Finset.mem_sdiff, List.mem_toFinset]

theorem mem_pending_schedule : other ∈ (ledger.schedule types).pending ↔
    other ∈ ledger.pending ∨ other ∈ types ∧ other ∉ ledger.known := by
  rw [schedule, Finset.mem_union, mem_lacking]

theorem mem_known_schedule :
    other ∈ (ledger.schedule types).known ↔ other ∈ ledger.known ∨ other ∈ types := by
  rw [schedule, Finset.mem_union, mem_lacking]
  tauto

theorem mem_pending_skip : other ∈ (ledger.skip types).pending ↔
    other ∈ ledger.pending ∧ other ∉ types := by
  rw [skip, Finset.mem_sdiff, List.mem_toFinset]

theorem mem_pending_finish : other ∈ (ledger.finish type status).pending ↔
    other ∈ ledger.pending ∧ (status = .todo ∨ other ≠ type) := by
  rw [finish]
  split
  · simp_all
  · simp_all [and_comm]

theorem schedule_cons :
    ledger.schedule (type :: types) = (ledger.schedule [type]).schedule types := by
  ext other <;>
    simp only [schedule, lacking, List.toFinset_cons, List.toFinset_nil, Finset.mem_union,
      Finset.mem_sdiff, Finset.mem_insert, Finset.notMem_empty, List.mem_toFinset, or_false]
  all_goals tauto

theorem schedule_congr (same : ledger.lacking types = ledger.lacking others) :
    ledger.schedule types = ledger.schedule others := by
  rw [schedule, schedule, same]

theorem skip_cons : ledger.skip (type :: types) = (ledger.skip [type]).skip types := by
  ext other <;>
    simp only [skip, List.toFinset_cons, List.toFinset_nil, Finset.mem_union, Finset.mem_inter,
      Finset.mem_sdiff, Finset.mem_insert, Finset.notMem_empty, List.mem_toFinset, or_false]
  all_goals tauto

theorem sound_load (pending types : List StepType) :
    ((empty.load pending).learn types).Sound := by
  constructor <;> simp only [load, learn, empty, Finset.empty_union] <;> simp
  tauto

theorem Sound.schedule (sound : ledger.Sound) (types : List StepType) :
    (ledger.schedule types).Sound where
  origin := by
    intro type pending
    rcases mem_pending_schedule.mp pending with before | added
    · exact (sound.origin type before).imp_right (Finset.mem_union_left _)
    · exact .inr (Finset.mem_union_right _ (mem_lacking.mpr added))
  known := by
    intro type pending
    rcases mem_pending_schedule.mp pending with before | added
    · exact mem_known_schedule.mpr (.inl (sound.known type before))
    · exact mem_known_schedule.mpr (.inr added.1)
  unskipped := by
    intro type pending skipped
    rcases mem_pending_schedule.mp pending with before | added
    · exact sound.unskipped type before skipped
    · exact added.2 (sound.skippedKnown type skipped)
  skippedKnown := fun type skipped =>
    mem_known_schedule.mpr (.inl (sound.skippedKnown type skipped))
  ranKnown := fun type ran => mem_known_schedule.mpr (.inl (sound.ranKnown type ran))
  ranOnce := sound.ranOnce

theorem Sound.skip (sound : ledger.Sound) (types : List StepType) : (ledger.skip types).Sound where
  origin := fun type pending => sound.origin type (mem_pending_skip.mp pending).1
  known := fun type pending => sound.known type (mem_pending_skip.mp pending).1
  unskipped := by
    intro type pending skipped
    obtain ⟨before, kept⟩ := mem_pending_skip.mp pending
    rcases Finset.mem_union.mp skipped with earlier | now
    · exact sound.unskipped type before earlier
    · exact kept (List.mem_toFinset.mp (Finset.mem_inter.mp now).2)
  skippedKnown := by
    intro type skipped
    rcases Finset.mem_union.mp skipped with earlier | now
    · exact sound.skippedKnown type earlier
    · exact sound.known type (Finset.mem_inter.mp now).1
  ranKnown := sound.ranKnown
  ranOnce := sound.ranOnce

theorem Sound.finish (sound : ledger.Sound) (type : StepType) (status : StepStatus) :
    (ledger.finish type status).Sound where
  origin := fun other pending => sound.origin other (mem_pending_finish.mp pending).1
  known := fun other pending => sound.known other (mem_pending_finish.mp pending).1
  unskipped := fun other pending => sound.unskipped other (mem_pending_finish.mp pending).1
  skippedKnown := sound.skippedKnown
  ranKnown := sound.ranKnown
  ranOnce := sound.ranOnce

theorem Sound.run (sound : ledger.Sound) (candidate : type ∈ ledger.candidates executable) :
    (ledger.run type).Sound := by
  obtain ⟨pending, _, notRun⟩ := mem_candidates.mp candidate
  refine ⟨sound.origin, sound.known, sound.unskipped, sound.skippedKnown, ?_, ?_⟩
  · intro other ran
    rcases List.mem_append.mp ran with before | last
    · exact sound.ranKnown other before
    · exact List.mem_singleton.mp last ▸ sound.known type pending
  · exact List.nodup_append.mpr ⟨sound.ranOnce, List.nodup_singleton type, by
      rintro first ran _ last rfl
      exact notRun (List.mem_singleton.mp last ▸ ran)⟩

theorem Sound.settle (sound : ledger.Sound) (type : StepType) (result : StepResult) :
    (ledger.settle type result).Sound :=
  ((sound.finish type result.status).skip _).schedule _

theorem candidates_count : (ledger.count due).candidates executable =
    ledger.candidates executable := by
  cases due <;> rfl

theorem run_count : (ledger.count due).run type = (ledger.run type).count due := by
  cases due <;> rfl

theorem renewals_count : (ledger.count due).renewals = ledger.renewals + due.renewals := by
  cases due <;> rfl

theorem saves_count : (ledger.count due).saves = ledger.saves + due.saves := by
  cases due <;> rfl

theorem hear_counts {turn : Turn} :
    (ledger.hear turn).renewals = ledger.renewals ∧ (ledger.hear turn).saves = ledger.saves := by
  obtain ⟨request, reply⟩ := turn
  cases request with
  | pendingSteps _ | stepTypes _ | prepare _ _ _ | execute _ _ _ _ =>
      cases reply <;> exact ⟨rfl, rfl⟩
  | _ => exact ⟨rfl, rfl⟩

theorem renewals_record {turn : Turn} :
    (ledger.record turn).renewals = ledger.renewals + (ledger.due turn).renewals := by
  rw [record, renewals_count, hear_counts.1]

theorem saves_record {turn : Turn} :
    (ledger.record turn).saves = ledger.saves + (ledger.due turn).saves := by
  rw [record, saves_count, hear_counts.2]

theorem Sound.count (sound : ledger.Sound) (due : DrainResult) : (ledger.count due).Sound := by
  cases due <;> exact ⟨sound.origin, sound.known, sound.unskipped, sound.skippedKnown,
    sound.ranKnown, sound.ranOnce⟩

end Ledger

namespace Agenda

/-- The agenda lists the types that are pending according to a ledger, and queues those that
can be run and have not been. -/
structure Agrees (executable : List StepType) (agenda : Agenda) (ledger : Ledger) : Prop where
  runs : agenda.executable = executable
  listed : ∀ type ∈ agenda.types, agenda.stepsOf type ≠ []
  pending : ∀ type, type ∈ agenda.types ↔ type ∈ ledger.pending
  known : ∀ type, type ∈ agenda.known ↔ type ∈ ledger.known
  queue : ∀ type, type ∈ agenda.queue ↔ type ∈ ledger.candidates executable

open Ledger

variable {agenda rest : Agenda} {ledger : Ledger} {type other : StepType}
  {types executable : List StepType} {status : StepStatus} {message : Option String}
  {result : StepResult}

/-! ### The smallest type -/

theorem smallest_eq_none_iff {types : List StepType} : smallest types = none ↔ types = [] := by
  cases types with
  | nil => simp [smallest]
  | cons type rest =>
      rw [smallest]
      cases smallest rest with
      | none => simp
      | some other =>
          dsimp only
          split <;> simp

theorem code_smallest_le {types : List StepType} (found : smallest types = some type) :
    ∀ other ∈ types, type.code ≤ other.code := by
  induction types generalizing type with
  | nil => cases found
  | cons first rest induction =>
      rw [smallest] at found
      cases restFound : smallest rest with
      | none =>
          obtain rfl := smallest_eq_none_iff.mp restFound
          simp_all [smallest]
      | some least =>
          have least_le := induction restFound
          rw [restFound] at found
          simp only at found
          intro other member
          split at found <;> cases found <;> rcases List.mem_cons.mp member with rfl | later
          · exact Nat.le_refl _
          · exact Nat.le_trans ‹_› (least_le other later)
          · exact Nat.le_of_lt (Nat.lt_of_not_le ‹_›)
          · exact least_le other later

/-! ### Loading -/

theorem agrees_load (executable : List StepType) (steps : List PendingStep)
    (types : List StepType) : (load executable steps types).Agrees executable
      ((empty.load (steps.map PendingStep.type)).learn types) := by
  have listed : ∀ type ∈ (load executable steps types).types,
      (load executable steps types).stepsOf type ≠ [] := by
    intro type member
    obtain ⟨step, isPending, rfl⟩ := (types_load executable steps types).2 type member
    rw [stepsOf_load]
    exact List.map_eq_nil_iff.not.mpr (List.ne_nil_of_mem
      (List.mem_filter.mpr ⟨isPending, beq_self_eq_true _⟩))
  have pending : ∀ type, type ∈ (load executable steps types).types ↔
      type ∈ steps.map PendingStep.type := by
    intro type
    constructor
    · intro member
      obtain ⟨step, isPending, rfl⟩ := (types_load executable steps types).2 type member
      exact List.mem_map_of_mem isPending
    · intro member
      obtain ⟨step, isPending, rfl⟩ := List.mem_map.mp member
      apply mem_types_of_stepsOf_ne_nil
      rw [stepsOf_load]
      exact List.map_eq_nil_iff.not.mpr (List.ne_nil_of_mem
        (List.mem_filter.mpr ⟨isPending, beq_self_eq_true _⟩))
  have queue : (load executable steps types).queue =
      (load executable steps types).types.filter executable.contains := rfl
  refine ⟨rfl, listed, ?_, ?_, ?_⟩
  · intro type
    simp [pending, Ledger.load, learn, empty]
  · intro type
    have known : (load executable steps types).known =
        types ++ (load executable steps types).types.filter fun type => !types.contains type := rfl
    rw [known]
    by_cases isKnown : type ∈ types <;> simp [pending, Ledger.load, learn, empty, isKnown]
  · intro type
    rw [queue, List.mem_filter, pending, mem_candidates]
    simp [Ledger.load, learn, empty]

/-! ### Running -/

theorem Agrees.next? (agrees : agenda.Agrees executable ledger)
    (found : agenda.next? = some (type, rest)) :
    type ∈ ledger.candidates executable ∧
      (∀ other ∈ ledger.candidates executable, type.code ≤ other.code) ∧
      rest.Agrees executable (ledger.run type) := by
  simp only [Agenda.next?, Option.map_eq_some_iff, Prod.mk.injEq] at found
  obtain ⟨_, isSmallest, rfl, rfl⟩ := found
  refine ⟨(agrees.queue _).mp (smallest_mem isSmallest), ?_, ?_⟩
  · intro other candidate
    exact code_smallest_le isSmallest other ((agrees.queue other).mpr candidate)
  · refine ⟨agrees.runs, agrees.listed, agrees.pending, agrees.known, ?_⟩
    intro other
    have queued := agrees.queue other
    rw [mem_candidates] at queued ⊢
    simp only [List.mem_filter, queued, bne_iff_ne, run, List.mem_append, List.mem_singleton]
    tauto

theorem Agrees.candidates_eq_empty (agrees : agenda.Agrees executable ledger)
    (nothing : agenda.next? = none) : ledger.candidates executable = ∅ := by
  have queue : agenda.queue = [] := smallest_eq_none_iff.mp (Option.map_eq_none_iff.mp nothing)
  rw [Finset.eq_empty_iff_forall_notMem]
  intro type candidate
  simpa [queue] using (agrees.queue type).mpr candidate

/-! ### Results -/

theorem Agrees.stepsOf_eq_nil_iff (agrees : agenda.Agrees executable ledger) :
    agenda.stepsOf type = [] ↔ type ∉ ledger.pending := by
  rw [← agrees.pending]
  constructor
  · intro nothing member
    exact agrees.listed type member nothing
  · intro absent
    by_contra listed
    exact absent (mem_types_of_stepsOf_ne_nil listed)

theorem updates_eq_nil_iff {steps : List Uuid} :
    Resolution.updates steps status message = [] ↔ steps = [] := by
  simp [Resolution.updates]

theorem Agrees.dropType (agrees : agenda.Agrees executable ledger) (queue : List StepType)
    {next : Ledger}
    (pending : ∀ other, other ∈ next.pending ↔ other ∈ ledger.pending ∧ other ≠ type)
    (known : next.known = ledger.known)
    (queued : ∀ other, other ∈ queue ↔ other ∈ next.candidates executable) :
    Agrees executable { agenda.dropType type with queue := queue } next := by
  have types : ∀ other, other ∈ (agenda.dropType type).types ↔
      other ∈ agenda.types ∧ other ≠ type := by
    intro other
    rw [types_dropType, List.mem_filter, bne_iff_ne]
  refine ⟨agrees.runs, ?_, ?_, ?_, queued⟩
  · intro other member
    obtain ⟨before, different⟩ := (types other).mp member
    change (agenda.dropType type).stepsOf other ≠ []
    rw [stepsOf_dropType, if_neg different]
    exact agrees.listed other before
  · intro other
    rw [pending, ← agrees.pending]
    exact types other
  · intro other
    rw [known]
    exact agrees.known other

theorem Agrees.settle (agrees : agenda.Agrees executable ledger) (ran : type ∈ ledger.ran) :
    (agenda.settle type status message).1.Agrees executable (ledger.finish type status) := by
  have unqueued : type ∉ agenda.queue := fun queued =>
    (mem_candidates.mp ((agrees.queue type).mp queued)).2.2 ran
  simp only [Agenda.settle]
  split
  · rename_i nothing
    rcases nothing with ⟨rfl, _⟩ | none
    · exact agrees
    · have absent := agrees.stepsOf_eq_nil_iff.mp none
      have same : ledger.finish type status = ledger := by
        rw [finish, Finset.erase_eq_of_notMem absent]
        split <;> rfl
      rwa [same]
  · split
    · rename_i again
      subst again
      refine ⟨agrees.runs, ?_, ?_, agrees.known, agrees.queue⟩
      · intro other member
        rw [types_keepOldest] at member
        have listed := agrees.listed other member
        rw [stepsOf_keepOldest]
        split
        · simpa using listed
        · exact listed
      · intro other
        rw [types_keepOldest]
        exact agrees.pending other
    · rename_i ended
      have pending : ∀ other, other ∈ (ledger.finish type status).pending ↔
          other ∈ ledger.pending ∧ other ≠ type := by
        intro other
        simp [mem_pending_finish, ended]
      refine agrees.dropType agenda.queue pending rfl ?_
      intro other
      rw [mem_candidates, pending, agrees.queue, mem_candidates]
      constructor
      · rintro ⟨isPending, canRun, notRun⟩
        exact ⟨⟨isPending, fun same => notRun (same ▸ ran)⟩, canRun, notRun⟩
      · rintro ⟨⟨isPending, _⟩, canRun, notRun⟩
        exact ⟨isPending, canRun, notRun⟩

theorem Agrees.skipType (agrees : agenda.Agrees executable ledger) :
    (agenda.skipType type).1.Agrees executable (ledger.skip [type]) := by
  have pending : ∀ other, other ∈ (ledger.skip [type]).pending ↔
      other ∈ ledger.pending ∧ other ≠ type := by
    intro other
    rw [mem_pending_skip, List.mem_singleton]
  simp only [Agenda.skipType]
  split
  · rename_i nothing
    refine agrees.dropType agenda.queue pending rfl ?_
    have absent := agrees.stepsOf_eq_nil_iff.mp nothing
    intro other
    rw [mem_candidates, pending, agrees.queue, mem_candidates]
    constructor
    · rintro ⟨isPending, canRun⟩
      exact ⟨⟨isPending, fun same => absent (same ▸ isPending)⟩, canRun⟩
    · rintro ⟨⟨isPending, _⟩, canRun⟩
      exact ⟨isPending, canRun⟩
  · refine agrees.dropType _ pending rfl ?_
    intro other
    rw [mem_candidates, pending, List.mem_filter, agrees.queue, mem_candidates, bne_iff_ne]
    exact and_right_comm

theorem Agrees.skip (agrees : agenda.Agrees executable ledger) (types : List StepType) :
    (agenda.skip types).1.Agrees executable (ledger.skip types) ∧
      ((agenda.skip types).2 = [] ↔ ¬(ledger.pending ∩ types.toFinset).Nonempty) := by
  induction types generalizing agenda ledger with
  | nil => exact ⟨by simpa [Agenda.skip, Ledger.skip] using agrees, by simp [Agenda.skip]⟩
  | cons type types induction =>
      obtain ⟨later, nothing⟩ := induction (@Agrees.skipType _ _ type _ agrees)
      refine ⟨skip_cons ▸ later, ?_⟩
      have first : (agenda.skipType type).2 = [] ↔ type ∉ ledger.pending := by
        rw [← agrees.stepsOf_eq_nil_iff, Agenda.skipType]
        split <;> simp_all [updates_eq_nil_iff]
      have both : (agenda.skip (type :: types)).2 = [] ↔
          (agenda.skipType type).2 = [] ∧ ((agenda.skipType type).1.skip types).2 = [] :=
        List.append_eq_nil_iff
      rw [both, first, nothing]
      simp only [Finset.not_nonempty_iff_eq_empty, Finset.eq_empty_iff_forall_notMem,
        Finset.mem_inter, List.mem_toFinset, mem_pending_skip, List.mem_cons, not_and, not_or]
      constructor
      · rintro ⟨absent, others⟩ other isPending
        have different : other ≠ type := fun same => absent (same ▸ isPending)
        exact ⟨different, others other ⟨isPending, by simpa using different⟩⟩
      · intro unskipped
        refine ⟨fun isPending => (unskipped type isPending).1 rfl, ?_⟩
        exact fun other isPending => (unskipped other isPending.1).2

/-- What the result of a step does to the agenda before any step is scheduled. -/
theorem Agrees.afterResult (agrees : agenda.Agrees executable ledger) (ran : type ∈ ledger.ran)
    (result : StepResult) :
    (agenda.afterResult type result).1.Agrees executable
        ((ledger.finish type result.status).skip (result.skip.getD [])) ∧
      ((agenda.afterResult type result).2 = [] ↔
        ¬(type ∈ ledger.pending ∧ ¬(result.status = .todo ∧ result.message = none)) ∧
          ¬((ledger.finish type result.status).pending ∩
            (result.skip.getD []).toFinset).Nonempty) := by
  have settled := @Agrees.settle _ _ _ _ result.status result.message agrees ran
  obtain ⟨skipped, nothing⟩ := settled.skip (result.skip.getD [])
  refine ⟨skipped, ?_⟩
  have first : (agenda.settle type result.status result.message).2 = [] ↔
      ¬(type ∈ ledger.pending ∧ ¬(result.status = .todo ∧ result.message = none)) := by
    have steps := @Agrees.stepsOf_eq_nil_iff _ _ type _ agrees
    rw [Agenda.settle]
    split
    · rename_i untouched
      rcases untouched with same | none
      · simp [same]
      · simp [steps.mp none]
    · rename_i touched
      rw [not_or] at touched
      have isPending : type ∈ ledger.pending := by
        by_contra absent
        exact touched.2 (steps.mpr absent)
      simp [updates_eq_nil_iff, touched, isPending]
  rw [← first, ← nothing]
  exact List.append_eq_nil_iff

/-! ### Scheduling -/

theorem Agrees.unknown (agrees : agenda.Agrees executable ledger) (types : List StepType) :
    ledger.schedule (agenda.unknown types) = ledger.schedule types ∧
      (agenda.unknown types = [] ↔ ¬(ledger.lacking types).Nonempty) := by
  have listed : ∀ type, type ∈ agenda.unknown types ↔ type ∈ ledger.lacking types := by
    intro type
    simp [Agenda.unknown, mem_lacking, agrees.known]
  constructor
  · apply schedule_congr
    ext type
    rw [mem_lacking, listed, mem_lacking]
    tauto
  · rw [List.eq_nil_iff_forall_not_mem, Finset.not_nonempty_iff_eq_empty,
      Finset.eq_empty_iff_forall_notMem]
    exact forall_congr' fun type => not_congr (listed type)

theorem Agrees.addStep_of_unknown (agrees : agenda.Agrees executable ledger)
    (sound : ledger.Sound) (unknown : type ∉ agenda.known) (step : Uuid) :
    (agenda.addStep type step).Agrees executable (ledger.schedule [type]) := by
  have isNew : type ∉ ledger.known := fun known => unknown ((agrees.known type).mpr known)
  have absent : type ∉ agenda.types := fun member =>
    isNew (sound.known type ((agrees.pending type).mp member))
  have sameExecutable : (agenda.addStep type step).executable = executable := by
    rw [Agenda.addStep, if_neg unknown]
    exact agrees.runs
  refine ⟨sameExecutable, ?_, ?_, ?_, ?_⟩
  · intro other member
    rw [types_addStep unknown, List.mem_append, List.mem_singleton] at member
    rw [stepsOf_addStep unknown absent]
    by_cases same : other = type
    · simp [same]
    · rw [if_neg same]
      exact agrees.listed other (member.resolve_right same)
  · intro other
    rw [types_addStep unknown, List.mem_append, List.mem_singleton, mem_pending_schedule,
      List.mem_singleton, ← agrees.pending other]
    constructor
    · rintro (before | rfl)
      · exact .inl before
      · exact .inr ⟨rfl, isNew⟩
    · exact Or.imp_right And.left
  · intro other
    simp only [known_addStep unknown, List.mem_cons, mem_known_schedule, agrees.known]
    simp [or_comm]
  · intro other
    have notRun : type ∉ ledger.ran := fun ran => isNew (sound.ranKnown type ran)
    have queued := agrees.queue other
    rw [mem_candidates] at queued
    rw [queue_addStep unknown, mem_candidates, mem_pending_schedule, List.mem_singleton,
      agrees.runs]
    change _ ↔ _ ∧ other ∈ executable ∧ other ∉ ledger.ran
    by_cases same : other = type
    · subst same
      have absent : other ∉ ledger.pending := fun pending => isNew (sound.known _ pending)
      by_cases canRun : other ∈ executable <;> simp [canRun, queued, isNew, notRun, absent]
    · by_cases canRun : type ∈ executable <;> simp [canRun, queued, same]

theorem Agrees.addStep (agrees : agenda.Agrees executable ledger) (sound : ledger.Sound)
    (type : StepType) (step : Uuid) :
    (agenda.addStep type step).Agrees executable (ledger.schedule [type]) := by
  by_cases isKnown : type ∈ agenda.known
  · have nothing : ledger.lacking [type] = ∅ := by
      rw [Finset.eq_empty_iff_forall_notMem]
      intro other lacks
      obtain ⟨same, isNew⟩ := mem_lacking.mp lacks
      rw [List.mem_singleton.mp same] at isNew
      exact isNew ((agrees.known type).mp isKnown)
    have same : ledger.schedule [type] = ledger := by simp [Ledger.schedule, nothing]
    rw [Agenda.addStep, if_pos isKnown]
    rwa [same]
  · exact agrees.addStep_of_unknown sound isKnown step

theorem Agrees.addSteps (agrees : agenda.Agrees executable ledger) (sound : ledger.Sound)
    (created : List (StepType × Uuid)) :
    (agenda.addSteps created).Agrees executable (ledger.schedule (created.map Prod.fst)) := by
  induction created generalizing agenda ledger with
  | nil => simpa [Ledger.schedule, lacking, Agenda.addSteps] using agrees
  | cons step created induction =>
      rw [List.map_cons, schedule_cons]
      exact induction (agrees.addStep sound step.1 step.2) (sound.schedule [step.1])

theorem Agrees.count (agrees : agenda.Agrees executable ledger) (due : DrainResult) :
    agenda.Agrees executable (ledger.count due) := by
  cases due <;> exact ⟨agrees.runs, agrees.listed, agrees.pending, agrees.known, agrees.queue⟩

/-- The agenda after a step agrees with what its result says, and the result changes
something exactly if the drain stages something. -/
theorem Agrees.applyResult (agrees : agenda.Agrees executable (ledger.run type))
    (sound : (ledger.run type).Sound) (result : StepResult) {created : List (StepType × Uuid)}
    (scheduled : created.map Prod.fst =
      (agenda.afterResult type result).1.unknown (result.schedule.getD [])) :
    ((agenda.afterResult type result).1.addSteps created).Agrees executable
        ((ledger.run type).settle type result) ∧
      (!(agenda.afterResult type result).2.isEmpty || !created.isEmpty) =
        ledger.isChangedBy type result := by
  have ran : type ∈ (ledger.run type).ran := by simp [run]
  obtain ⟨settled, untouched⟩ := agrees.afterResult ran result
  obtain ⟨sameSchedule, nothing⟩ := settled.unknown (result.schedule.getD [])
  have settledSound := (sound.finish type result.status).skip (result.skip.getD [])
  constructor
  · have added := settled.addSteps settledSound created
    rw [scheduled, sameSchedule] at added
    exact added
  · have none : created = [] ↔ ¬(ledger.lacking (result.schedule.getD [])).Nonempty := by
      rw [← List.map_eq_nil_iff (f := Prod.fst), scheduled]
      exact nothing
    have unchanged : (agenda.afterResult type result).2 = [] ↔
        ¬(type ∈ ledger.pending ∧ ¬(result.status = .todo ∧ result.message = Option.none)) ∧
          ¬((ledger.finish type result.status).pending ∩
            (result.skip.getD []).toFinset).Nonempty := untouched
    rw [isChangedBy, Bool.eq_iff_iff]
    simp only [Bool.or_eq_true, Bool.not_eq_true', List.isEmpty_eq_false_iff, decide_eq_true_eq]
    rw [Ne, Ne, none, unchanged, not_not, ← or_iff_not_and_not]

end Agenda

end Workflow
