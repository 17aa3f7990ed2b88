import Mathlib.Logic.Relation
import Workflow.Dispatch
import Workflow.Proofs.Crew.Basic
import Workflow.Proofs.Manual.Mirror

/-!
# Outcomes are final and types are added once

Workers, operators and dispatchers share a store.  None of them relies on a lease: a
worker whose lease has expired may go on, and an operator may work on what has long
been changed.  Still every commit respects the steps of its process.  It contains an
update of the process, so it takes effect only if nobody else has written since the
steps were read.

Identifiers are new when their rows are committed, and executors stage no steps.
-/

namespace Workflow

/-- What an operator works with: a manual context and what is staged for it. -/
structure Draft where
  context : ManualContext
  staged : Batch

/-- Workers and operators that share a store. -/
structure Office (ω π : Type) where
  crew : Crew ω
  drafts : π → Option Draft

/-- What every commit does to the store. -/
structure Rows.Progresses (before after : Rows) : Prop where
  advances : ∀ id, before.Advances True id after
  outcomes : before.KeepsOutcomes after
  types : before.AddsNewTypes after

namespace Office

variable {ω π : Type} [DecidableEq ω] [DecidableEq π]

abbrev rows (office : Office ω π) : Rows :=
  office.crew.rows

/-- The office after an operator has changed its draft. -/
def put (office : Office ω π) (operator : π) (draft : Option Draft) : Office ω π :=
  { office with drafts := Function.update office.drafts operator draft }

/-- The office after somebody other than a worker has written. -/
def store (office : Office ω π) (rows : Rows) : Office ω π :=
  { office with crew := office.crew.store rows }

/-- What can happen next. -/
inductive Move (office : Office ω π) : Office ω π → Prop where
  | work {committed : Option (Commit ω)} {crew : Crew ω}
      (moved : Crew.Move .stepless office.crew committed crew) :
      Move office { office with crew }
  | check (operator : π) {id : Uuid} {filter : Option (List StepType)} {current : StepType}
      {owner : String} {now : Timestamp} {context : ManualContext}
      (closed : office.drafts operator = none)
      (checked : ManualContext.check (office.rows.load? id filter) current owner now =
        .ok context) :
      Move office (office.put operator (some ⟨context, []⟩))
  | perform (operator : π) {draft : Draft} {clock : Readings} {ids : List Uuid}
      {operation : ManualOp} {context : ManualContext} {batch : Batch}
      (holds : office.drafts operator = some draft)
      (performed : draft.context.perform clock ids operation = .ok (context, batch)) :
      Move office (office.put operator (some ⟨context, draft.staged ++ batch⟩))
  | save (operator : π) {draft : Draft} {after : Rows}
      (holds : office.drafts operator = some draft)
      (updates : Batch.Updates draft.context.process.id draft.staged)
      (fresh : Batch.IsFresh office.rows draft.staged)
      (committed : office.rows.commit draft.staged = .ok after) :
      Move office ((office.store after).put operator (some ⟨draft.context, []⟩))
  /-- A save has failed, or what was staged has been dropped. -/
  | abandon (operator : π) : Move office (office.put operator none)
  | dispatch {types steps : List StepType} {type : ProcessType} {id : Uuid}
      {stepIds : List Uuid} {clock : Readings} {after : Rows}
      (initial : Dispatch.initialTypes types = .ok steps)
      (fresh : Batch.IsFresh office.rows
        (Dispatch.changes (Dispatch.newProcess type steps id stepIds clock)))
      (committed : office.rows.commit
        (Dispatch.changes (Dispatch.newProcess type steps id stepIds clock)) = .ok after) :
      Move office (office.store after)

/-- What can come about from any store, with nobody having done anything yet. -/
inductive Reachable : Office ω π → Prop where
  | start {rows : Rows} (keyed : rows.Keyed) (held : ω → Process) :
      Reachable ⟨⟨rows, fun worker => Desk.idle (held worker)⟩, fun _ => none⟩
  | move {office next : Office ω π} : Reachable office → Move office next → Reachable next

end Office

/-! ### Every commit progresses -/

namespace Rows

variable {rows after : Rows} {batch : Batch} {id : Uuid}

theorem Progresses.refl (rows : Rows) : rows.Progresses rows where
  advances := fun _ => .refl _ _ _
  outcomes := .refl rows
  types :=
    { absent := fun _ member isNew => absurd (List.mem_map_of_mem member) isNew
      distinct := fun _ member isNew => absurd (List.mem_map_of_mem member) isNew }

theorem progresses_commit (keyed : rows.Keyed) (raises : Batch.Raises batch)
    (fresh : Batch.IsFresh rows batch) (respects : Batch.Respects id (rows.owned id) batch)
    (guard : Batch.Updates id batch ∨ rows.process? id = none)
    (committed : rows.commit batch = .ok after) : rows.Progresses after where
  advances := advances_commit keyed raises
    (fun process inserted => findRow?_eq_none_iff.mpr (fresh.processes process inserted))
    (fun _ => ⟨fresh, id, respects, guard⟩) committed
  outcomes := keepsOutcomes_commit keyed fresh respects committed
  types := addsNewTypes_commit keyed fresh respects committed

end Rows

theorem Dispatch.respects_changes {types steps : List StepType} {type : ProcessType} {id : Uuid}
    {stepIds : List Uuid} {clock : Readings} (initial : initialTypes types = .ok steps) :
    Batch.Respects id [] (changes (newProcess type steps id stepIds clock)) := by
  have distinct : steps.Nodup := by
    rw [initialTypes] at initial
    split at initial <;> cases initial
    exact nodup_eraseDups types
  have inserted : Batch.insertedSteps (changes (newProcess type steps id stepIds clock)) =
      (newProcess type steps id stepIds clock).steps := by
    simp [changes, Batch.insertedSteps]
  refine ⟨?_, ?_, ?_, ?_, ?_, ?_⟩
  · simp [changes]
  · simp [changes]
  · intro step member
    cases member
  · rw [inserted]
    intro step member
    obtain ⟨entry, _, _, rfl⟩ := Step.mem_freshEach member
    rfl
  · simp
  · have typesOfNew : (newProcess type steps id stepIds clock).steps.map Step.type =
        (steps.zip stepIds).map Prod.fst := Step.map_type_freshEach
    rw [inserted, typesOfNew]
    exact nodup_map_fst_zip distinct stepIds

theorem Dispatch.progresses {rows after : Rows} {types steps : List StepType}
    {type : ProcessType} {id : Uuid} {stepIds : List Uuid} {clock : Readings}
    (keyed : rows.Keyed) (initial : initialTypes types = .ok steps)
    (fresh : Batch.IsFresh rows (changes (newProcess type steps id stepIds clock)))
    (committed : rows.commit (changes (newProcess type steps id stepIds clock)) = .ok after) :
    rows.Progresses after := by
  have inserted : (newProcess type steps id stepIds clock).toProcess ∈
      Batch.insertedProcesses (changes (newProcess type steps id stepIds clock)) :=
    Batch.mem_insertedProcesses_iff.mpr List.mem_cons_self
  have respects : Batch.Respects id (rows.owned id)
      (changes (newProcess type steps id stepIds clock)) := by
    have unowned : rows.owned id = [] := fresh.unowned _ inserted
    rw [unowned]
    exact respects_changes initial
  have raises : Batch.Raises (changes (newProcess type steps id stepIds clock)) := by
    simp [Batch.Raises, changes]
  have absent : rows.process? id = none :=
    findRow?_eq_none_iff.mpr (fresh.processes _ inserted)
  exact Rows.progresses_commit keyed raises fresh respects (.inr absent) committed

namespace Office

variable {ω π : Type} {office next final : Office ω π}

/-- The crew is sound, and every draft mirrors the store. -/
structure Sound (office : Office ω π) : Prop where
  crew : office.crew.Sound .stepless
  mirrors : ∀ operator draft, office.drafts operator = some draft →
    draft.context.Mirrors office.rows draft.staged

theorem Sound.store (sound : office.Sound) {rows : Rows}
    (progresses : office.rows.Progresses rows) : (office.store rows).Sound where
  crew := sound.crew.store progresses.advances
  mirrors := fun operator draft holds =>
    (sound.mirrors operator draft holds).advance (progresses.advances _)

variable [DecidableEq π]

theorem Sound.put (sound : office.Sound) {operator : π} {draft : Option Draft}
    (mirrors : ∀ draft' ∈ draft, draft'.context.Mirrors office.rows draft'.staged) :
    (office.put operator draft).Sound := by
  refine ⟨sound.crew, ?_⟩
  intro other otherDraft holds
  by_cases same : other = operator
  · subst same
    simp only [Office.put, Function.update_self] at holds
    exact mirrors otherDraft holds
  · simp only [Office.put, Function.update_of_ne same] at holds
    exact sound.mirrors other otherDraft holds

variable [DecidableEq ω]

/-- A move of a sound office makes the store progress and preserves soundness. -/
theorem Sound.move (sound : office.Sound) (moved : Move office next) :
    office.rows.Progresses next.rows ∧ next.Sound := by
  cases moved with
  | @work committed crew moved =>
      have progresses : office.rows.Progresses crew.rows := by
        cases committed with
        | none =>
            rw [Crew.rows_of_move_none moved]
            exact .refl _
        | some commit =>
            obtain ⟨isScene, maySave, commits, sameRows, _⟩ := sound.crew.maySave moved
            rw [isScene] at maySave commits
            rw [sameRows]
            exact Rows.progresses_commit sound.crew.keyed maySave.raises (commits.2 trivial)
              (maySave.respects trivial _ commits) (.inl maySave.updates) commits.1
      exact ⟨progresses, sound.crew.move moved, (sound.store progresses).mirrors⟩
  | check operator closed checked =>
      refine ⟨.refl _, sound.put ?_⟩
      intro _ isDraft
      cases isDraft
      exact ManualContext.mirrors_of_check sound.crew.keyed checked
  | perform operator holds performed =>
      refine ⟨.refl _, sound.put ?_⟩
      intro _ isDraft
      cases isDraft
      exact (sound.mirrors operator _ holds).perform performed
  | save operator holds updates fresh committed =>
      have mirrors := sound.mirrors operator _ holds
      obtain ⟨respects, again⟩ := mirrors.commit sound.crew.keyed updates fresh committed
      have progresses := Rows.progresses_commit sound.crew.keyed mirrors.raises fresh respects
        (.inl updates) committed
      refine ⟨progresses, (sound.store progresses).put ?_⟩
      intro _ isDraft
      cases isDraft
      exact again
  | abandon operator =>
      refine ⟨.refl _, sound.put ?_⟩
      intro _ impossible
      cases impossible
  | dispatch initial fresh committed =>
      have progresses := Dispatch.progresses sound.crew.keyed initial fresh committed
      exact ⟨progresses, sound.store progresses⟩

theorem Reachable.sound (reachable : Reachable office) : office.Sound := by
  induction reachable with
  | start keyed held => exact ⟨Crew.sound_idle keyed held, by simp⟩
  | move _ moved induction => exact (induction.move moved).2

/-- **Outcomes are final and types are added once.**  Whatever workers, operators and
dispatchers do, a step with a terminal status keeps it for ever, and no commit inserts
a step of a type that its process has already. -/
theorem outcomes_final_and_types_added_once (reachable : Reachable office) :
    (∀ final, Relation.ReflTransGen Move office final →
      office.rows.KeepsOutcomes final.rows) ∧
      ∀ next, Move office next → office.rows.AddsNewTypes next.rows := by
  constructor
  · intro final moves
    suffices office.rows.KeepsOutcomes final.rows ∧ final.Sound from this.1
    induction moves with
    | refl => exact ⟨.refl _, reachable.sound⟩
    | tail _ moved induction =>
        obtain ⟨kept, sound⟩ := induction
        obtain ⟨progresses, nextSound⟩ := sound.move moved
        exact ⟨kept.trans progresses.outcomes, nextSound⟩
  · intro next moved
    exact (reachable.sound.move moved).1.types

/-- A finished step stays finished, here after another process has been dispatched. -/
theorem outcomes_final_after_dispatch :
    ∃ (office : Office Bool Bool) (step : Step), Reachable office ∧
      step ∈ office.rows.steps ∧ step.isTerminal ∧
      (∀ final, Relation.ReflTransGen Move office final →
        ∃ after ∈ final.rows.steps, after.id = step.id ∧ after.status = step.status) ∧
      ∀ next, Move office next → office.rows.AddsNewTypes next.rows := by
  let now : Timestamp := ⟨0, 0⟩
  let process := Process.fresh (.ofNat 1) .setupDim
  let step := Step.fresh (.ofNat 2) .createSubaccount .done process.id now
  let rows : Rows := ⟨[process], [step]⟩
  let dispatched := Dispatch.newProcess .setupDim [.createSubaccount] (.ofNat 3) [.ofNat 4]
    fun _ => now
  have keyed : rows.Keyed := ⟨by decide, by decide⟩
  have initial : Dispatch.initialTypes [.createSubaccount] = .ok [.createSubaccount] := rfl
  have fresh : Batch.IsFresh rows (Dispatch.changes dispatched) :=
    ⟨by decide, by decide, by decide, by decide, by decide⟩
  have committed : rows.commit (Dispatch.changes dispatched) =
      .ok ⟨[process, dispatched.toProcess], step :: dispatched.steps⟩ := rfl
  let office : Office Bool Bool :=
    ⟨⟨rows, fun _ => Desk.idle process⟩, fun _ => none⟩
  have started : Reachable office := .start keyed fun _ => process
  have reachable := started.move (.dispatch initial fresh committed)
  have member : step ∈ step :: dispatched.steps := List.mem_cons_self
  obtain ⟨kept, added⟩ := outcomes_final_and_types_added_once reachable
  exact ⟨_, step, reachable, member, rfl,
    fun final moves => kept final moves step member rfl, added⟩

end Office

end Workflow
