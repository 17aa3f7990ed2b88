import Workflow.Proofs.Lease.Mirror
import Workflow.Proofs.Manual.Context

/-!
# What an operator stages

A manual context is loaded from the store and changed only together with what is
staged for it.  So the staged batch leads from the process as it was loaded to the
process of the context and, as long as nobody else has written, from the stored steps
to the loaded ones.  A save with an update of the process is committed only in that
case, and starts the next unit of work.
-/

namespace Workflow

namespace Batch

variable {batch : Batch} {process : Process}

/-- No change of a process row. -/
def OnlySteps (batch : Batch) : Prop :=
  ∀ change ∈ batch, change.concernsProcess = false

theorem OnlySteps.processAfter? (only : OnlySteps batch) :
    processAfter? batch process = some process := by
  induction batch with
  | nil => rfl
  | cons change batch induction =>
      have unconcerned := only change List.mem_cons_self
      have kept : change.processAfter? process = some process := by
        cases change <;> first | rfl | simp [Change.concernsProcess] at unconcerned
      rw [processAfter?_cons, kept]
      exact induction fun other member => only other (List.mem_cons_of_mem change member)

theorem OnlySteps.raises (only : OnlySteps batch) : Raises batch := by
  intro id expected update member
  simpa [Change.concernsProcess] using only _ member

theorem OnlySteps.insertedProcesses (only : OnlySteps batch) : insertedProcesses batch = [] := by
  apply List.eq_nil_iff_forall_not_mem.mpr
  intro process member
  simpa [Change.concernsProcess] using only _ (mem_insertedProcesses_iff.mp member)

theorem onlySteps_ofUpdates {updates : List (Uuid × StepUpdate)} {clock : Readings} :
    OnlySteps (Change.ofUpdates clock updates) := by
  intro change member
  obtain ⟨entry, _, now, rfl⟩ := Change.mem_ofUpdates member
  rfl

theorem onlySteps_insertSteps {steps : List Step} : OnlySteps (steps.map .insertStep) := by
  intro change member
  obtain ⟨step, _, rfl⟩ := List.mem_map.mp member
  rfl

end Batch

namespace ManualContext

variable {context next : ManualContext} {owned : List Step} {staged batch : Batch}
  {type : StepType} {now : Timestamp} {clock : Readings} {operation : LeaseOp}
  {rows after : Rows}

/-- Committing what is staged respects the steps of the process and leaves what the
context reflects, provided that no identifiers collide. -/
def Previews (context : ManualContext) (owned : List Step) (staged : Batch) : Prop :=
  ((Batch.overlay staged owned).map Step.id).Nodup →
    Batch.Respects context.process.id owned staged ∧
      context.Reflects (Batch.overlay staged owned)

theorem Previews.resolveType (previews : context.Previews owned staged) (type : StepType)
    (clock : Readings) :
    (context.resolveType (context.verdict type) type).1.Previews owned
      (staged ++ Change.ofUpdates clock (context.resolveType (context.verdict type) type).2) := by
  intro unique
  rw [Batch.map_id_overlay, Batch.insertedSteps_append, Batch.insertedSteps_ofUpdates,
    List.append_nil, ← Batch.map_id_overlay] at unique
  obtain ⟨respects, reflects⟩ := previews unique
  rw [Batch.overlay_append Batch.insertedSteps_ofUpdates]
  exact ⟨respects.append_ofUpdates (fun _ => reflects.targets)
    (fun _ => reflects.outcomes unique), reflects.resolveType type clock⟩

theorem Previews.skipTypes (previews : context.Previews owned staged) {types : List StepType}
    (others : ∀ type ∈ types, type ≠ context.current) (clock : Readings) :
    (context.skipTypes types).1.Previews owned
      (staged ++ Change.ofUpdates clock (context.skipTypes types).2) := by
  induction types generalizing context staged clock with
  | nil => simpa [ManualContext.skipTypes] using previews
  | cons type types induction =>
      have skipped : context.verdict type = .skipped :=
        if_neg (others type List.mem_cons_self)
      have first := previews.resolveType type clock
      rw [skipped] at first
      have rest := induction first (fun other member =>
        others other (List.mem_cons_of_mem type member))
        (clock.after (context.resolveType .skipped type).2.length)
      rw [ManualContext.skipTypes, Change.ofUpdates_append, ← List.append_assoc]
      exact rest

theorem Previews.addStep (previews : context.Previews owned staged) {step : Step}
    (unknown : step.type ∉ (context.process.steps ++ context.steps).map Step.type)
    (owner : step.process = context.process.id) (pending : step.isPending) :
    (context.addSteps [step]).Previews owned (staged ++ [.insertStep step]) := by
  intro unique
  obtain ⟨stagedUnique, isNew⟩ := Batch.isNew_of_nodup_overlay unique
  obtain ⟨respects, reflects⟩ := previews stagedUnique
  rw [respects.overlay_of_isNew isNew]
  refine ⟨respects.insertStep owner ?_, reflects.addStep unknown isNew pending⟩
  intro member
  obtain ⟨other, otherMember, same⟩ := List.mem_map.mp member
  exact unknown (same ▸ reflects.known other otherMember)

theorem Previews.addSteps (previews : context.Previews owned staged) {steps : List Step}
    (types : (steps.map Step.type).Nodup)
    (unknown : ∀ step ∈ steps,
      step.type ∉ (context.process.steps ++ context.steps).map Step.type)
    (owner : ∀ step ∈ steps, step.process = context.process.id)
    (pending : ∀ step ∈ steps, step.isPending) :
    (context.addSteps steps).Previews owned (staged ++ steps.map .insertStep) := by
  induction steps generalizing context staged with
  | nil => simpa [ManualContext.addSteps] using previews
  | cons step steps induction =>
      rw [List.map_cons, List.nodup_cons] at types
      have first := previews.addStep (unknown step List.mem_cons_self)
        (owner step List.mem_cons_self) (pending step List.mem_cons_self)
      have rest := induction first types.2 ?_ ?_ ?_
      · simpa [ManualContext.addSteps] using rest
      · intro other member known
        rw [ManualContext.addSteps, ← List.append_assoc, List.map_append,
          List.mem_append] at known
        rcases known with before | isStep
        · exact unknown other (List.mem_cons_of_mem step member) before
        · have sameType : other.type = step.type := by simpa using isStep
          exact types.1 (sameType ▸ List.mem_map_of_mem member)
      · exact fun other member => owner other (List.mem_cons_of_mem step member)
      · exact fun other member => pending other (List.mem_cons_of_mem step member)

theorem performLease_eq_ok_iff :
    context.performLease operation = .ok (next, batch) ↔
      ∃ process, operation.perform context.process.toProcess = .ok (process, batch) ∧
        next = { context with process := process.withSteps context.process.steps } := by
  rw [performLease]
  cases operation.perform context.process.toProcess with
  | error failure => simp [bind, Except.bind]
  | ok performed =>
      obtain ⟨process, staged⟩ := performed
      simp only [bind, Except.bind, pure, Except.pure, Except.ok.injEq, Prod.mk.injEq]
      constructor
      · intro same
        obtain ⟨rfl, rfl⟩ := same
        exact ⟨process, ⟨rfl, rfl⟩, rfl⟩
      · intro member
        obtain ⟨other, ⟨rfl, rfl⟩, rfl⟩ := member
        exact ⟨rfl, rfl⟩

/-- What is staged leads from a copy that the store can still overtake to the process
of the context, and as long as it has not, the context previews the stored steps. -/
structure Mirrors (rows : Rows) (context : ManualContext) (staged : Batch) : Prop where
  raises : Batch.Raises staged
  inserts : Batch.insertedProcesses staged = []
  row : ∃ base, base.id = context.process.id ∧ rows.Anchors base ∧
    Batch.processAfter? staged base = some context.process.toProcess ∧
    (rows.process? context.process.id = some base →
      context.Previews (rows.owned context.process.id) staged)

/-- What a checked context holds is what is stored. -/
theorem exists_of_check {id : Uuid} {filter : Option (List StepType)} {owner : String}
    {current : StepType}
    (checked : ManualContext.check (rows.load? id filter) current owner now = .ok context) :
    ∃ process, rows.process? id = some process ∧
      context = ⟨current, process.withSteps (rows.stepsOf id),
        (rows.stepsOf id).filter fun step => step.isPending && allowed filter step.type⟩ := by
  cases found : rows.process? id with
  | none => simp [check, Rows.load?, Rows.detail?, found] at checked
  | some process =>
      simp only [check, Rows.load?, Rows.detail?, found, Option.map_some, Loaded.ofDetail]
        at checked
      split at checked
      · cases checked
      · split at checked
        · cases checked
        · split at checked
          · cases checked
          · cases checked
            exact ⟨process, rfl, rfl⟩

/-- A context that has just been checked mirrors the store. -/
theorem mirrors_of_check {id : Uuid} {filter : Option (List StepType)} {owner : String}
    {current : StepType} (keyed : rows.Keyed)
    (checked : ManualContext.check (rows.load? id filter) current owner now = .ok context) :
    context.Mirrors rows [] := by
  obtain ⟨process, found, isContext⟩ := exists_of_check checked
  have processId : process.id = id := Rows.id_of_process? found
  subst processId
  subst isContext
  have sorted : (rows.stepsOf process.id).Perm (rows.owned process.id) :=
    List.mergeSort_perm _ _
  refine ⟨by simp [Batch.Raises], rfl, process, rfl, Rows.anchors_of_process? found, rfl, ?_⟩
  intro _ _
  refine ⟨Batch.respects_nil, ?_, ?_, ?_, ?_⟩
  · have ownedUnique : ((rows.owned process.id).map Step.id).Nodup :=
      keyed.steps.sublist (List.Sublist.map Step.id List.filter_sublist)
    have sortedUnique := (sorted.map Step.id).nodup_iff.mpr ownedUnique
    exact sortedUnique.sublist (List.Sublist.map Step.id List.filter_sublist)
  · intro step member
    rw [Batch.overlay_nil]
    exact ⟨step, sorted.mem_iff.mp (List.mem_filter.mp member).1, rfl, rfl⟩
  · intro type
    left
    intro step member _
    obtain ⟨_, isAllowed⟩ := List.mem_filter.mp member
    exact (Bool.and_eq_true_iff.mp isAllowed).1
  · intro stored member
    rw [Batch.overlay_nil] at member
    exact List.mem_map_of_mem (List.mem_append_left _ (sorted.mem_iff.mpr member))

theorem Mirrors.stage (mirrors : context.Mirrors rows staged) (raises : Batch.Raises batch)
    (inserts : Batch.insertedProcesses batch = [])
    (followed : Batch.processAfter? batch context.process.toProcess =
      some next.process.toProcess)
    (previews : ∀ owned, context.Previews owned staged → next.Previews owned (staged ++ batch)) :
    next.Mirrors rows (staged ++ batch) := by
  obtain ⟨base, baseId, anchored, reached, preview⟩ := mirrors.row
  have sameId : next.process.id = context.process.id := Batch.id_of_processAfter? followed
  refine ⟨mirrors.raises.append raises, ?_, base, baseId.trans sameId.symm, anchored, ?_, ?_⟩
  · rw [Batch.insertedProcesses_append, mirrors.inserts, inserts]
    rfl
  · rw [Batch.processAfter?_append, reached]
    exact followed
  · rw [sameId]
    exact fun current => previews _ (preview current)

theorem Mirrors.onlySteps (mirrors : context.Mirrors rows staged)
    (only : Batch.OnlySteps batch) (sameProcess : next.process = context.process)
    (previews : ∀ owned, context.Previews owned staged → next.Previews owned (staged ++ batch)) :
    next.Mirrors rows (staged ++ batch) :=
  mirrors.stage only.raises only.insertedProcesses (sameProcess ▸ only.processAfter?) previews

theorem Mirrors.performLease (mirrors : context.Mirrors rows staged)
    (performed : context.performLease operation = .ok (next, batch)) :
    next.Mirrors rows (staged ++ batch) := by
  obtain ⟨process, followed, rfl⟩ := performLease_eq_ok_iff.mp performed
  have follows := LeaseOp.follows_of_perform followed
  have concerned : ∀ change ∈ batch, change.concernsProcess := by
    intro change member
    obtain ⟨update, rfl⟩ := follows.member member
    rfl
  have inserts : Batch.insertedProcesses batch = [] := by
    cases follows <;> rfl
  apply mirrors.stage follows.raises inserts follows.processAfter?
  intro owned preview unique
  rw [Batch.overlay_append_of_concernsProcess concerned] at unique ⊢
  obtain ⟨respects, reflects⟩ := preview unique
  have sameId : process.id = context.process.id := follows.id_eq
  refine ⟨?_, reflects.unique, reflects.loaded, reflects.groups, reflects.known⟩
  exact sameId ▸ respects.append_of_concernsProcess concerned

theorem process_skipTypes (context : ManualContext) (types : List StepType) :
    (context.skipTypes types).1.process = context.process := by
  induction types generalizing context with
  | nil => rfl
  | cons type types induction => exact induction _

theorem Mirrors.skipTypes (mirrors : context.Mirrors rows staged) {types : List StepType}
    (others : ∀ type ∈ types, type ≠ context.current) (clock : Readings) :
    (context.skipTypes types).1.Mirrors rows
      (staged ++ Change.ofUpdates clock (context.skipTypes types).2) :=
  mirrors.onlySteps Batch.onlySteps_ofUpdates (process_skipTypes context types)
    fun _ previews => previews.skipTypes others clock

theorem ne_current_of_mem_otherTypes (member : type ∈ context.otherTypes) :
    type ≠ context.current := by
  simp only [otherTypes, List.mem_eraseDups, List.mem_filter, bne_iff_ne] at member
  exact member.2

theorem Mirrors.addSteps (mirrors : context.Mirrors rows staged) (types : List StepType)
    (ids : List Uuid) (clock : Readings) :
    (context.addSteps (context.newSteps types ids clock)).Mirrors rows
      (staged ++ (context.newSteps types ids clock).map .insertStep) := by
  have typesOfNew : (context.newSteps types ids clock).map Step.type =
      ((context.unknownTypes types).zip ids).map Prod.fst := Step.map_type_freshEach
  have isNew : ∀ step ∈ context.newSteps types ids clock,
      step.type ∈ context.unknownTypes types := by
    intro step member
    have isType : step.type ∈ (context.newSteps types ids clock).map Step.type :=
      List.mem_map_of_mem member
    rw [typesOfNew] at isType
    obtain ⟨entry, entryMember, same⟩ := List.mem_map.mp isType
    exact same ▸ (List.of_mem_zip entryMember).1
  refine mirrors.onlySteps Batch.onlySteps_insertSteps rfl ?_
  intro owned previews
  apply previews.addSteps
  · rw [typesOfNew]
    exact nodup_map_fst_zip (nodup_eraseDups _) ids
  · intro step member known
    have isUnknown := isNew step member
    simp only [unknownTypes, List.mem_eraseDups, List.mem_filter, Bool.not_eq_true',
      List.contains_eq_mem, decide_eq_false_iff_not] at isUnknown
    exact isUnknown.2 known
  · intro step member
    obtain ⟨entry, _, _, rfl⟩ := Step.mem_freshEach member
    rfl
  · intro step member
    obtain ⟨entry, _, _, rfl⟩ := Step.mem_freshEach member
    rfl

/-- Every operation of an operator keeps the mirror. -/
theorem Mirrors.perform (mirrors : context.Mirrors rows staged) {ids : List Uuid}
    {operation : ManualOp}
    (performed : context.perform clock ids operation = .ok (next, batch)) :
    next.Mirrors rows (staged ++ batch) := by
  cases operation with
  | requestLease expiry => exact mirrors.performLease performed
  | skip types =>
      cases performed
      refine mirrors.skipTypes ?_ clock
      exact fun type member => ne_current_of_mem_otherTypes (List.mem_filter.mp member).1
  | skipExcept types =>
      cases performed
      refine mirrors.skipTypes ?_ clock
      exact fun type member => ne_current_of_mem_otherTypes (List.mem_filter.mp member).1
  | schedule types =>
      cases performed
      exact mirrors.addSteps types ids clock
  | finalize =>
      have isDone : context.verdict context.current = .done := if_pos rfl
      have finished : context.finish.1.Mirrors rows
          (staged ++ Change.ofUpdates clock context.finish.2) := by
        rw [finish, ← isDone]
        exact mirrors.onlySteps Batch.onlySteps_ofUpdates rfl
          fun _ previews => previews.resolveType context.current clock
      rw [ManualContext.perform] at performed
      cases released : context.finish.1.performLease .releaseOrRaise with
      | error failure =>
          rw [released] at performed
          cases performed
      | ok result =>
          rw [released] at performed
          cases performed
          rw [← List.append_assoc]
          exact finished.performLease released

theorem Mirrors.advance (mirrors : context.Mirrors rows staged)
    (advanced : rows.Advances True context.process.id after) : context.Mirrors after staged := by
  obtain ⟨base, baseId, anchored, reached, previews⟩ := mirrors.row
  rw [← baseId] at advanced previews
  refine ⟨mirrors.raises, mirrors.inserts, base, baseId, anchored.advance advanced, reached, ?_⟩
  rw [← baseId]
  intro current
  obtain ⟨before, sameSteps⟩ := anchored.current_of_advances advanced current
  rw [sameSteps trivial]
  exact previews before

/-- A save with an update is committed only if nobody else has written.  It respects the
steps, and the context mirrors the store afterwards. -/
theorem Mirrors.commit (mirrors : context.Mirrors rows staged) (keyed : rows.Keyed)
    (updates : Batch.Updates context.process.id staged) (fresh : Batch.IsFresh rows staged)
    (committed : rows.commit staged = .ok after) :
    Batch.Respects context.process.id (rows.owned context.process.id) staged ∧
      context.Mirrors after [] := by
  obtain ⟨base, baseId, anchored, reached, previews⟩ := mirrors.row
  obtain ⟨stored, found, _, same⟩ := anchored
  rw [baseId] at found
  obtain ⟨final, followed, finalFound⟩ := Rows.process?_commit committed found
  have storedId : stored.id = context.process.id := Rows.id_of_process? found
  have versions : stored.version = base.version := by
    refine Batch.version_eq_of_processAfter? (storedId.trans baseId.symm) (storedId ▸ updates)
      mirrors.inserts ?_ ?_
    · simp [followed]
    · simp [reached]
  obtain rfl : stored = base := same versions
  obtain rfl : final = context.process.toProcess :=
    Option.some.inj (followed.symm.trans reached)
  obtain ⟨respects, reflects⟩ := previews found (fresh.overlay_unique keyed)
  refine ⟨respects, by simp [Batch.Raises], rfl, context.process.toProcess, rfl,
    Rows.anchors_of_process? finalFound, rfl, ?_⟩
  obtain ⟨own, _⟩ := Rows.owned_commit keyed fresh respects committed
  intro _ _
  rw [Batch.overlay_nil, own]
  exact ⟨Batch.respects_nil, reflects⟩

end ManualContext

end Workflow
