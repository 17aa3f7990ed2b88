import Workflow.Proofs.Drain.Outcome
import Workflow.Proofs.Drain.Preview
import Workflow.Proofs.Manual.Resolution

/-!
# The agenda as a mirror of the steps

An agenda *mirrors* the steps of a process if it lists exactly the pending ones, by
type and oldest first, and knows exactly the types that occur.  It does so right
after loading.  Everything that a result does to the agenda is also what the updates
that come with it do to the steps, and both are what the result means.
-/

namespace Workflow

namespace Step

variable {first second third : Step}

theorem isQueuedNotAfter_iff : first.isQueuedNotAfter second ↔
    first.type.code < second.type.code ∨
      first.type.code = second.type.code ∧ first.isNotAfter second := by
  simp [isQueuedNotAfter]

theorem isQueuedNotAfter_trans (left : first.isQueuedNotAfter second)
    (right : second.isQueuedNotAfter third) : first.isQueuedNotAfter third := by
  rw [isQueuedNotAfter_iff] at *
  rcases left with lower | ⟨same, notAfter⟩
  · rcases right with lowerStill | ⟨same, _⟩ <;> omega
  · rcases right with lower | ⟨sameStill, notAfterStill⟩
    · omega
    · exact .inr ⟨same.trans sameStill, isNotAfter_trans notAfter notAfterStill⟩

theorem isQueuedNotAfter_total (first second : Step) :
    first.isQueuedNotAfter second ∨ second.isQueuedNotAfter first := by
  rw [isQueuedNotAfter_iff, isQueuedNotAfter_iff]
  rcases Nat.lt_trichotomy first.type.code second.type.code with lower | same | higher
  · exact .inl (.inl lower)
  · rcases isNotAfter_total first second with left | right
    · exact .inl (.inr ⟨same, left⟩)
    · exact .inr (.inr ⟨same.symm, right⟩)
  · exact .inr (.inl higher)

end Step

/-! ### Updates of a group -/

namespace Batch

variable {step : Step} {updates : List (Uuid × StepUpdate)} {update : StepUpdate}
  {clock : Readings}

/-- A step that is updated once is updated as the batch says, at one of the readings. -/
theorem stepAfter_ofUpdates_of_mem (unique : (updates.map Prod.fst).Nodup)
    (member : (step.id, update) ∈ updates) :
    ∃ now, stepAfter (Change.ofUpdates clock updates) step = update.apply now step := by
  induction updates generalizing clock with
  | nil => cases member
  | cons entry updates induction =>
      obtain ⟨notLater, restUnique⟩ := List.nodup_cons.mp unique
      rw [Change.ofUpdates_cons, stepAfter_cons]
      rcases List.mem_cons.mp member with isFirst | inRest
      · subst isFirst
        have changed : (Change.updateStep step.id update (clock 0)).stepAfter step =
            update.apply (clock 0) step := if_pos rfl
        have unnamed : ∀ entry ∈ updates, entry.1 ≠ (update.apply (clock 0) step).id := by
          intro entry member same
          have sameId : entry.1 = step.id := same
          exact notLater (List.mem_map.mpr ⟨entry, member, sameId⟩)
        exact ⟨clock 0, (congrArg _ changed).trans (stepAfter_ofUpdates_of_notMem unnamed)⟩
      · have different : step.id ≠ entry.1 := by
          intro same
          exact notLater (same ▸ List.mem_map_of_mem inRest)
        have kept : (Change.updateStep entry.1 entry.2 (clock 0)).stepAfter step = step :=
          if_neg different
        obtain ⟨now, updated⟩ := @induction (clock.after 1) restUnique inRest
        exact ⟨now, (congrArg _ kept).trans updated⟩

theorem map_stepAfter_append {first second : Batch} (steps : List Step) :
    steps.map (stepAfter (first ++ second)) =
      (steps.map (stepAfter first)).map (stepAfter second) := by
  rw [List.map_map]
  exact List.map_congr_left fun step _ => stepAfter_append

end Batch

theorem Resolution.map_fst_updates {steps : List Uuid} {status : StepStatus}
    {message : Option String} : (updates steps status message).map Prod.fst = steps := by
  rw [updates, List.map_map]
  exact List.zipIdx_map_fst 0 steps

namespace Steps

variable {steps : List Step} {type : StepType}

theorem perm_due : (due type steps).Perm (steps.filter (Step.isDue type)) :=
  List.mergeSort_perm _ _

theorem nodup_due (unique : (steps.map Step.id).Nodup) :
    ((due type steps).map Step.id).Nodup := by
  rw [(perm_due.map Step.id).nodup_iff]
  exact unique.sublist (List.Sublist.map Step.id List.filter_sublist)

theorem map_stepAfter_updates (unique : (steps.map Step.id).Nodup) (clock : Readings)
    (status : StepStatus) (message : Option String) :
    ∃ stamps, steps.map (Batch.stepAfter (Change.ofUpdates clock
        (Resolution.updates ((due type steps).map Step.id) status message))) =
      resolve stamps type status message steps := by
  have nodup : ((due type steps).map Step.id).Nodup := nodup_due unique
  apply exists_resolve_of_forall
  intro step member
  by_cases isDue : step.isDue type
  · obtain ⟨position, found⟩ := List.mem_iff_getElem?.mp (mem_due_iff.mpr ⟨member, isDue⟩)
    have isOldest : (due type steps).head? = some step ↔ position = 0 := by
      have inRange : position < (due type steps).length :=
        (List.getElem?_eq_some_iff.mp found).1
      rw [List.head?_eq_getElem?, ← found]
      rw [List.getElem?_inj (by omega) nodup.of_map, eq_comm]
    have updated : (step.id, StepUpdate.resolve (Resolution.statusAt status position) message) ∈
        Resolution.updates ((due type steps).map Step.id) status message :=
      Resolution.mem_updates_iff.mpr
        ⟨position, by rw [List.getElem?_map, found]; rfl, rfl⟩
    obtain ⟨now, changed⟩ := @Batch.stepAfter_ofUpdates_of_mem step _ _ clock
      (Resolution.map_fst_updates ▸ nodup) updated
    refine ⟨now, ?_⟩
    rw [changed, Step.resolve, if_pos isDue]
    simp only [isOldest, Resolution.statusAt]
  · refine ⟨clock 0, ?_⟩
    rw [Step.resolve_of_not_isDue isDue]
    apply Batch.stepAfter_ofUpdates_of_notMem
    intro entry inUpdates same
    obtain ⟨other, listed, sameId⟩ :=
      List.mem_map.mp (Resolution.mem_of_mem_updates inUpdates)
    obtain ⟨otherMember, otherDue⟩ := mem_due_iff.mp listed
    have equal : other = step :=
      List.inj_on_of_nodup_map unique otherMember member (sameId.trans same)
    exact isDue (equal ▸ otherDue)

end Steps

namespace Agenda

variable {agenda : Agenda} {steps : List Step} {type other : StepType} {stamps : Stamps}
  {status : StepStatus} {message : Option String}

/-! ### Groups -/

theorem mem_types_of_stepsOf_ne_nil (listed : agenda.stepsOf type ≠ []) :
    type ∈ agenda.types := by
  rcases agenda.stepsOf_eq type with none | member
  · exact absurd none listed
  · exact List.mem_map_of_mem member

theorem stepsOf_dropType : (agenda.dropType type).stepsOf other =
    if other = type then [] else agenda.stepsOf other := by
  simp only [stepsOf, dropType]
  induction agenda.pending with
  | nil => simp
  | cons group groups induction =>
      obtain ⟨first, ids⟩ := group
      by_cases dropped : first = type
      · subst dropped
        by_cases same : other = first
        · simpa [same] using induction
        · have passed : (other == first) = false := by simpa using same
          simpa [same, List.lookup_cons, passed] using induction
      · rw [List.filter_cons_of_pos (by simpa using dropped), List.lookup_cons, List.lookup_cons]
        by_cases same : other = first
        · subst same
          simp [dropped]
        · have passed : (other == first) = false := by simpa using same
          simpa [passed] using induction

theorem stepsOf_keepOldest : (agenda.keepOldest type).stepsOf other =
    if other = type then (agenda.stepsOf other).take 1 else agenda.stepsOf other := by
  simp only [stepsOf, keepOldest]
  induction agenda.pending with
  | nil => simp
  | cons group groups induction =>
      obtain ⟨first, ids⟩ := group
      rw [List.map_cons]
      by_cases same : other = first
      · subst same
        by_cases kept : other = type <;> simp [kept]
      · have passed : (other == first) = false := by simpa using same
        by_cases kept : first = type
        · subst kept
          simpa [List.lookup_cons, passed] using induction
        · simpa [List.lookup_cons, passed, kept] using induction

theorem types_dropType : (agenda.dropType type).types = agenda.types.filter (· != type) := by
  rw [types, types, dropType, List.filter_map]
  rfl

theorem types_keepOldest : (agenda.keepOldest type).types = agenda.types := by
  rw [types, types, keepOldest, List.map_map]
  apply List.map_congr_left
  intro group _
  simp only [Function.comp_apply]
  split <;> rfl

/-! ### Mirrors -/

/-- The agenda lists exactly the pending steps, by type and oldest first, and knows
exactly the types that occur; whatever is to be run is pending. -/
structure Mirrors (agenda : Agenda) (steps : List Step) : Prop where
  pending : ∀ type, agenda.stepsOf type = (Steps.due type steps).map Step.id
  groups : agenda.types.Nodup
  listed : ∀ type ∈ agenda.types, agenda.stepsOf type ≠ []
  known : ∀ type, type ∈ agenda.known ↔ type ∈ steps.map Step.type
  queue : ∀ type ∈ agenda.queue, type ∈ agenda.types

theorem Mirrors.stepsOf_eq_nil_iff (mirrors : agenda.Mirrors steps) :
    agenda.stepsOf type = [] ↔ type ∉ agenda.types := by
  constructor
  · intro nothing member
    exact mirrors.listed type member nothing
  · intro absent
    by_contra listed
    exact absent (mem_types_of_stepsOf_ne_nil listed)

theorem Mirrors.due_eq_nil_iff (mirrors : agenda.Mirrors steps) :
    Steps.due type steps = [] ↔ agenda.stepsOf type = [] := by
  rw [mirrors.pending type, List.map_eq_nil_iff]

theorem Mirrors.exists_isDue (mirrors : agenda.Mirrors steps) (queued : type ∈ agenda.queue) :
    ∃ step ∈ steps, step.isDue type := by
  have listed := mirrors.listed type (mirrors.queue type queued)
  rw [Ne, ← mirrors.due_eq_nil_iff] at listed
  obtain ⟨step, member⟩ := List.exists_mem_of_ne_nil _ listed
  exact ⟨step, Steps.mem_due_iff.mp member⟩

theorem Mirrors.next? (mirrors : agenda.Mirrors steps) {rest : Agenda}
    (found : agenda.next? = some (type, rest)) :
    rest.Mirrors steps ∧ type ∉ rest.queue ∧ type ∈ agenda.queue := by
  simp only [Agenda.next?, Option.map_eq_some_iff, Prod.mk.injEq] at found
  obtain ⟨_, isSmallest, rfl, rfl⟩ := found
  refine ⟨⟨mirrors.pending, mirrors.groups, mirrors.listed, mirrors.known, ?_⟩, by simp,
    smallest_mem isSmallest⟩
  intro other member
  exact mirrors.queue other (List.mem_filter.mp member).1

theorem Mirrors.unknown_eq (mirrors : agenda.Mirrors steps) (types : List StepType) :
    agenda.unknown types = Steps.lacking types steps := by
  have sameTypes : ∀ type, agenda.known.contains type = (steps.map Step.type).contains type := by
    intro type
    rw [Bool.eq_iff_iff, List.contains_iff_mem, List.contains_iff_mem, mirrors.known]
  simp only [Agenda.unknown, Steps.lacking, sameTypes]

/-! ### Results -/

/-- A type that ends is dropped; it must not stay on the queue. -/
theorem Mirrors.dropType (mirrors : agenda.Mirrors steps) (ended : status ≠ .todo)
    {queue : List StepType} (queued : ∀ other ∈ queue, other ∈ agenda.queue ∧ other ≠ type) :
    Mirrors { agenda.dropType type with queue := queue }
      (Steps.resolve stamps type status message steps) where
  pending := by
    intro other
    change (agenda.dropType type).stepsOf other = _
    rw [stepsOf_dropType]
    by_cases same : other = type
    · subst same
      rw [if_pos rfl, Steps.due_resolve_of_ne_todo ended]
      rfl
    · rw [if_neg same, Steps.due_resolve_of_ne same, mirrors.pending]
  groups := by
    change (agenda.dropType type).types.Nodup
    rw [types_dropType]
    exact mirrors.groups.filter _
  listed := by
    change ∀ other ∈ (agenda.dropType type).types, (agenda.dropType type).stepsOf other ≠ []
    intro other member
    rw [types_dropType, List.mem_filter] at member
    rw [stepsOf_dropType, if_neg (by simpa using member.2)]
    exact mirrors.listed other member.1
  known := by
    rw [Steps.map_type_resolve]
    exact mirrors.known
  queue := by
    change ∀ other ∈ queue, other ∈ (agenda.dropType type).types
    intro other member
    rw [types_dropType, List.mem_filter]
    exact ⟨mirrors.queue other (queued other member).1, by simpa using (queued other member).2⟩

/-- Of a type that stays pending only the oldest step is kept. -/
theorem Mirrors.keepOldest (mirrors : agenda.Mirrors steps) (unique : (steps.map Step.id).Nodup) :
    (agenda.keepOldest type).Mirrors (Steps.resolve stamps type .todo message steps) where
  pending := by
    intro other
    rw [stepsOf_keepOldest]
    by_cases same : other = type
    · subst same
      rw [if_pos rfl, Steps.map_id_due_resolve_todo unique, mirrors.pending]
    · rw [if_neg same, Steps.due_resolve_of_ne same, mirrors.pending]
  groups := by
    rw [types_keepOldest]
    exact mirrors.groups
  listed := by
    intro other member
    rw [types_keepOldest] at member
    have listed := mirrors.listed other member
    rw [stepsOf_keepOldest]
    split
    · simpa using listed
    · exact listed
  known := by
    rw [Steps.map_type_resolve]
    exact mirrors.known
  queue := by
    rw [types_keepOldest]
    exact mirrors.queue

theorem Mirrors.dropType_eq (mirrors : agenda.Mirrors steps)
    (nothing : agenda.stepsOf type = []) : agenda.dropType type = agenda := by
  have absent := mirrors.stepsOf_eq_nil_iff.mp nothing
  have kept : agenda.pending.filter (fun group => group.1 != type) = agenda.pending := by
    rw [List.filter_eq_self]
    intro group member
    have different : group.1 ≠ type := by
      intro same
      exact absent (same ▸ List.mem_map_of_mem member)
    simpa using different
  rw [Agenda.dropType, kept]

theorem Mirrors.map_stepAfter_updates (mirrors : agenda.Mirrors steps)
    (unique : (steps.map Step.id).Nodup) (clock : Readings) (type : StepType)
    (status : StepStatus) (message : Option String) :
    ∃ stamps, steps.map (Batch.stepAfter (Change.ofUpdates clock
        (Resolution.updates (agenda.stepsOf type) status message))) =
      Steps.resolve stamps type status message steps := by
  rw [mirrors.pending type]
  exact Steps.map_stepAfter_updates unique clock status message

theorem Mirrors.settle (mirrors : agenda.Mirrors steps) (unique : (steps.map Step.id).Nodup)
    (unqueued : type ∉ agenda.queue) (clock : Readings) (status : StepStatus)
    (message : Option String) :
    ∃ stamps, (agenda.settle type status message).1.Mirrors
        (Steps.settle stamps type status message steps) ∧
      steps.map (Batch.stepAfter (Change.ofUpdates clock
          (agenda.settle type status message).2)) =
        Steps.settle stamps type status message steps := by
  obtain ⟨stamps, updated⟩ := mirrors.map_stepAfter_updates unique clock type status message
  refine ⟨stamps, ?_⟩
  rw [Agenda.settle, Steps.settle]
  by_cases leaves : status = .todo ∧ message = none
  · simpa [leaves] using mirrors
  · rw [if_neg leaves]
    by_cases nothing : agenda.stepsOf type = []
    · have unchanged := mirrors.due_eq_nil_iff.mpr nothing
      simpa [nothing, Steps.resolve_of_due_eq_nil unchanged] using mirrors
    · simp only [leaves, nothing, or_self, if_false]
      refine ⟨?_, updated⟩
      by_cases again : status = .todo
      · subst again
        rw [if_pos rfl]
        exact mirrors.keepOldest unique
      · rw [if_neg again]
        apply mirrors.dropType again
        intro other member
        exact ⟨member, fun same => unqueued (same ▸ member)⟩

theorem Mirrors.skipType (mirrors : agenda.Mirrors steps) (unique : (steps.map Step.id).Nodup)
    (type : StepType) (clock : Readings) :
    ∃ stamps, (agenda.skipType type).1.Mirrors (Steps.resolve stamps type .skipped none steps) ∧
      steps.map (Batch.stepAfter (Change.ofUpdates clock (agenda.skipType type).2)) =
        Steps.resolve stamps type .skipped none steps := by
  obtain ⟨stamps, updated⟩ := mirrors.map_stepAfter_updates unique clock type .skipped none
  refine ⟨stamps, ?_⟩
  rw [Agenda.skipType]
  by_cases nothing : agenda.stepsOf type = []
  · have unchanged := mirrors.due_eq_nil_iff.mpr nothing
    rw [if_pos nothing, mirrors.dropType_eq nothing, Steps.resolve_of_due_eq_nil unchanged]
    exact ⟨mirrors, by simp⟩
  · rw [if_neg nothing]
    refine ⟨mirrors.dropType (by simp) ?_, updated⟩
    intro other member
    rw [List.mem_filter] at member
    exact ⟨member.1, by simpa using member.2⟩

theorem Mirrors.skip (mirrors : agenda.Mirrors steps) (unique : (steps.map Step.id).Nodup)
    (types : List StepType) (clock : Readings) :
    ∃ stamps, (agenda.skip types).1.Mirrors (Steps.skip stamps types steps) ∧
      steps.map (Batch.stepAfter (Change.ofUpdates clock (agenda.skip types).2)) =
        Steps.skip stamps types steps := by
  induction types generalizing agenda steps clock with
  | nil => exact ⟨fun _ => clock 0, mirrors, by simp [Agenda.skip, Steps.skip]⟩
  | cons type types induction =>
      obtain ⟨stamps, first, firstUpdated⟩ := mirrors.skipType unique type clock
      obtain ⟨more, others, othersUpdated⟩ := induction first (by rwa [Steps.map_id_resolve])
        (clock.after (agenda.skipType type).2.length)
      obtain ⟨both, joined⟩ := @Steps.exists_skip_cons stamps more type steps types
      refine ⟨both, joined ▸ others, ?_⟩
      rw [Agenda.skip, Change.ofUpdates_append, Batch.map_stepAfter_append, firstUpdated]
      exact othersUpdated.trans joined

/-- Agenda and steps change together as the result says. -/
theorem Mirrors.afterResult (mirrors : agenda.Mirrors steps)
    (unique : (steps.map Step.id).Nodup) (unqueued : type ∉ agenda.queue) (clock : Readings)
    (result : StepResult) :
    ∃ settled skipped,
      (agenda.afterResult type result).1.Mirrors
          ((Outcome.ran type result).resolved settled skipped steps) ∧
        steps.map (Batch.stepAfter (Change.ofUpdates clock (agenda.afterResult type result).2)) =
          (Outcome.ran type result).resolved settled skipped steps := by
  obtain ⟨settled, first, settledUpdated⟩ :=
    mirrors.settle unique unqueued clock result.status result.message
  obtain ⟨skipped, second, skippedUpdated⟩ :=
    first.skip (by rwa [Steps.map_id_settle]) (result.skip.getD [])
      (clock.after (agenda.settle type result.status result.message).2.length)
  refine ⟨settled, skipped, second, ?_⟩
  rw [Agenda.afterResult, Change.ofUpdates_append, Batch.map_stepAfter_append, settledUpdated]
  exact skippedUpdated

/-! ### New steps -/

/-- A type that is not known does not occur, so no step of it is due. -/
theorem Mirrors.filter_isDue_of_unknown (mirrors : agenda.Mirrors steps)
    (unknown : type ∉ agenda.known) : steps.filter (Step.isDue type) = [] := by
  rw [List.filter_eq_nil_iff]
  intro step member isDue
  exact unknown ((mirrors.known type).mpr
    ((Step.isDue_iff.mp isDue).2 ▸ List.mem_map_of_mem member))

theorem Mirrors.notMem_types_of_unknown (mirrors : agenda.Mirrors steps)
    (unknown : type ∉ agenda.known) : type ∉ agenda.types := by
  rw [← mirrors.stepsOf_eq_nil_iff, ← mirrors.due_eq_nil_iff]
  simp [Steps.due, oldestFirst, mirrors.filter_isDue_of_unknown unknown]

theorem Mirrors.addStep (mirrors : agenda.Mirrors steps) {step : Step}
    (unknown : step.type ∉ agenda.known) (pending : step.isPending) :
    (agenda.addStep step.type step.id).Mirrors (steps ++ [step]) where
  pending other := by
    rw [stepsOf_addStep unknown (mirrors.notMem_types_of_unknown unknown), Steps.due,
      List.filter_append]
    by_cases same : other = step.type
    · subst same
      have isDue : step.isDue step.type := Step.isDue_iff.mpr ⟨pending, rfl⟩
      simp [mirrors.filter_isDue_of_unknown unknown, isDue, oldestFirst]
    · have undue : ¬step.isDue other := fun isDue => same (Step.isDue_iff.mp isDue).2.symm
      simpa [same, undue, Steps.due] using mirrors.pending other
  groups := by
    rw [types_addStep unknown, List.nodup_append]
    refine ⟨mirrors.groups, by simp, ?_⟩
    intro first member second isStep same
    exact mirrors.notMem_types_of_unknown unknown
      (List.mem_singleton.mp isStep ▸ same ▸ member)
  listed other member := by
    rw [types_addStep unknown, List.mem_append, List.mem_singleton] at member
    rw [stepsOf_addStep unknown (mirrors.notMem_types_of_unknown unknown)]
    by_cases same : other = step.type
    · simp [same]
    · rw [if_neg same]
      exact mirrors.listed other (member.resolve_right same)
  known other := by
    rw [known_addStep unknown, List.map_append, List.mem_append, List.mem_cons, mirrors.known,
      or_comm]
    simp
  queue other member := by
    rw [types_addStep unknown, List.mem_append, List.mem_singleton]
    rw [queue_addStep unknown] at member
    split at member
    · rcases List.mem_cons.mp member with same | before
      · exact .inr same
      · exact .inl (mirrors.queue other before)
    · exact .inl (mirrors.queue other member)

/-! ### Loading -/

theorem stepsOf_addPending (step : PendingStep) (groups : List (StepType × List Uuid))
    (type : StepType) :
    ((addPending step groups).lookup type).getD [] =
      (groups.lookup type).getD [] ++ if step.type = type then [step.id] else [] := by
  induction groups with
  | nil =>
      by_cases same : type = step.type
      · simp [addPending, same]
      · have passed : (type == step.type) = false := by simpa using same
        simp [addPending, List.lookup_cons, passed, Ne.symm same]
  | cons group groups induction =>
      rw [addPending]
      by_cases joins : group.1 = step.type
      · rw [if_pos joins, List.lookup_cons, List.lookup_cons, joins]
        by_cases same : type = step.type
        · simp [same]
        · have passed : (type == step.type) = false := by simpa using same
          simp [passed, Ne.symm same]
      · rw [if_neg joins, List.lookup_cons, List.lookup_cons]
        by_cases same : type = group.1
        · simp [same, Ne.symm joins]
        · have passed : (type == group.1) = false := by simpa using same
          simpa [passed] using induction

theorem mem_types_addPending {step : PendingStep} {groups : List (StepType × List Uuid)} :
    type ∈ (addPending step groups).map Prod.fst ↔
      type ∈ groups.map Prod.fst ∨ type = step.type := by
  induction groups with
  | nil => simp [addPending]
  | cons group groups induction =>
      rw [addPending]
      by_cases joins : group.1 = step.type
      · rw [if_pos joins]
        simp only [List.map_cons, List.mem_cons, ← joins]
        tauto
      · rw [if_neg joins]
        simp only [List.map_cons, List.mem_cons, induction]
        tauto

theorem nodup_types_addPending {step : PendingStep} {groups : List (StepType × List Uuid)}
    (nodup : (groups.map Prod.fst).Nodup) :
    ((addPending step groups).map Prod.fst).Nodup := by
  induction groups with
  | nil => simp [addPending]
  | cons group groups induction =>
      obtain ⟨notLater, restNodup⟩ := List.nodup_cons.mp nodup
      rw [addPending]
      by_cases joins : group.1 = step.type
      · rwa [if_pos joins]
      · rw [if_neg joins, List.map_cons, List.nodup_cons]
        refine ⟨?_, induction restNodup⟩
        intro member
        rcases mem_types_addPending.mp member with later | same
        · exact notLater later
        · exact joins same

/-- Loading groups what it reads by type, in the order in which it reads it. -/
theorem stepsOf_load (executable : List StepType) (pending : List PendingStep)
    (types : List StepType) (type : StepType) :
    (load executable pending types).stepsOf type =
      (pending.filter (·.type == type)).map PendingStep.id := by
  have grouped : ∀ groups : List (StepType × List Uuid),
      ((pending.foldl (fun groups step => addPending step groups) groups).lookup type).getD [] =
        (groups.lookup type).getD [] ++ (pending.filter (·.type == type)).map PendingStep.id := by
    induction pending with
    | nil => simp
    | cons step pending induction =>
        intro groups
        rw [List.foldl_cons, induction, stepsOf_addPending]
        by_cases same : step.type = type <;> simp [same]
  exact (grouped []).trans (by simp)

theorem types_load (executable : List StepType) (pending : List PendingStep)
    (types : List StepType) :
    (load executable pending types).types.Nodup ∧
      ∀ type ∈ (load executable pending types).types, ∃ step ∈ pending, step.type = type := by
  have grouped : ∀ groups : List (StepType × List Uuid), (groups.map Prod.fst).Nodup →
      ((pending.foldl (fun groups step => addPending step groups) groups).map Prod.fst).Nodup ∧
        ∀ type ∈ (pending.foldl (fun groups step => addPending step groups) groups).map Prod.fst,
          type ∈ groups.map Prod.fst ∨ ∃ step ∈ pending, step.type = type := by
    induction pending with
    | nil => exact fun groups nodup => ⟨nodup, fun type member => .inl member⟩
    | cons step pending induction =>
        intro groups nodup
        obtain ⟨nodup, listed⟩ := induction (addPending step groups) (nodup_types_addPending nodup)
        refine ⟨nodup, fun type member => ?_⟩
        rcases listed type member with added | ⟨later, inRest, same⟩
        · rcases mem_types_addPending.mp added with before | rfl
          · exact .inl before
          · exact .inr ⟨step, List.mem_cons_self, rfl⟩
        · exact .inr ⟨later, List.mem_cons_of_mem step inRest, same⟩
  obtain ⟨nodup, listed⟩ := grouped [] List.nodup_nil
  exact ⟨nodup, fun type member => (listed type member).resolve_left (by simp)⟩

end Agenda

namespace Rows

variable {rows : Rows} {id : Uuid} {type : StepType}

theorem filter_pendingSteps (keyed : rows.Keyed) :
    ((rows.pendingSteps id).filter (·.type == type)).map PendingStep.id =
      (Steps.due type (rows.owned id)).map Step.id := by
  let queued := (rows.steps.filter fun step => step.process == id && step.isPending).mergeSort
    Step.isQueuedNotAfter
  have sameGroup : (queued.filter (·.type == type)).Perm (Steps.due type (rows.owned id)) := by
    apply ((List.mergeSort_perm _ _).filter _).trans
    apply List.Perm.trans _ Steps.perm_due.symm
    rw [owned, List.filter_filter, List.filter_filter]
    apply List.Perm.of_eq
    apply List.filter_congr
    intro step _
    rw [Step.isDue, Bool.eq_iff_iff]
    simp only [Bool.and_eq_true]
    tauto
  have sameOrder : queued.filter (·.type == type) = Steps.due type (rows.owned id) := by
    refine @List.Perm.eq_of_pairwise _ (fun left right => left.isNotAfter right) _ _ ?_ ?_ ?_
      sameGroup
    · intro first second firstMember secondMember left right
      have inRows : ∀ step ∈ Steps.due type (rows.owned id), step ∈ rows.steps := fun step member =>
        (mem_owned_iff.mp (Steps.mem_due_iff.mp member).1).1
      exact keyed.eq_of_id_eq (inRows first (sameGroup.subset firstMember))
        (inRows second secondMember) (Step.id_eq_of_isNotAfter left right)
    · have ordered : queued.Pairwise fun left right => left.isQueuedNotAfter right := by
        apply List.pairwise_mergeSort
        · intro _ _ _ left right
          exact Step.isQueuedNotAfter_trans left right
        · intro left right
          simpa using Step.isQueuedNotAfter_total left right
      refine (ordered.filter _).imp_of_mem ?_
      intro first second firstMember secondMember before
      have firstType : first.type = type := by simpa using (List.mem_filter.mp firstMember).2
      have secondType : second.type = type := by simpa using (List.mem_filter.mp secondMember).2
      simpa [Step.isQueuedNotAfter, firstType, secondType] using before
    · apply List.pairwise_mergeSort
      · intro _ _ _ left right
        exact Step.isNotAfter_trans left right
      · intro left right
        simpa using Step.isNotAfter_total left right
  rw [← sameOrder, pendingSteps, List.filter_map, List.map_map]
  rfl

/-- What is loaded from a store mirrors the steps of the process. -/
theorem mirrors_load (keyed : rows.Keyed) (executable : List StepType) :
    (Agenda.load executable (rows.pendingSteps id) (rows.stepTypes id)).Mirrors
      (rows.owned id) := by
  have stepsOf : ∀ type,
      (Agenda.load executable (rows.pendingSteps id) (rows.stepTypes id)).stepsOf type =
        (Steps.due type (rows.owned id)).map Step.id := fun type =>
    (Agenda.stepsOf_load _ _ _ type).trans (filter_pendingSteps keyed)
  obtain ⟨nodup, listed⟩ :=
    Agenda.types_load executable (rows.pendingSteps id) (rows.stepTypes id)
  have occurs : ∀ type ∈
      (Agenda.load executable (rows.pendingSteps id) (rows.stepTypes id)).types,
      ∃ step ∈ rows.owned id, step.isDue type := by
    intro type member
    obtain ⟨entry, isPending, rfl⟩ := listed type member
    obtain ⟨step, inOwned, pending, _, same⟩ := mem_pendingSteps_iff.mp isPending
    exact ⟨step, inOwned, Step.isDue_iff.mpr ⟨pending, same⟩⟩
  refine ⟨stepsOf, nodup, ?_, ?_, ?_⟩
  · intro type member
    obtain ⟨step, inOwned, isDue⟩ := occurs type member
    rw [stepsOf]
    exact List.ne_nil_of_mem (List.mem_map_of_mem (Steps.mem_due_iff.mpr ⟨inOwned, isDue⟩))
  · intro type
    have stored : type ∈ rows.stepTypes id ↔ type ∈ (rows.owned id).map Step.type := by
      rw [mem_stepTypes_iff, List.mem_map]
    change type ∈ rows.stepTypes id ++ _ ↔ _
    rw [List.mem_append, stored]
    constructor
    · intro known
      rcases known with inStore | isPending
      · exact inStore
      · obtain ⟨step, inOwned, isDue⟩ := occurs type (List.mem_filter.mp isPending).1
        exact (Step.isDue_iff.mp isDue).2 ▸ List.mem_map_of_mem inOwned
    · exact .inl
  · intro type member
    exact (List.mem_filter.mp member).1

end Rows

end Workflow
