import Workflow.Proofs.Manual.Guard

/-!
# What operations by hand do to a context

An operation extends its context: the steps stay and keep terminal statuses, and new ones come
only for types that the process does not have.  In a context that reflects stored steps each
type is untouched or resolved as a group.
-/

namespace Workflow

/-- The step is still the same, and a terminal status has stayed. -/
structure Step.Keeps (before after : Step) : Prop where
  id : after.id = before.id
  type : after.type = before.type
  created : after.created = before.created
  outcome : before.isTerminal → after.status = before.status

theorem Step.Keeps.refl (step : Step) : step.Keeps step :=
  ⟨rfl, rfl, rfl, fun _ => rfl⟩

theorem Step.Keeps.trans {first second third : Step} (left : first.Keeps second)
    (right : second.Keeps third) : first.Keeps third where
  id := right.id.trans left.id
  type := right.type.trans left.type
  created := right.created.trans left.created
  outcome := by
    intro terminal
    have sameStatus := left.outcome terminal
    have still : second.isTerminal := by
      simpa only [Step.isTerminal, sameStatus] using terminal
    exact (right.outcome still).trans sameStatus

namespace ManualContext

variable {context next final : ManualContext} {steps : List Step} {type : StepType}
  {clock : Readings} {ids : List Uuid} {operation : ManualOp} {batch : Batch}

/-- The steps of a context stay and keep terminal statuses, and no step is added whose type the
process or the context had. -/
structure Extends (before after : ManualContext) : Prop where
  current : after.current = before.current
  owner : after.process.id = before.process.id
  loaded : after.process.steps = before.process.steps
  keeps : ∀ step ∈ before.steps, ∃ kept ∈ after.steps, step.Keeps kept
  adds : ∀ step ∈ after.steps, (∃ origin ∈ before.steps, origin.Keeps step) ∨
    step.type ∉ (before.process.steps ++ before.steps).map Step.type

theorem Extends.refl (context : ManualContext) : context.Extends context where
  current := rfl
  owner := rfl
  loaded := rfl
  keeps := fun step member => ⟨step, member, .refl step⟩
  adds := fun step member => .inl ⟨step, member, .refl step⟩

theorem Extends.trans (first : context.Extends next) (second : next.Extends final) :
    context.Extends final where
  current := second.current.trans first.current
  owner := second.owner.trans first.owner
  loaded := second.loaded.trans first.loaded
  keeps := by
    intro step member
    obtain ⟨middle, middleMember, toMiddle⟩ := first.keeps step member
    obtain ⟨kept, keptMember, toKept⟩ := second.keeps middle middleMember
    exact ⟨kept, keptMember, toMiddle.trans toKept⟩
  adds := by
    intro step member
    rcases second.adds step member with ⟨middle, middleMember, toStep⟩ | unknown
    · rcases first.adds middle middleMember with ⟨origin, originMember, toMiddle⟩ | unknown
      · exact .inl ⟨origin, originMember, toMiddle.trans toStep⟩
      · exact .inr (toStep.type ▸ unknown)
    · right
      intro known
      obtain ⟨other, otherMember, same⟩ := List.mem_map.mp known
      apply unknown
      rcases List.mem_append.mp otherMember with inProcess | inContext
      · rw [← first.loaded] at inProcess
        exact same ▸ List.mem_map_of_mem (List.mem_append_left _ inProcess)
      · obtain ⟨kept, keptMember, keeps⟩ := first.keeps other inContext
        rw [← same, ← keeps.type]
        exact List.mem_map_of_mem (List.mem_append_right _ keptMember)

theorem extends_map {change : Step → Step} (current : next.current = context.current)
    (owner : next.process.id = context.process.id)
    (loaded : next.process.steps = context.process.steps)
    (mapped : next.steps = context.steps.map change)
    (keeps : ∀ step ∈ context.steps, step.Keeps (change step)) : context.Extends next where
  current := current
  owner := owner
  loaded := loaded
  keeps := fun step member => ⟨change step, mapped ▸ List.mem_map_of_mem member, keeps step member⟩
  adds := by
    rw [mapped]
    intro step member
    obtain ⟨origin, originMember, rfl⟩ := List.mem_map.mp member
    exact .inl ⟨origin, originMember, keeps origin originMember⟩

/-- Resolving a group leaves terminal statuses: a pending group has none, and a resolved group
gets the same statuses again. -/
theorem Reflects.keeps_settled (reflects : context.Reflects steps) {step : Step}
    (member : step ∈ context.steps) : step.Keeps (context.settled type step) where
  id := id_settled step
  type := type_settled step
  created := created_settled step
  outcome := by
    intro terminal
    by_cases grouped : step.type = type
    · rw [status_settled grouped]
      rcases reflects.groups type with pending | resolved
      · exact absurd terminal (Step.not_isTerminal_of_isPending (pending step member grouped))
      · exact (resolved step member grouped).symm
    · rw [settled_of_ne grouped]

theorem Reflects.extends_resolveType (reflects : context.Reflects steps) (type : StepType) :
    context.Extends (context.resolveType (context.verdict type) type).1 := by
  rw [resolveType_fst reflects.unique]
  exact extends_map rfl rfl rfl rfl fun step => reflects.keeps_settled

theorem Reflects.extends_skipTypes (reflects : context.Reflects steps) {types : List StepType}
    (others : ∀ type ∈ types, type ≠ context.current) :
    context.Extends (context.skipTypes types).1 := by
  induction types generalizing context steps with
  | nil => exact .refl context
  | cons type types induction =>
      have skipped : context.verdict type = .skipped := if_neg (others type List.mem_cons_self)
      have first := reflects.extends_resolveType type
      have still := reflects.resolveType type fun _ => ⟨0, 0⟩
      rw [skipped] at first still
      exact first.trans (induction still fun other member =>
        others other (List.mem_cons_of_mem type member))

theorem unknown_of_mem_newSteps {types : List StepType} {step : Step}
    (member : step ∈ context.newSteps types ids clock) :
    step.type ∉ (context.process.steps ++ context.steps).map Step.type := by
  obtain ⟨⟨type, id⟩, listed, _, rfl⟩ := Step.mem_freshEach member
  have isUnknown := (List.of_mem_zip listed).1
  simp only [unknownTypes, List.mem_eraseDups, List.mem_filter, Bool.not_eq_true',
    List.contains_eq_mem, decide_eq_false_iff_not] at isUnknown
  exact isUnknown.2

theorem extends_addSteps {types : List StepType} :
    context.Extends (context.addSteps (context.newSteps types ids clock)) where
  current := rfl
  owner := rfl
  loaded := rfl
  keeps := fun step member => ⟨step, List.mem_append_left _ member, .refl step⟩
  adds := by
    intro step member
    rcases List.mem_append.mp member with before | isNew
    · exact .inl ⟨step, before, .refl step⟩
    · exact .inr (unknown_of_mem_newSteps isNew)

theorem extends_performLease {operation : LeaseOp}
    (performed : context.performLease operation = .ok (next, batch)) : context.Extends next := by
  obtain ⟨process, followed, rfl⟩ := performLease_eq_ok_iff.mp performed
  have sameId : process.id = context.process.id :=
    (LeaseOp.follows_of_perform followed).id_eq
  exact ⟨rfl, sameId, rfl, (Extends.refl context).keeps, (Extends.refl context).adds⟩

/-- Every operation extends the context. -/
theorem Reflects.extends_perform (reflects : context.Reflects steps)
    (performed : context.perform clock ids operation = .ok (next, batch)) :
    context.Extends next := by
  cases operation with
  | requestLease expiry => exact extends_performLease performed
  | skip types =>
      cases performed
      exact reflects.extends_skipTypes fun type member =>
        ne_current_of_mem_otherTypes (List.mem_filter.mp member).1
  | skipExcept types =>
      cases performed
      exact reflects.extends_skipTypes fun type member =>
        ne_current_of_mem_otherTypes (List.mem_filter.mp member).1
  | schedule types =>
      cases performed
      exact extends_addSteps
  | finalize =>
      have isDone : context.verdict context.current = .done := if_pos rfl
      have finished : context.Extends context.finish.1 := by
        rw [finish, ← isDone]
        exact reflects.extends_resolveType context.current
      rw [perform] at performed
      obtain ⟨released, isReleased, both⟩ := exists_of_bind_eq_ok performed
      cases both
      exact finished.trans (extends_performLease isReleased)

theorem insertedSteps_perform
    (performed : context.perform clock ids operation = .ok (next, batch)) :
    Batch.insertedSteps batch = [] ∨
      ∃ types, batch = (context.newSteps types ids clock).map .insertStep ∧
        next = context.addSteps (context.newSteps types ids clock) := by
  cases operation with
  | requestLease expiry =>
      obtain ⟨_, followed, rfl⟩ := performLease_eq_ok_iff.mp performed
      cases LeaseOp.follows_of_perform followed <;> exact .inl rfl
  | skip types | skipExcept types =>
      cases performed
      exact .inl Batch.insertedSteps_ofUpdates
  | schedule types =>
      cases performed
      exact .inr ⟨types, rfl, rfl⟩
  | finalize =>
      rw [perform] at performed
      obtain ⟨⟨_, released⟩, isReleased, both⟩ := exists_of_bind_eq_ok performed
      cases both
      obtain ⟨_, followed, _⟩ := performLease_eq_ok_iff.mp isReleased
      have inserts : Batch.insertedSteps released = [] := by
        cases LeaseOp.follows_of_perform followed <;> rfl
      rw [Batch.insertedSteps_append, Batch.insertedSteps_ofUpdates, inserts]
      exact .inl rfl

theorem map_id_newSteps_sublist (types : List StepType) :
    ((context.newSteps types ids clock).map Step.id).Sublist ids := by
  have taken : (context.newSteps types ids clock).map Step.id =
      ((context.unknownTypes types).zip ids).map Prod.snd := Step.map_id_freshEach
  rw [taken, List.zip_eq_zip_take_min, List.map_snd_zip (by simp)]
  exact List.take_sublist _ ids

theorem performLease_eq_error_iff {operation : LeaseOp} {failure : Failure} :
    context.performLease operation = .error failure ↔
      operation.perform context.process.toProcess = .error failure := by
  rw [performLease]
  cases operation.perform context.process.toProcess <;> simp [bind, Except.bind, pure, Except.pure]

/-- Only a request for a lease that somebody holds is refused. -/
theorem perform_eq_error_iff :
    (∃ failure, context.perform clock ids operation = .error failure) ↔
      (∃ expiry, operation = .requestLease expiry) ∧ context.process.isLeased (clock 0) := by
  cases operation with
  | requestLease expiry =>
      simp [perform, performLease_eq_error_iff, LeaseOp.perform_eq_error_iff]
  | skip types | skipExcept types | schedule types => simp [perform]
  | finalize => simp [perform, performLease, LeaseOp.perform, bind, Except.bind, pure, Except.pure]

/-- The steps of a type are all pending, or the earliest of them has been resolved and all others
are its duplicates. -/
def IsGrouped (context : ManualContext) (type : StepType) : Prop :=
  (∀ step ∈ context.steps, step.type = type → step.isPending) ∨
    ∃ first ∈ context.steps, first.type = type ∧
      first.status = some (if type = context.current then .done else .skipped) ∧
      ∀ other ∈ context.steps, other.type = type →
        first.isNotAfter other ∧ (other = first ∨ other.status = some .duplicate)

theorem Reflects.isGrouped (reflects : context.Reflects steps) (type : StepType) :
    context.IsGrouped type := by
  rcases reflects.groups type with pending | resolved
  · exact .inl pending
  by_cases empty : ∃ step ∈ context.steps, step.type = type
  · obtain ⟨step, member, grouped⟩ := empty
    have isOfType : ofType type step := beq_iff_eq.mpr grouped
    obtain ⟨first, firstMember, isChosen, isLeading⟩ :=
      Resolution.exists_leads reflects.unique member isOfType
    have firstType : first.type = type := beq_iff_eq.mp isChosen
    have precedes := Resolution.leads_iff.mp isLeading
    refine .inr ⟨first, firstMember, firstType, ?_, ?_⟩
    · rw [resolved first firstMember firstType, Resolution.assigned, if_pos isLeading]
      rfl
    · intro other otherMember otherType
      have isOther : ofType type other := beq_iff_eq.mpr otherType
      refine ⟨precedes other otherMember isOther, ?_⟩
      rw [resolved other otherMember otherType, Resolution.assigned]
      by_cases alsoLeading : Resolution.leads (ofType type) context.steps other
      · have back := Resolution.leads_iff.mp alsoLeading first firstMember isChosen
        have sameId := Step.id_eq_of_isNotAfter back (precedes other otherMember isOther)
        exact .inl (List.inj_on_of_nodup_map reflects.unique otherMember firstMember sameId)
      · exact .inr (by rw [if_neg alsoLeading])
  · exact .inl fun step member grouped => absurd ⟨step, member, grouped⟩ empty

end ManualContext

end Workflow
