import Mathlib.Data.List.Flatten
import Mathlib.Data.List.Pairwise
import Workflow.Drain
import Workflow.Proofs.Rows.Advance

/-!
# The agenda and the steps it stands for

An agenda lists pending steps.  Whatever a result does to it comes with updates of
steps that it listed, and a step that stays on the agenda is only updated to stay
pending.  So the agenda keeps depicting the steps as they will be once what is
staged has been committed.
-/

namespace Workflow

namespace Resolution

variable {steps : List Uuid} {status : StepStatus} {message : Option String}

theorem mem_updates_iff {entry : Uuid × StepUpdate} :
    entry ∈ updates steps status message ↔
      ∃ position, steps[position]? = some entry.1 ∧
        entry.2 = .resolve (statusAt status position) message := by
  constructor
  · intro member
    obtain ⟨⟨step, position⟩, inSteps, rfl⟩ := List.mem_map.mp member
    exact ⟨position, List.mem_zipIdx_iff_getElem?.mp inSteps, rfl⟩
  · intro isUpdated
    obtain ⟨position, found, resolved⟩ := isUpdated
    exact List.mem_map.mpr ⟨(entry.1, position), List.mem_zipIdx_iff_getElem?.mpr found,
      Prod.ext rfl resolved.symm⟩

theorem mem_of_mem_updates {entry : Uuid × StepUpdate}
    (member : entry ∈ updates steps status message) : entry.1 ∈ steps := by
  obtain ⟨position, found, _⟩ := mem_updates_iff.mp member
  exact List.mem_of_getElem? found

end Resolution

namespace Agenda

variable {agenda middle next : Agenda} {type : StepType} {id : Uuid}
  {updates more : List (Uuid × StepUpdate)}

/-- The pending steps on an agenda. -/
def ids (agenda : Agenda) : List Uuid :=
  agenda.pending.flatMap Prod.snd

/-- The pending steps are pending, each is listed once, and all types are known. -/
structure Depicts (agenda : Agenda) (steps : List Step) : Prop where
  pending : ∀ id ∈ agenda.ids, ∃ step ∈ steps, step.id = id ∧ step.isPending
  nodup : agenda.ids.Nodup
  known : ∀ step ∈ steps, step.type ∈ agenda.known

/-- Updates lead from one agenda to the next if they concern its steps and keep those
that stay on it pending. -/
structure Turns (agenda : Agenda) (updates : List (Uuid × StepUpdate)) (next : Agenda) :
    Prop where
  targets : ∀ entry ∈ updates, entry.1 ∈ agenda.ids
  remaining : next.ids.Sublist agenda.ids
  pending : ∀ entry ∈ updates, entry.1 ∈ next.ids → entry.2.status = .write (some .todo)
  known : next.known = agenda.known

theorem Turns.refl (agenda : Agenda) : agenda.Turns [] agenda where
  targets := by simp
  remaining := List.Sublist.refl _
  pending := by simp
  known := rfl

theorem Turns.trans (first : agenda.Turns updates middle) (second : middle.Turns more next) :
    agenda.Turns (updates ++ more) next where
  targets := by
    intro entry member
    rcases List.mem_append.mp member with inFirst | inSecond
    · exact first.targets entry inFirst
    · exact first.remaining.subset (second.targets entry inSecond)
  remaining := second.remaining.trans first.remaining
  pending := by
    intro entry member stays
    rcases List.mem_append.mp member with inFirst | inSecond
    · exact first.pending entry inFirst (second.remaining.subset stays)
    · exact second.pending entry inSecond stays
  known := second.known.trans first.known

/-! ### Groups -/

theorem mem_ids_iff : id ∈ agenda.ids ↔ ∃ group ∈ agenda.pending, id ∈ group.2 := by
  simp [ids]

/-- The steps of a type are those of one group, or there are none. -/
theorem stepsOf_eq (agenda : Agenda) (type : StepType) :
    agenda.stepsOf type = [] ∨ (type, agenda.stepsOf type) ∈ agenda.pending := by
  rw [stepsOf]
  induction agenda.pending with
  | nil => exact .inl rfl
  | cons group groups induction =>
      obtain ⟨other, steps⟩ := group
      by_cases same : type = other
      · subst same
        simp
      · have skipped : (type == other) = false := by simpa using same
        rw [List.lookup_cons, skipped]
        rcases induction with none | member
        · exact .inl none
        · exact .inr (List.mem_cons_of_mem _ member)

theorem mem_ids_of_mem_stepsOf (listed : id ∈ agenda.stepsOf type) : id ∈ agenda.ids := by
  rcases agenda.stepsOf_eq type with none | member
  · simp [none] at listed
  · exact mem_ids_iff.mpr ⟨_, member, listed⟩

theorem group_eq_of_mem {first second : StepType × List Uuid} (nodup : agenda.ids.Nodup)
    (firstMember : first ∈ agenda.pending) (secondMember : second ∈ agenda.pending)
    (inFirst : id ∈ first.2) (inSecond : id ∈ second.2) : first = second := by
  by_contra different
  have apart := (List.nodup_flatMap.mp nodup).2
  have symmetric : Std.Symm
      (Function.onFun List.Disjoint (Prod.snd : StepType × List Uuid → List Uuid)) :=
    ⟨fun _ _ disjoint _ inSecond inFirst => disjoint inFirst inSecond⟩
  exact apart.forall firstMember secondMember different inFirst inSecond

theorem nodup_of_mem_pending {group : StepType × List Uuid} (nodup : agenda.ids.Nodup)
    (member : group ∈ agenda.pending) : group.2.Nodup :=
  (List.nodup_flatMap.mp nodup).1 group member

theorem ids_dropType_sublist : (agenda.dropType type).ids.Sublist agenda.ids :=
  List.Sublist.flatMap List.filter_sublist _

theorem notMem_ids_dropType (nodup : agenda.ids.Nodup) (listed : id ∈ agenda.stepsOf type) :
    id ∉ (agenda.dropType type).ids := by
  intro stays
  obtain ⟨group, member, inGroup⟩ := mem_ids_iff.mp stays
  simp only [dropType, List.mem_filter, bne_iff_ne] at member
  rcases agenda.stepsOf_eq type with none | ofType
  · simp [none] at listed
  · have same := group_eq_of_mem nodup member.1 ofType inGroup listed
    exact member.2 (congrArg Prod.fst same)

theorem ids_keepOldest_sublist : (agenda.keepOldest type).ids.Sublist agenda.ids := by
  rw [ids, ids, keepOldest, List.flatMap_map]
  apply List.Sublist.flatMap_right
  intro group _
  split
  · exact List.take_sublist 1 group.2
  · exact List.Sublist.refl _

theorem mem_take_of_mem_ids_keepOldest (nodup : agenda.ids.Nodup)
    (listed : id ∈ agenda.stepsOf type) (stays : id ∈ (agenda.keepOldest type).ids) :
    id ∈ (agenda.stepsOf type).take 1 := by
  obtain ⟨group, member, inGroup⟩ := mem_ids_iff.mp stays
  simp only [keepOldest, List.mem_map] at member
  obtain ⟨origin, originMember, rfl⟩ := member
  have inOrigin : id ∈ origin.2 := by
    split at inGroup
    · exact List.mem_of_mem_take inGroup
    · exact inGroup
  rcases agenda.stepsOf_eq type with none | ofType
  · simp [none] at listed
  · have same := group_eq_of_mem nodup originMember ofType inOrigin listed
    subst same
    simpa using inGroup

/-! ### Results -/

theorem turns_dropType (nodup : agenda.ids.Nodup) (type : StepType) (status : StepStatus)
    (message : Option String) :
    agenda.Turns (Resolution.updates (agenda.stepsOf type) status message)
      (agenda.dropType type) where
  targets := fun _ member => mem_ids_of_mem_stepsOf (Resolution.mem_of_mem_updates member)
  remaining := ids_dropType_sublist
  pending := fun _ member stays =>
    absurd stays (notMem_ids_dropType nodup (Resolution.mem_of_mem_updates member))
  known := rfl

theorem turns_keepOldest (nodup : agenda.ids.Nodup) (message : Option String) :
    agenda.Turns (Resolution.updates (agenda.stepsOf type) .todo message)
      (agenda.keepOldest type) where
  targets := fun _ member => mem_ids_of_mem_stepsOf (Resolution.mem_of_mem_updates member)
  remaining := ids_keepOldest_sublist
  pending := by
    intro entry member stays
    have listed := Resolution.mem_of_mem_updates member
    obtain ⟨position, found, resolved⟩ := Resolution.mem_updates_iff.mp member
    have oldest := mem_take_of_mem_ids_keepOldest nodup listed stays
    have stepsNodup : (agenda.stepsOf type).Nodup := by
      rcases agenda.stepsOf_eq type with none | ofType
      · simp [none]
      · exact nodup_of_mem_pending nodup ofType
    have isFirst : position = 0 := by
      cases steps : agenda.stepsOf type with
      | nil => simp [steps] at listed
      | cons first rest =>
          rw [steps] at found oldest stepsNodup
          have isOldest : entry.1 = first := by simpa using oldest
          obtain ⟨inRange, here⟩ := List.getElem?_eq_some_iff.mp found
          have same : (first :: rest)[position] = (first :: rest)[0] :=
            here.trans isOldest
          exact stepsNodup.getElem_inj_iff.mp same
    rw [resolved, isFirst]
    rfl
  known := rfl

theorem turns_settle (nodup : agenda.ids.Nodup) (type : StepType) (status : StepStatus)
    (message : Option String) :
    agenda.Turns (agenda.settle type status message).2 (agenda.settle type status message).1 := by
  simp only [settle]
  split
  · exact .refl agenda
  · by_cases again : status = .todo
    · subst again
      simpa using turns_keepOldest nodup message
    · simpa [again] using turns_dropType nodup type status message

theorem turns_skipType (nodup : agenda.ids.Nodup) (type : StepType) :
    agenda.Turns (agenda.skipType type).2 (agenda.skipType type).1 := by
  have dropped := turns_dropType nodup type .skipped none
  simp only [skipType]
  split
  · rename_i unlisted
    simpa [unlisted, Resolution.updates] using dropped
  · -- Taking the type off the queue changes no step.
    exact ⟨dropped.targets, dropped.remaining, dropped.pending, dropped.known⟩

theorem turns_skip (nodup : agenda.ids.Nodup) (types : List StepType) :
    agenda.Turns (agenda.skip types).2 (agenda.skip types).1 := by
  induction types generalizing agenda with
  | nil => exact .refl agenda
  | cons type types induction =>
      have first := turns_skipType nodup type
      exact first.trans (induction (nodup.sublist first.remaining))

theorem turns_afterResult (nodup : agenda.ids.Nodup) (type : StepType) (result : StepResult) :
    agenda.Turns (agenda.afterResult type result).2 (agenda.afterResult type result).1 := by
  have settled := turns_settle nodup type result.status result.message
  exact settled.trans (turns_skip (nodup.sublist settled.remaining) _)

/-! ### A new step -/

section New

variable {other : StepType} {step : Uuid}

theorem pending_addStep (unknown : type ∉ agenda.known) :
    (agenda.addStep type step).pending = agenda.pending ++ [(type, [step])] := by
  rw [addStep, if_neg unknown]

theorem known_addStep (unknown : type ∉ agenda.known) :
    (agenda.addStep type step).known = type :: agenda.known := by
  rw [addStep, if_neg unknown]

theorem queue_addStep (unknown : type ∉ agenda.known) :
    (agenda.addStep type step).queue =
      if agenda.executable.contains type then type :: agenda.queue else agenda.queue := by
  rw [addStep, if_neg unknown]

theorem ids_addStep (unknown : type ∉ agenda.known) :
    (agenda.addStep type step).ids = agenda.ids ++ [step] := by
  rw [ids, ids, pending_addStep unknown, List.flatMap_append]
  rfl

theorem types_addStep (unknown : type ∉ agenda.known) :
    (agenda.addStep type step).types = agenda.types ++ [type] := by
  rw [types, types, pending_addStep unknown, List.map_append]
  rfl

theorem stepsOf_addStep (unknown : type ∉ agenda.known) (absent : type ∉ agenda.types) :
    (agenda.addStep type step).stepsOf other =
      if other = type then [step] else agenda.stepsOf other := by
  rw [stepsOf, stepsOf, pending_addStep unknown, List.lookup_append]
  by_cases same : other = type
  · subst same
    have unlisted : agenda.pending.lookup other = none := by
      rw [List.lookup_eq_none_iff]
      intro group member
      have different : other ≠ group.1 := fun same => absent (same ▸ List.mem_map_of_mem member)
      simpa using different
    simp [unlisted]
  · have passed : (other == type) = false := by simpa using same
    simp [same, List.lookup_cons, passed]

end New

end Agenda

end Workflow
