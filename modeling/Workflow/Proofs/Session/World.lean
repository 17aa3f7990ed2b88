import Workflow.Session.World

/-!
# What an act changes

The participants, the objects and the rows of a session after each of its acts.  An
act is quiet if it leaves all of them as they are.
-/

namespace Workflow.Session

variable {name : String} {world after : World} {place : Nat}

namespace World

def participant (world : World) (name : String) : Participant :=
  (world.participants.find? fun participant => participant.name == name).getD ⟨name, [], []⟩

/-- The world after a participant has changed. -/
def withParticipant (world : World) (participant : Participant) : World :=
  ((Act.setParticipant participant).run world).2

def copy (world : World) (place : Nat) : Process :=
  ((Act.object place).run world).1.toProcess

/-- Two worlds with the same rows, objects and participants. -/
structure Alike (world after : World) : Prop where
  store : after.store = world.store
  objects : after.objects = world.objects
  participants : after.participants = world.participants

theorem Alike.refl (world : World) : world.Alike world :=
  ⟨rfl, rfl, rfl⟩

theorem Alike.trans {middle : World} (first : world.Alike middle) (second : middle.Alike after) :
    world.Alike after :=
  ⟨second.store.trans first.store, second.objects.trans first.objects,
    second.participants.trans first.participants⟩

theorem copy_congr (sameObjects : after.objects = world.objects) (place : Nat) :
    after.copy place = world.copy place := by
  change (after.objects.getD place _).toProcess = (world.objects.getD place _).toProcess
  rw [sameObjects]

theorem Alike.participant_eq (alike : world.Alike after) (name : String) :
    after.participant name = world.participant name := by
  rw [participant, participant, alike.participants]

theorem participant_name : (world.participant name).name = name := by
  rw [participant]
  cases found : world.participants.find? fun participant => participant.name == name with
  | none => rfl
  | some participant => simpa using List.find?_some found

theorem withParticipant_eq (participant : Participant) :
    ∃ participants, world.withParticipant participant = { world with participants } := by
  have unfolded : world.withParticipant participant =
      if world.participants.any fun other => other.name == participant.name then
        { world with
          participants := world.participants.map fun other =>
            if other.name = participant.name then participant else other }
      else { world with participants := world.participants ++ [participant] } := rfl
  rw [unfolded]
  split
  · exact ⟨_, rfl⟩
  · exact ⟨_, rfl⟩

theorem participant_withParticipant {participant : Participant}
    (named : participant.name = name) :
    (world.withParticipant participant).participant name = participant := by
  subst named
  have unfolded : (world.withParticipant participant).participants =
      if world.participants.any fun other => other.name == participant.name then
        world.participants.map fun other =>
          if other.name = participant.name then participant else other
      else world.participants ++ [participant] := by
    change World.participants (if _ then _ else _) = _
    split <;> rfl
  rw [World.participant, unfolded]
  split
  · rename_i present
    obtain ⟨other, member, named⟩ := List.any_eq_true.mp present
    have replaced : ∀ other : Participant,
        ((if other.name = participant.name then participant else other).name ==
          participant.name) = (other.name == participant.name) := by
      intro other
      by_cases same : other.name = participant.name <;> simp [same]
    rw [List.find?_map]
    simp only [Function.comp_def, replaced]
    cases found : world.participants.find? fun other => other.name == participant.name with
    | none => exact absurd named (List.find?_eq_none.mp found other member)
    | some first =>
        have isNamed : first.name = participant.name := by simpa using List.find?_some found
        simp [isNamed]
  · rename_i absent
    have none : (world.participants.find? fun other => other.name == participant.name) = none := by
      simpa using absent
    simp [List.find?_append, none]

@[simp] theorem store_withParticipant (participant : Participant) :
    (world.withParticipant participant).store = world.store := by
  obtain ⟨participants, unchanged⟩ := @withParticipant_eq world participant
  rw [unchanged]

@[simp] theorem objects_withParticipant (participant : Participant) :
    (world.withParticipant participant).objects = world.objects := by
  obtain ⟨participants, unchanged⟩ := @withParticipant_eq world participant
  rw [unchanged]

@[simp] theorem copy_withParticipant (participant : Participant) (place : Nat) :
    (world.withParticipant participant).copy place = world.copy place :=
  copy_congr (objects_withParticipant participant) place

theorem copy_setObject {process : Process} (inPlace : place < world.objects.size) :
    ((Act.setObject place process).run world).2.copy place = process := by
  have unfolded : ((Act.setObject place process).run world).2.copy place =
      ((world.objects.modify place fun object => process.withSteps object.steps).getD place
        ((Process.fresh (Uuid.ofNat 0) .setupDim).withSteps [])).toProcess := rfl
  rw [unfolded, Array.getD_eq_getD_getElem?, Array.getElem?_modify]
  simp [inPlace, Process.withSteps]

end World

theorem Act.stage_run (batch : Batch) :
    (Act.stage name batch).run world =
      ((), world.withParticipant
        { world.participant name with
          staged := (world.participant name).staged ++ batch }) := rfl

theorem Act.clear_run :
    ∃ noted : World, world.Alike noted ∧
      ((Act.clear name).run world =
          ((), noted.withParticipant { noted.participant name with staged := [] }) ∨
        (Act.clear name).run world = ((), noted) ∧ (noted.participant name).staged = []) := by
  have unfolded : (Act.clear name).run world =
      (if !(world.participant name).staged.isEmpty then do
        Act.note (.discarding (world.participant name).staged.length)
        Act.setParticipant { world.participant name with staged := [] }
      else pure () : Act Unit) world := rfl
  rw [unfolded]
  split
  · refine ⟨{ world with
      log := world.log.push (.discarding (world.participant name).staged.length) }, ?_, .inl rfl⟩
    exact ⟨rfl, rfl, rfl⟩
  · rename_i unstaged
    exact ⟨world, .refl world, .inr ⟨rfl, by simpa using unstaged⟩⟩

/-- A method that is called either fails before anything happens or acts. -/
theorem Act.call_run {α : Type} (method : Method) (action : Act (Except Failure α)) :
    ∃ participant : Participant, participant.name = name ∧
      participant.staged = (world.participant name).staged ∧
      ((∃ failure, (Act.call name method action).run world =
          (.error failure, world.withParticipant participant)) ∨
        (Act.call name method action).run world =
          action.run (world.withParticipant participant)) := by
  refine ⟨{ world.participant name with
    faults := (Act.countCall method (world.participant name).faults).1 },
    World.participant_name, rfl, ?_⟩
  have asked : (Act.participant name).run world = (world.participant name, world) := rfl
  have passed : ∀ {β γ : Type} (value : Id β) (next : β → Id γ), value >>= next = next value :=
    fun _ _ => rfl
  simp only [Act.call, StateT.run_bind, asked, passed]
  cases due : (Act.countCall method (world.participant name).faults).2 with
  | none => exact .inr rfl
  | some failure => exact .inl ⟨failure, rfl⟩

theorem Act.access_run {α : Type} {access : Store.Access α} {outcome : Except Failure α}
    {store : Store} (answered : access.run.run world.store = (outcome, store)) :
    (Act.access access).run world = (outcome, { world with store }) := by
  have unfolded : (Act.access access).run world =
      ((access.run.run world.store).1, { world with store := (access.run.run world.store).2 }) :=
    rfl
  rw [unfolded, answered]

namespace Act

variable {α β : Type}

/-- An act that leaves the rows, the objects and the participants as they are. -/
def IsQuiet (act : Act α) : Prop :=
  ∀ world : World, world.Alike (act.run world).2

theorem IsQuiet.pure (value : α) : IsQuiet (pure value : Act α) :=
  World.Alike.refl

/-- After a quiet act follows a quiet act if it does so for the values that are
possible. -/
theorem IsQuiet.bind_of_value {act : Act α} {next : α → Act β} {possible : α → Prop}
    (first : act.IsQuiet) (valued : ∀ world, possible (act.run world).1)
    (second : ∀ value, possible value → (next value).IsQuiet) : IsQuiet (act >>= next) :=
  fun world => (first world).trans (second _ (valued world) _)

theorem IsQuiet.bind {act : Act α} {next : α → Act β} (first : act.IsQuiet)
    (second : ∀ value, (next value).IsQuiet) : IsQuiet (act >>= next) :=
  fun world => (first world).trans (second _ _)

theorem isQuiet_note (notice : Notice) : (note notice).IsQuiet :=
  fun _ => ⟨rfl, rfl, rfl⟩

theorem isQuiet_record (event : Event) : (record event).IsQuiet :=
  fun _ => ⟨rfl, rfl, rfl⟩

theorem isQuiet_cancel : cancel.IsQuiet :=
  fun _ => ⟨rfl, rfl, rfl⟩

theorem isQuiet_now : now.IsQuiet :=
  World.Alike.refl

theorem IsQuiet.mapM {act : α → Act β} (each : ∀ item, (act item).IsQuiet) (items : List α) :
    IsQuiet (items.mapM act) := by
  induction items with
  | nil => exact .pure []
  | cons item items induction =>
      rw [List.mapM_cons]
      exact (each item).bind fun _ => induction.bind fun _ => .pure _

theorem isQuiet_readings (count : Nat) : (readings count).IsQuiet :=
  (IsQuiet.mapM (fun _ => isQuiet_now) (List.range count)).bind fun _ =>
    isQuiet_now.bind fun _ => .pure _

theorem isQuiet_nextId : nextId.IsQuiet := by
  rintro ⟨_, _, _, _, _, _, _ | _, _⟩
  · exact ⟨rfl, rfl, rfl⟩
  · exact ⟨rfl, rfl, rfl⟩

theorem isQuiet_sleep (seconds : Float) : (sleep seconds).IsQuiet := by
  unfold sleep
  split
  · exact IsQuiet.pure ()
  · exact fun _ => ⟨rfl, rfl, rfl⟩

end Act

end Workflow.Session
