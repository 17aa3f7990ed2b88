import Workflow.Proofs.Attempt.Lease

/-!
# Draining under a lease

The contract of a drain: its agenda previews the process from the first look at the
steps to the last commit, so that every unit of work it commits respects the steps.
The induction follows the measure by which the drain itself ends.
-/

namespace Workflow

open Workflow.Action Scene

namespace Agenda

variable {agenda : Agenda} {types : List StepType}

theorem nodup_unknown : (agenda.unknown types).Nodup :=
  nodup_eraseDups _

theorem notMem_known_of_mem_unknown {type : StepType} (member : type ∈ agenda.unknown types) :
    type ∉ agenda.known := by
  simpa using (List.mem_filter.mp (List.mem_eraseDups.mp member)).2

end Agenda

theorem DrainResult.unmodified_of_ne_saveRequested {modified : Bool}
    (unsaved : DrainResult.ofModified modified ≠ .saveRequested) : modified = false := by
  cases modified with
  | true => exact absurd rfl unsaved
  | false => rfl

namespace Drain

variable {habits : Habits} {id : Uuid} {scene : Scene} {agenda idleAgenda : Agenda}
  {span : Int} {isIdle : Prop}

/-- The lease is held.  If nothing has been done since the last commit, then another
agenda previews the process without what executors may have staged. -/
def Trying (habits : Habits) (id : Uuid) (agenda : Agenda) (isIdle : Prop)
    (idleAgenda : Agenda) (scene : Scene) : Prop :=
  scene.Working habits id agenda ∧ (isIdle → scene.discard.Working habits id idleAgenda)

theorem stable_trying : Stable habits (Trying habits id agenda isIdle idleAgenda) := by
  intro scene later trying meanwhile
  exact ⟨stable_working _ _ trying.1 meanwhile,
    fun idle => stable_working.discard _ _ (trying.2 idle) meanwhile⟩

theorem Trying.holdsLease (trying : Trying habits id agenda isIdle idleAgenda scene) :
    id = scene.held.id ∧ scene.HoldsLease :=
  ⟨trying.1.holds.symm, trying.1.toLeased.holdsLease⟩

theorem trying_of_unstaged (working : scene.Working habits id agenda)
    (unstaged : scene.staged = []) : Trying habits id agenda True agenda scene := by
  have same : scene.discard = scene := by rw [Scene.discard, ← unstaged]
  exact ⟨working, fun _ => same.symm ▸ working⟩

theorem Trying.stage_of_mayStage (trying : Trying habits id agenda isIdle idleAgenda scene)
    {batch : Batch} (allowed : ∀ change ∈ batch, habits.mayStage change) :
    Trying habits id agenda isIdle idleAgenda (scene.stage batch) := by
  refine ⟨trying.1.stage ?_ ?_ ?_, trying.2⟩
  · intro target expected update member
    exact habits.raises (allowed _ member)
  · intro inserted
    obtain ⟨process, member⟩ := inserted
    exact habits.insertsNew (allowed _ (Batch.mem_insertedProcesses_iff.mp member))
  · intro guarded owned previews
    exact previews.append_of_concernsProcess fun change member =>
      habits.concernsProcess guarded (allowed change member)

theorem stageSteps_keeps {types : List StepType} (nodup : types.Nodup)
    (unknown : ∀ type ∈ types, type ∉ agenda.known)
    (trying : Trying habits id agenda isIdle idleAgenda scene) :
    Keeps habits
      (fun created scene =>
        Trying habits id (agenda.addSteps created) isIdle idleAgenda scene)
      (Broken habits id) (stageSteps id types) scene := by
  induction types generalizing agenda scene with
  | nil => exact keeps_pure trying
  | cons type types induction =>
      obtain ⟨notLater, restNodup⟩ := List.nodup_cons.mp nodup
      have isNew : type ∉ agenda.known := unknown type List.mem_cons_self
      rw [stageSteps]
      refine keeps_ask_bind stable_trying trying (fun _ _ => trivial) ?_
      intro scene trying step _ answers
      obtain ⟨now, rfl⟩ := answers
      have added : Trying habits id (agenda.addStep type step) isIdle idleAgenda
          (scene.stage [.insertStep (.fresh step type .todo id now)]) := by
        refine ⟨trying.1.stage ?_ ?_ ?_, trying.2⟩
        · simp [Batch.Raises]
        · simp [Batch.insertedProcesses]
        · intro _ owned previews
          exact previews.addStep isNew rfl rfl
      have restUnknown : ∀ other ∈ types, other ∉ (agenda.addStep type step).known := by
        intro other member known
        rw [Agenda.addStep, if_neg isNew] at known
        rcases List.mem_cons.mp known with same | before
        · exact notLater (same ▸ member)
        · exact unknown other (List.mem_cons_of_mem type member) before
      apply (induction restNodup restUnknown added).bind
      intro created scene trying
      exact keeps_pure trying

theorem stageUpdates_keeps {updates : List (Uuid × StepUpdate)} {next : Agenda}
    (turns : agenda.ids.Nodup → agenda.Turns updates next)
    (trying : Trying habits id agenda True agenda scene) :
    Keeps habits (fun _ scene => Trying habits id next (updates = []) next scene)
      (Broken habits id) (stageUpdates updates) scene := by
  rw [stageUpdates]
  split
  · rename_i nothing
    have unchanged : updates = [] := by simpa using nothing
    subst unchanged
    -- An empty batch of updates is a turn, too.
    have turn : ∀ owned staged, agenda.Previews id owned staged →
        next.Previews id owned staged := by
      intro owned staged previews
      simpa using previews.turn (fun _ => ⟨0, 0⟩) turns
    have stays : ∀ scene : Scene, scene.Working habits id agenda →
        scene.Working habits id next := fun scene working =>
      ⟨working.toLeased, fun guarded current => turn _ _ (working.previews guarded current)⟩
    exact keeps_pure ⟨stays _ trying.1, fun _ => stays _ (trying.2 trivial)⟩
  · rename_i something
    refine keeps_ask stable_trying trying (fun _ _ => trivial) ?_
    intro scene trying _ _ answers
    obtain ⟨clock, rfl⟩ := answers
    refine ⟨trying.1.stage ?_ ?_ ?_, fun nothing => absurd ?_ something⟩
    · simp [Batch.Raises, Change.ofUpdates]
    · simp [Batch.mem_insertedProcesses_iff, Change.ofUpdates]
    · intro _ owned previews
      exact previews.turn clock turns
    · simpa using nothing

/-- Before a step that needs one, the lease is renewed. -/
theorem renewIfNeeded_keeps {executor : ProcessType} {type : StepType}
    (trying : Trying habits id agenda True agenda scene) :
    Keeps habits
      (fun goesOn scene => goesOn = true ∧ Trying habits id agenda True agenda scene)
      (Broken habits id) (renewIfNeeded executor type (Attempt.settle (.ok span))) scene := by
  rw [renewIfNeeded]
  refine keeps_ask_bind stable_trying trying (fun _ trying => trying.holdsLease.2) ?_
  intro scene trying reply _ answers
  obtain ⟨mayReply, batch, allowed, rfl⟩ := answers
  have staged := trying.stage_of_mayStage allowed
  refine keeps_ofExcept_bind ?_ fun failure failed =>
    .leased staged.1.toLeased (.inl (mayReply failure failed))
  intro needed _
  cases needed with
  | true =>
      apply (Attempt.settle_keeps staged.1 (by simp)).imp
      intro goesOn scene settled
      obtain ⟨yes, working, unstaged⟩ := settled
      exact ⟨yes, trying_of_unstaged working unstaged⟩
  | false => exact keeps_pure ⟨rfl, staged⟩

/-- What the drain keeps on its way from one step to the next. -/
def Draining (habits : Habits) (id : Uuid) (agenda : Agenda) (scene : Scene) : Prop :=
  scene.Working habits id agenda ∧ scene.staged = []

theorem stable_draining : Stable habits (Draining habits id agenda) :=
  stable_working.and stable_unstaged

theorem Draining.next? (draining : Draining habits id agenda scene) {type : StepType}
    {rest : Agenda} (found : agenda.next? = some (type, rest)) :
    Draining habits id rest scene := by
  obtain ⟨working, unstaged⟩ := draining
  simp only [Agenda.next?, Option.map_eq_some_iff, Prod.mk.injEq] at found
  obtain ⟨_, _, _, rfl⟩ := found
  exact ⟨⟨working.toLeased, fun guarded current =>
    (working.previews guarded current).congr rfl rfl⟩, unstaged⟩

theorem runQueue_keeps {executor : ProcessType} (draining : Draining habits id agenda scene) :
    Keeps habits (fun _ scene => scene.Leased habits id ∧ scene.staged = [])
      (Broken habits id) (runQueue executor id (Attempt.settle (.ok span)) agenda) scene := by
  induction size : agenda.measure using Nat.strongRecOn generalizing agenda scene with
  | ind size induction =>
      subst size
      rw [runQueue]
      refine keeps_ask_bind stable_draining draining (fun _ _ => trivial) ?_
      intro _ draining cancelled scene answers
      subst answers
      split
      · apply keeps_note stable_draining draining
        intro scene draining
        exact ⟨draining.1.toLeased, draining.2⟩
      · split
        · exact keeps_pure ⟨draining.1.toLeased, draining.2⟩
        · rename_i type rest found
          have next := draining.next? found
          apply (renewIfNeeded_keeps (trying_of_unstaged next.1 next.2)).bind
          intro _ scene renewed
          obtain ⟨rfl, trying⟩ := renewed
          rw [if_pos rfl]
          refine keeps_ask_bind stable_trying trying (fun _ trying => trying.holdsLease) ?_
          intro scene trying reply _ answers
          obtain ⟨mayReply, batch, allowed, rfl⟩ := answers
          have executed := trying.stage_of_mayStage allowed
          refine keeps_ofExcept_bind ?_ fun failure failed =>
            .leased executed.1.toLeased (.inl (mayReply failure failed))
          intro result _
          refine (stageUpdates_keeps (fun nodup => Agenda.turns_afterResult nodup type result)
            executed).bind ?_
          intro _ scene trying
          refine (stageSteps_keeps Agenda.nodup_unknown
            (fun _ => Agenda.notMem_known_of_mem_unknown) trying).bind ?_
          intro created scene trying
          apply keeps_note_bind stable_trying trying
          intro scene trying
          refine (Attempt.settle_keeps trying.1 ?_).bind ?_
          · intro unmodified
            have unsaved := unmodified.trans_ne (by simp : DrainResult.unmodified ≠ .saveRequested)
            have nothing := DrainResult.unmodified_of_ne_saveRequested unsaved
            simp only [Bool.or_eq_false_iff, Bool.not_eq_false', List.isEmpty_iff] at nothing
            obtain ⟨⟨_, noUpdates⟩, noSteps⟩ := nothing
            subst noSteps
            exact trying.2 noUpdates
          · intro _ scene settled
            obtain ⟨rfl, working, unstaged⟩ := settled
            rw [if_pos rfl]
            split
            · apply keeps_note stable_draining ⟨working, unstaged⟩
              intro scene draining
              exact ⟨draining.1.toLeased, draining.2⟩
            · refine induction _ ?_ ⟨working, unstaged⟩ rfl
              exact Nat.lt_of_le_of_lt (Agenda.measure_addSteps_le _ _)
                (Nat.lt_of_le_of_lt (Agenda.measure_afterResult_le _ _ _)
                  (Agenda.measure_of_next? found))

/-- What has been read about the steps is true as long as nobody else has written. -/
def Knowing (habits : Habits) (id : Uuid) (facts : Rows → Prop) (scene : Scene) : Prop :=
  scene.Leased habits id ∧ scene.staged = [] ∧
    (habits.guarded → scene.rows.process? id = some scene.held → facts scene.rows)

theorem stable_knowing {facts : Rows → Prop}
    (ofSteps : ∀ rows after : Rows, after.owned id = rows.owned id → facts rows → facts after) :
    Stable habits (Knowing habits id facts) := by
  intro scene later holds meanwhile
  obtain ⟨leased, unstaged, knows⟩ := holds
  refine ⟨stable_leased _ _ leased meanwhile, meanwhile.staged.trans unstaged, ?_⟩
  intro guarded current
  obtain ⟨before, sameSteps⟩ := leased.current_of_meanwhile meanwhile current
  exact ofSteps scene.rows later.rows (sameSteps guarded) (knows guarded before)

/-- The agenda that is loaded from what has been read previews the process. -/
theorem trying_load {steps : List PendingStep} {types executable : List StepType}
    (knows : Knowing habits id
      (fun rows => steps = rows.pendingSteps id ∧ types = rows.stepTypes id) scene) :
    Trying habits id (Agenda.load executable steps types) True
      (Agenda.load executable steps types) scene := by
  obtain ⟨leased, unstaged, facts⟩ := knows
  refine trying_of_unstaged ⟨leased, ?_⟩ unstaged
  intro guarded current
  obtain ⟨rfl, rfl⟩ := facts guarded current
  rw [unstaged]
  apply Agenda.Depicts.previews
  apply Agenda.depicts_load
  · intro entry member
    obtain ⟨step, owned, pending, same, _⟩ := Rows.mem_pendingSteps_iff.mp member
    exact ⟨step, owned, pending, same⟩
  · exact Rows.nodup_pendingSteps leased.keyed
  · intro step owned
    exact Rows.mem_stepTypes_iff.mpr ⟨step, owned, rfl⟩

end Drain

open Drain in
theorem Registry.drain_keeps {habits : Habits} {id : Uuid} {scene : Scene} {span : Int}
    {registry : Registry} {type : ProcessType} (leased : scene.Leased habits id)
    (unstaged : scene.staged = []) :
    Keeps habits (fun _ scene => scene.Leased habits id ∧ scene.staged = [])
      (Broken habits id) (registry.drain id type (Attempt.settle (.ok span))) scene := by
  rw [Registry.drain]
  split
  · exact keeps_throw (.leased leased (.inr ⟨rfl, rfl⟩))
  · rename_i registration _
    refine keeps_ask_bind (stable_leased.and stable_unstaged) ⟨leased, unstaged⟩
      (fun _ _ => trivial) ?_
    intro _ holds reply scene answers
    obtain ⟨leased, unstaged⟩ := holds
    obtain ⟨mayReply, read, rfl⟩ := answers
    refine keeps_ofExcept_bind ?_ fun failure failed =>
      .leased leased (.inl (mayReply failure failed))
    intro steps replied
    subst replied
    have listed : Knowing habits id (fun rows => steps = rows.pendingSteps id) scene :=
      ⟨leased, unstaged, fun _ _ => read steps rfl⟩
    refine keeps_ask_bind (stable_knowing ?_) listed (fun _ _ => trivial) ?_
    · intro rows after same facts
      rw [Rows.pendingSteps_congr same, facts]
    intro _ holds reply scene answers
    obtain ⟨leased, unstaged, listed⟩ := holds
    obtain ⟨mayReply, read, rfl⟩ := answers
    refine keeps_ofExcept_bind ?_ fun failure failed =>
      .leased leased (.inl (mayReply failure failed))
    intro types replied
    subst replied
    have trying := @trying_load habits id scene steps types registration.executable
      ⟨leased, unstaged, fun guarded current => ⟨listed guarded current, read types rfl⟩⟩
    refine keeps_ask_bind stable_trying trying (fun _ trying => trying.holdsLease) ?_
    intro scene trying reply _ answers
    obtain ⟨mayReply, batch, allowed, rfl⟩ := answers
    have prepared := trying.stage_of_mayStage allowed
    refine keeps_ofExcept_bind ?_ fun failure failed =>
      .leased prepared.1.toLeased (.inl (mayReply failure failed))
    intro preparation _
    refine (stageSteps_keeps Agenda.nodup_unknown
      (fun _ => Agenda.notMem_known_of_mem_unknown) prepared).bind ?_
    intro created scene trying
    refine (Attempt.settle_keeps trying.1 ?_).bind ?_
    · intro unmodified
      have unsaved := unmodified.trans_ne (by simp : DrainResult.unmodified ≠ .saveRequested)
      have nothing := DrainResult.unmodified_of_ne_saveRequested unsaved
      simp only [Bool.or_eq_false_iff, Bool.not_eq_false', List.isEmpty_iff] at nothing
      obtain ⟨_, noSteps⟩ := nothing
      subst noSteps
      exact trying.2 trivial
    · intro _ scene settled
      obtain ⟨rfl, working, unstaged⟩ := settled
      rw [if_pos rfl]
      exact runQueue_keeps ⟨working, unstaged⟩

theorem Attempt.work_keeps {habits : Habits} {start : Scene} {registry : Registry}
    {term : LeaseTerm} (begins : start.Beginning start.held.id) :
    Keeps habits (fun _ => Ended habits start.held.id) (Broken habits start.held.id)
      (Attempt.work registry term start.held) start := by
  rw [Attempt.work]
  have reports : ∀ scene : Scene, scene.Ended habits start.held.id →
      Keeps habits (fun _ => Ended habits start.held.id) (Broken habits start.held.id)
        (do
          let drained ← ask .held
          note (.drained drained.id drained.version)) scene := by
    intro scene ended
    apply keeps_held_bind stable_ended ended
    intro scene ended
    apply keeps_note stable_ended ended
    intro scene ended
    exact ended
  apply (Attempt.acquire_keeps begins).bind
  intro isLeased scene acquired
  cases isLeased with
  | false => exact keeps_pure acquired
  | true =>
      obtain ⟨leased, unstaged, span, rfl⟩ := acquired
      rw [if_pos rfl]
      apply (Registry.drain_keeps leased unstaged).bind
      intro _ scene holds
      refine keeps_lease_bind (stable_leased.and stable_unstaged) holds ?_ ?_
      · intro scene holds process batch performed
        simp only [LeaseOp.perform, Process.releaseLease_eq, holds.1.leased, if_true,
          Except.ok.injEq] at performed
        cases performed
        have updated : Updated (fun scene => scene.Leased habits start.held.id ∧ scene.staged = [])
            (.write none) (scene.update (.write none)) := ⟨scene, holds, rfl⟩
        have saves : Keeps habits (fun _ => Ended habits start.held.id)
            (Broken habits start.held.id) save (scene.update (.write none)) :=
          keeps_save_update (stable_leased.and stable_unstaged) updated
            (fun _ holds => holds.1.maySave_update_of_unstaged holds.2)
            (fun _ holds _ commits => ⟨rfl, holds.1.returned_commit commits⟩)
            (fun _ holds _ _ => .stranded holds.1.fail)
        exact saves.bind fun _ => reports
      · intro scene _ failure refused
        cases refused

/-- **The contract of an attempt.**  Whatever it is answered and whatever others do, an
attempt asks to save only what it may.  It leaves nothing staged and, if no save has
failed, no lease. -/
theorem Registry.attempt_keeps {habits : Habits} {scene : Scene} {id : Uuid}
    (registry : Registry) (term : LeaseTerm) (begins : scene.Beginning id) :
    Keeps habits (fun _ => Ended habits id) (fun _ => Ended habits id)
      (registry.attempt term) scene := by
  rw [Registry.attempt]
  apply keeps_held_bind stable_beginning begins
  intro scene begins
  obtain rfl := begins.holds
  refine (Attempt.work_keeps begins).outcome_bind ?_ ?_
  · intro _ scene ended
    exact keeps_pure ended
  · intro failure scene broken
    exact Attempt.recover_keeps broken

end Workflow
