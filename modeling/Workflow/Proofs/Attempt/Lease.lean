import Workflow.Proofs.Attempt.Assertions

/-!
# Taking, keeping and returning a lease

The contracts of the parts of an attempt that change the lease: taking it, committing
a unit of work under it, and giving it back after a failure.
-/

namespace Workflow

open Workflow.Action Scene

theorem Action.keeps_save_update {habits : Habits} {scene : Scene} {assertion : Scene → Prop}
    {lease : Field (Option Timestamp)} {post : Unit → Scene → Prop}
    {broken : Failure → Scene → Prop}
    (stable : Stable habits assertion) (updated : Updated assertion lease scene)
    (allowed : ∀ before, assertion before → (before.update lease).MaySave habits)
    (committed : ∀ before, assertion before → ∀ after,
      (before.update lease).Commits habits after → post () ((before.update lease).commit after))
    (failed : ∀ before, assertion before → ∀ failure left,
      broken failure ((before.update lease).fail failure left)) :
    Keeps habits post broken save scene := by
  refine keeps_save (stable_updated stable) updated ?_ ?_ ?_
  · intro _ holds
    obtain ⟨before, holds, rfl⟩ := holds
    exact allowed before holds
  · intro _ holds after commits
    obtain ⟨before, holds, rfl⟩ := holds
    exact committed before holds after commits
  · intro _ holds failure left _
    obtain ⟨before, holds, rfl⟩ := holds
    exact failed before holds failure left

/-- A lease that runs from a reading of the clock ends when its term has passed. -/
def LeaseTerm.Ends (term : LeaseTerm) (now expiry : Timestamp) : Prop :=
  ∃ span, term = .ok span ∧ expiry.instant = now.instant + span

namespace Attempt

variable {habits : Habits} {id : Uuid} {scene : Scene} {agenda : Agenda} {term : LeaseTerm}
  {span : Int}

theorem expiryAfter_ok {now : Timestamp} : expiryAfter (.ok span) now =
    match now.shift? span with
    | some expiry => .ok expiry
    | none => .error .dateOutOfRange := by
  simp only [expiryAfter, bind, Except.bind]
  cases now.shift? span <;> rfl

theorem ends_of_expiryAfter {now expiry : Timestamp}
    (expires : expiryAfter term now = .ok expiry) : term.Ends now expiry := by
  cases term with
  | error failure => cases expires
  | ok span =>
      rw [expiryAfter_ok] at expires
      split at expires
      · obtain rfl := Except.ok.inj expires
        exact ⟨span, rfl, Timestamp.instant_of_shift? ‹_›⟩
      · cases expires

theorem isSwallowed_of_expiryAfter {now : Timestamp} {failure : Failure}
    (overflows : expiryAfter (.ok span) now = .error failure) : failure.IsSwallowed := by
  rw [expiryAfter_ok] at overflows
  split at overflows
  · cases overflows
  · obtain rfl := Except.error.inj overflows
    exact ⟨rfl, rfl⟩

theorem acquire_keeps (begins : scene.Beginning id) :
    Keeps habits
      (fun (isLeased : Bool) scene =>
        if isLeased then
          scene.Leased habits id ∧ scene.staged = [] ∧ ∃ span, term = .ok span
        else scene.Ended habits id)
      (Broken habits id) (acquire term) scene := by
  rw [acquire]
  apply keeps_now_bind stable_beginning begins
  intro scene begins now
  have read : (scene.read now).Beginning id := { begins with }
  apply keeps_held_bind (stable_beginning.and stable_reading) ⟨read, rfl⟩
  intro scene holds
  obtain ⟨begins, reading⟩ := holds
  by_cases leased : scene.held.isLeased now
  · rw [if_pos leased]
    apply keeps_note_bind stable_beginning begins
    intro scene begins
    exact keeps_pure ⟨begins.unstaged, returned_of_unsaved begins.unsaved⟩
  · rw [if_neg leased]
    have free : scene.Free id now := ⟨begins, reading, by simpa using leased⟩
    refine keeps_ofExcept_bind ?_ fun failure _ => Broken.unleased free
    intro expiry expires
    obtain ⟨span, isSpan, _⟩ := ends_of_expiryAfter expires
    refine keeps_lease_bind stable_free free ?performed ?refused
    case refused =>
      intro scene free failure refused
      obtain ⟨_, _, _, request, isLeased⟩ := LeaseOp.perform_eq_error_iff.mp refused
      cases request
      simp [free.free] at isLeased
    case performed =>
      intro scene free process batch performed
      obtain ⟨_, rfl, rfl⟩ := Process.requestLease_eq_ok_iff.mp performed
      have stable := @stable_updated habits (.write (some expiry)) _ (@stable_free habits id now)
      have updated : Updated (Free id now) (.write (some expiry))
          (scene.update (.write (some expiry))) := ⟨scene, free, rfl⟩
      apply keeps_note_bind stable updated
      intro scene updated
      have saves : Keeps habits (fun _ => Leased habits id) (Stranded id) save scene :=
        keeps_save_update stable_free updated (fun _ free => free.maySave_update)
          (fun _ free _ commits => free.commit commits) (fun _ free _ _ => free.fail)
      refine saves.outcome_bind ?_ ?_
      · intro _ scene leased
        apply keeps_discard_bind stable_leased leased
        intro scene leased
        exact keeps_pure ⟨leased.discard, rfl, span, isSpan⟩
      · intro failure scene stranded
        by_cases stale : failure.isStale
        · simp only [stale, if_true]
          apply keeps_note_bind stable_returned stranded.returned
          intro scene returned
          apply keeps_discard_bind stable_returned returned
          intro scene returned
          exact keeps_pure ⟨rfl, returned⟩
        · simp only [stale, Bool.false_eq_true, if_false]
          apply keeps_discard_bind stable_stranded stranded
          intro scene stranded
          exact keeps_throw (Broken.stranded stranded).discard

/-- A renewal stages a later expiry. -/
theorem renew_keeps (working : scene.Working habits id agenda) :
    Keeps habits
      (fun _ scene => ∃ expiry,
        Updated (Working habits id agenda) (.write (some expiry)) scene)
      (Broken habits id) (renew (.ok span)) scene := by
  rw [renew]
  apply keeps_now_bind stable_working working
  intro scene working now
  have read := working.read now
  refine keeps_ofExcept_bind ?_ fun failure overflows =>
    Broken.leased read.toLeased (.inr (isSwallowed_of_expiryAfter overflows))
  intro expiry _
  refine keeps_lease_bind stable_working read ?_ ?_
  · intro scene working process batch performed
    cases performed
    have updated : Updated (Working habits id agenda) (.write (some expiry))
        (scene.update (.write (some expiry))) := ⟨scene, working, rfl⟩
    apply keeps_held_bind (stable_updated stable_working) updated
    intro scene updated
    apply keeps_note (stable_updated stable_working) updated
    intro scene updated
    exact ⟨expiry, updated⟩
  · intro scene _ failure refused
    cases refused

/-- A unit of work is committed under a renewed lease or a raised version; one that
has changed nothing is dropped. -/
theorem settle_keeps {result : DrainResult} (working : scene.Working habits id agenda)
    (unmodified : result = .unmodified → scene.discard.Working habits id agenda) :
    Keeps habits
      (fun goesOn scene =>
        goesOn = true ∧ scene.Working habits id agenda ∧ scene.staged = [])
      (Broken habits id) (settle (.ok span) result) scene := by
  have commits : Keeps habits (fun _ scene => scene.discard.Working habits id agenda)
      (Broken habits id) (settle.commit (.ok span) result) scene := by
    cases result with
    | leaseRequested =>
        apply (renew_keeps working).bind
        intro _ scene renewed
        obtain ⟨expiry, updated⟩ := renewed
        exact keeps_save_update stable_working updated (fun _ working => working.maySave_update)
          (fun _ working _ commits => working.commit rfl commits)
          (fun _ working _ _ => .stranded working.fail)
    | saveRequested =>
        refine keeps_lease_bind stable_working working ?_ ?_
        · intro scene working process batch performed
          cases performed
          have updated : Updated (Working habits id agenda) .keep (scene.update .keep) :=
            ⟨scene, working, rfl⟩
          exact keeps_save_update stable_working updated
            (fun _ working => working.maySave_update)
            (fun _ working _ commits => working.commit working.leased commits)
            (fun _ working _ _ => .stranded working.fail)
        · intro scene _ failure refused
          cases refused
    | unmodified => exact keeps_pure (unmodified rfl)
  apply commits.bind
  intro _ scene working
  apply keeps_discard_bind stable_working.discard working
  intro scene working
  exact keeps_pure ⟨rfl, working, rfl⟩

theorem releaseAfterFailure_keeps {failure : Failure} (broken : scene.Broken habits id failure)
    (unstaged : scene.staged = []) (swallowed : failure.IsSwallowed) :
    Keeps habits (fun _ => Ended habits id) (fun _ => Ended habits id)
      releaseAfterFailure scene := by
  rw [releaseAfterFailure]
  have stable := (@stable_broken habits id failure).and stable_unstaged
  refine keeps_lease_bind stable ⟨broken, unstaged⟩ ?_ ?_
  · intro scene holds process batch performed
    simp only [LeaseOp.perform, Process.releaseLease_eq, Except.ok.injEq] at performed
    split at performed
    · cases performed
      have updated : Updated (fun scene => scene.Broken habits id failure ∧ scene.staged = [])
          (.write none) (scene.update (.write none)) := ⟨scene, holds, rfl⟩
      have saves : Keeps habits (fun _ => Returned habits id) (fun _ => Returned habits id) save
          (scene.update (.write none)) := by
        refine keeps_save_update stable updated ?_
          (fun _ holds _ commits => holds.1.returned_commit commits)
          (fun _ _ _ _ => returned_fail)
        intro before holds
        obtain ⟨broken, unstaged⟩ := holds
        cases broken with
        | unleased free => exact free.maySave_update
        | leased leased => exact leased.maySave_update_of_unstaged unstaged
        | stranded stranded => exact stranded.maySave_update unstaged swallowed
      refine saves.outcome_bind ?_ ?_
      · intro _ scene returned
        apply keeps_discard stable_returned returned
        intro scene returned
        exact ⟨rfl, returned⟩
      · intro failure scene returned
        by_cases cancelled : failure.isCancellation
        · simp only [cancelled, if_true]
          apply keeps_discard_bind stable_returned returned
          intro scene returned
          exact keeps_throw ⟨rfl, returned⟩
        · simp only [cancelled, Bool.false_eq_true, if_false]
          apply keeps_held_bind stable_returned returned
          intro scene returned
          apply keeps_note_bind stable_returned returned
          intro scene returned
          apply keeps_discard stable_returned returned
          intro scene returned
          exact ⟨rfl, returned⟩
    · rename_i unleased
      cases performed
      have same : (scene.hold scene.held).stage [] = scene := by
        simp [Scene.hold, Scene.stage]
      rw [same]
      exact keeps_pure ⟨holds.2, holds.1.returned_of_not_leased unleased⟩
  · intro scene _ failure refused
    cases refused

/-- What was staged is dropped, and the lease given back unless somebody else has
taken the process or the failure is a cancellation. -/
theorem recover_keeps {failure : Failure} {process : Process}
    (broken : scene.Broken habits id failure) :
    Keeps habits (fun _ => Ended habits id) (fun _ => Ended habits id)
      (recover process failure) scene := by
  rw [recover]
  have stable := (@stable_broken habits id failure).and stable_unstaged
  apply keeps_discard_bind stable_broken broken
  intro scene broken
  have dropped := broken.discard
  by_cases stale : failure.isStale
  · rw [if_pos stale]
    have passed : ¬failure.IsSwallowed := fun swallowed => by simp [swallowed.1] at stale
    apply keeps_note stable_ended ⟨rfl, dropped.returned passed⟩
    intro scene ended
    exact ended
  · rw [if_neg stale]
    by_cases cancelled : failure.isCancellation
    · rw [if_pos cancelled]
      have passed : ¬failure.IsSwallowed := fun swallowed => by simp [swallowed.2] at cancelled
      exact keeps_throw ⟨rfl, dropped.returned passed⟩
    · rw [if_neg cancelled]
      refine keeps_note_bind stable ⟨dropped, rfl⟩ ?_
      intro scene holds
      obtain ⟨broken, unstaged⟩ := holds
      exact releaseAfterFailure_keeps broken unstaged
        ⟨by simpa using stale, by simpa using cancelled⟩

end Attempt

end Workflow
