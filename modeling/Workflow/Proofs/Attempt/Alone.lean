import Workflow.Proofs.Attempt.Drain

/-!
# An attempt that is left alone

If nobody else writes its process, an attempt always finds it as its own last commit has
left it.  A failed save leaves the copy of the worker with a version that nobody has
stored, so nothing more is committed, and the process stays leased.
-/

namespace Workflow

open Scene

/-- The rows right after the last committed save. -/
def lastCommit? : List Saved → Option Rows
  | [] => none
  | .committed rows :: _ => some rows
  | .failed _ :: earlier => lastCommit? earlier

theorem exists_lastCommit? {saves : List Saved} {first : Rows}
    (isFirst : saves.getLast? = some (.committed first)) :
    ∃ last, lastCommit? saves = some last := by
  induction saves with
  | nil => cases isFirst
  | cons saved earlier induction =>
      cases saved with
      | committed rows => exact ⟨rows, rfl⟩
      | failed failure =>
          cases earlier with
          | nil => cases isFirst
          | cons next older => exact induction (by rwa [List.getLast?_cons_cons] at isFirst)

theorem saves_of_lastCommit? {saves : List Saved} {last : Rows}
    (isLast : lastCommit? saves = some last) (succeeded : ∀ saved ∈ saves, saved.isCommitted) :
    ∃ earlier, saves = .committed last :: earlier := by
  cases saves with
  | nil => cases isLast
  | cons saved earlier =>
      cases saved with
      | committed rows =>
          cases isLast
          exact ⟨earlier, rfl⟩
      | failed failure => cases succeeded _ List.mem_cons_self

/-- What others can do who leave a process alone. -/
structure Scene.Undisturbed (id : Uuid) (scene later : Scene) : Prop where
  station : later.toStation = scene.toStation
  keyed : scene.rows.Keyed → later.rows.Keyed
  process : later.rows.process? id = scene.rows.process? id
  steps : later.rows.owned id = scene.rows.owned id

/-- A program ends with a value while nobody else writes a process. -/
inductive Program.Completes {α : Type} (habits : Habits) (id : Uuid) :
    Program α → Scene → α → Scene → Prop where
  | done (value : α) (scene : Scene) : Completes habits id (.done value) scene value scene
  | ask (request : Request) {rest : request.Reply → Program α} {scene later next final : Scene}
      {value : α} (undisturbed : scene.Undisturbed id later) (reply : request.Reply)
      (answers : later.Answers habits request reply next)
      (completes : Completes habits id (rest reply) next value final) :
      Completes habits id (.ask request rest) scene value final

namespace Scene

variable {habits : Habits} {id : Uuid} {scene later next : Scene} {request : Request}
  {reply : request.Reply} {failure : Failure}

theorem Undisturbed.refl (id : Uuid) (scene : Scene) : scene.Undisturbed id scene :=
  ⟨rfl, fun keyed => keyed, rfl, rfl⟩

theorem Undisturbed.meanwhile (undisturbed : scene.Undisturbed scene.held.id later) :
    scene.Meanwhile habits later := by
  refine ⟨undisturbed.station, undisturbed.keyed, fun process found => ?_⟩
  exact ⟨process, undisturbed.process.trans found, .inr ⟨rfl, fun _ => undisturbed.steps⟩⟩

/-- The process is as the last commit has left it.  If the first save was committed
and a later one has failed, then it is still leased. -/
structure Intact (id : Uuid) (scene : Scene) : Prop where
  holds : scene.held.id = id
  stored : ∃ stored, scene.rows.process? id = some stored
  current : ∀ rows, lastCommit? scene.saves = some rows →
    scene.rows.process? id = rows.process? id ∧ scene.rows.owned id = rows.owned id
  stuck : (∃ first, scene.saves.getLast? = some (.committed first)) →
    (∃ saved ∈ scene.saves, saved.isCommitted = false) →
      ∀ rows, lastCommit? scene.saves = some rows →
        ∃ base, rows.process? id = some base ∧ base.lease.isSome

theorem Beginning.intact (begins : scene.Beginning id) : scene.Intact id where
  holds := begins.holds
  stored := by
    obtain ⟨stored, found, _⟩ := begins.anchored
    exact ⟨stored, begins.holds ▸ found⟩
  current := by simp [begins.unsaved, lastCommit?]
  stuck := by simp [begins.unsaved]

theorem Intact.undisturbed (intact : scene.Intact id)
    (undisturbed : scene.Undisturbed id later) : later.Intact id := by
  have saves : later.saves = scene.saves := congrArg Station.saves undisturbed.station
  have held : later.held = scene.held := congrArg Station.held undisturbed.station
  refine ⟨held ▸ intact.holds, ?_, ?_, ?_⟩
  · rw [undisturbed.process]
    exact intact.stored
  · rw [saves, undisturbed.process, undisturbed.steps]
    exact intact.current
  · rw [saves]
    exact intact.stuck

/-- Whenever a save is due, the last commit has left the process leased. -/
theorem Intact.leased (intact : scene.Intact id) (maySave : scene.MaySave habits)
    {rows : Rows} (last : lastCommit? scene.saves = some rows) :
    ∃ base, rows.process? id = some base ∧ base.lease.isSome := by
  have holds := intact.holds
  subst holds
  cases maySave.phase with
  | beginning _ unsaved =>
      rw [unsaved] at last
      cases last
  | going saves _ found leased _ =>
      rw [saves] at last
      cases last
      exact ⟨_, found, leased⟩
  | @ending _ earlier _ saves succeeded _ _ unstored =>
      rw [saves] at last
      cases earlier with
      | nil => cases last
      | cons saved older =>
          cases saved with
          | failed failure => cases succeeded _ List.mem_cons_self
          | committed stored =>
              cases last
              obtain ⟨base, found, leased, _⟩ := unstored rows older rfl
              exact ⟨base, found, leased⟩

theorem Intact.fail (intact : scene.Intact id) (maySave : scene.MaySave habits)
    (sameRows : next.rows = scene.rows) (sameHeld : next.held.id = scene.held.id)
    (failed : next.saves = .failed failure :: scene.saves) : next.Intact id where
  holds := sameHeld.trans intact.holds
  stored := sameRows ▸ intact.stored
  current := by
    rw [failed, sameRows]
    exact intact.current
  stuck := by
    rw [failed]
    exact fun _ _ _ last => intact.leased maySave last

/-- After a failed save nothing more is committed, unless the first save failed. -/
theorem Intact.commit (intact : scene.Intact id) (maySave : scene.MaySave habits)
    {after : Rows} (commits : scene.Commits habits after) : (scene.commit after).Intact id := by
  have holds := intact.holds
  subst holds
  obtain ⟨stored, storedFound⟩ := intact.stored
  obtain ⟨final, followed, finalFound⟩ := Rows.process?_commit commits.1 storedFound
  refine ⟨rfl, ⟨final, finalFound⟩, ?_, ?_⟩
  · intro rows last
    cases last
    exact ⟨rfl, rfl⟩
  · intro begun stuck
    obtain ⟨first, isFirst⟩ := begun
    obtain ⟨saved, member, failed⟩ := stuck
    exfalso
    cases maySave.phase with
    | beginning _ unsaved =>
        have isCommit : saved = .committed after := by simpa [Scene.commit, unsaved] using member
        subst isCommit
        cases failed
    | going saves succeeded _ _ _ =>
        have isCommitted : saved.isCommitted := by
          rcases List.mem_cons.mp member with rfl | before
          · rfl
          · rcases List.mem_cons.mp (saves ▸ before) with rfl | older
            · rfl
            · exact succeeded saved older
        simp [failed] at isCommitted
    | @ending _ earlier version saves succeeded _ staged unstored =>
        cases earlier with
        | nil => simp [Scene.commit, saves] at isFirst
        | cons saved older =>
            cases saved with
            | failed failure => cases succeeded _ List.mem_cons_self
            | committed rows =>
                obtain ⟨base, found, _, older⟩ := unstored rows _ rfl
                obtain ⟨same, _⟩ := intact.current rows (by rw [saves]; rfl)
                obtain rfl : base = stored :=
                  Option.some.inj (found.symm.trans (same.symm.trans storedFound))
                have baseId := Rows.id_of_process? found
                simp only [staged, Batch.processAfter?_cons, Change.processAfter?, baseId,
                  if_true, if_neg (Int.ne_of_lt older)] at followed
                cases followed

theorem Intact.answer (intact : scene.Intact id) (mayAsk : scene.MayAsk habits request)
    (answers : scene.Answers habits request reply next) : next.Intact id := by
  have sameHeld := answers.id_held mayAsk
  rcases answers.cases with
    ⟨_, sameRows, sameSaves | ⟨failure, rfl, failed⟩⟩ | ⟨_, rfl, commits, same⟩
  · refine ⟨sameHeld.trans intact.holds, ?_, ?_, ?_⟩
    · exact sameRows ▸ intact.stored
    · rw [sameSaves, sameRows]
      exact intact.current
    · rw [sameSaves]
      exact intact.stuck
  · exact intact.fail mayAsk sameRows sameHeld failed
  · rw [same]
    exact intact.commit mayAsk commits

end Scene

/-- A program that keeps its contract ends as promised, and with its process as the
last commit has left it. -/
theorem Program.Completes.intact {α : Type} {habits : Habits} {id : Uuid} {program : Program α}
    {scene final : Scene} {value : α} {post : α → Scene → Prop}
    (completes : program.Completes habits id scene value final)
    (keeps : program.Keeps habits post scene) (intact : scene.Intact id) :
    post value final ∧ final.Intact id := by
  induction completes with
  | done value scene => exact ⟨keeps, intact⟩
  | ask request undisturbed reply answers _ induction =>
      have holds := intact.holds
      obtain ⟨mayAsk, answered⟩ := keeps _ (holds ▸ undisturbed).meanwhile
      exact induction (answered reply _ answers)
        ((intact.undisturbed undisturbed).answer mayAsk answers)

end Workflow
