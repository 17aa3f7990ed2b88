import Mathlib.Logic.Function.Basic
import Workflow.Proofs.Attempt.Drain

/-!
# Workers that share a store

Any number of workers find processes and attempt them, one request at a time and in
every possible order.  What a worker has found can be outdated when it begins, and all
answers but those about the store are arbitrary.

A crew is *sound* if every worker keeps the contract of its attempt.  Soundness is
preserved by every move, because a commit that keeps its own contract lets all
processes advance.
-/

namespace Workflow

/-- What belongs to a worker, the processes that it has found, and what is left to do
of its attempt. -/
structure Desk where
  station : Station
  found : List Process
  program : Program (Except Failure Unit)

/-- A desk where nothing has been done yet. -/
def Desk.idle (held : Process) : Desk where
  station := ⟨held, [], none, []⟩
  found := []
  program := .done (.ok ())

/-- Workers and the store that they share. -/
structure Crew (ω : Type) where
  rows : Rows
  desks : ω → Desk

/-- A committed save: who asked for it, in which scene, and the rows afterwards. -/
structure Commit (ω : Type) where
  worker : ω
  scene : Scene
  after : Rows

namespace Crew

variable {ω : Type} [DecidableEq ω]

/-- The scene in which a worker acts. -/
def scene (crew : Crew ω) (worker : ω) : Scene :=
  { (crew.desks worker).station with rows := crew.rows }

/-- The crew after something has changed at a desk. -/
def seat (crew : Crew ω) (worker : ω) (desk : Desk) : Crew ω :=
  { crew with desks := Function.update crew.desks worker desk }

/-- The crew after the store has changed. -/
def store (crew : Crew ω) (rows : Rows) : Crew ω :=
  { crew with rows }

/-- What a worker can do, and the commit that this is, if it is one. -/
inductive Move (habits : Habits) (crew : Crew ω) : Option (Commit ω) → Crew ω → Prop where
  /-- A worker finds a stored process. -/
  | find (worker : ω) {id : Uuid} {process : Process}
      (stored : crew.rows.process? id = some process) :
      Move habits crew none
        (crew.seat worker
          { crew.desks worker with found := process :: (crew.desks worker).found })
  /-- A worker begins to attempt a process that it has found before. -/
  | begin (worker : ω) {process : Process} {outcome : Except Failure Unit}
      (registry : Registry) (term : LeaseTerm)
      (found : process ∈ (crew.desks worker).found)
      (idle : (crew.desks worker).program = .done outcome) :
      Move habits crew none
        (crew.seat worker
          { crew.desks worker with
            station := ⟨process, (crew.desks worker).station.staged, none, []⟩
            program := (registry.attempt term).run })
  /-- A request of a worker is answered. -/
  | answer (worker : ω) (request : Request) {rest : request.Reply → Program _} {next : Scene}
      (asks : (crew.desks worker).program = .ask request rest)
      (reply : request.Reply)
      (answers : (crew.scene worker).Answers habits request reply next) :
      Move habits crew
        (if request.commits reply then some ⟨worker, crew.scene worker, next.rows⟩ else none)
        ((crew.store next.rows).seat worker
          { crew.desks worker with station := next.toStation, program := rest reply })

end Crew

/-! ### What a commit changes -/

namespace Scene

variable {habits : Habits} {scene : Scene} {after : Rows}

theorem MaySave.process?_inserted (maySave : scene.MaySave habits)
    (commits : scene.Commits habits after) {process : Process}
    (inserted : process ∈ Batch.insertedProcesses scene.staged) :
    scene.rows.process? process.id = none :=
  findRow?_eq_none_iff.mpr
    ((commits.2 (maySave.inserts ⟨process, inserted⟩)).processes process inserted)

theorem MaySave.advances (maySave : scene.MaySave habits) (keyed : scene.rows.Keyed)
    (commits : scene.Commits habits after) (id : Uuid) :
    scene.rows.Advances habits.guarded id after := by
  refine Rows.advances_commit keyed maySave.raises
    (fun _ inserted => maySave.process?_inserted commits inserted) ?_ commits.1 id
  intro guarded
  exact ⟨commits.fresh guarded, scene.held.id, maySave.respects guarded after commits,
    .inl maySave.updates⟩

end Scene

namespace Crew

open Scene

variable {ω : Type} {habits : Habits} {crew next : Crew ω} {worker : ω} {desk : Desk}
  {rows : Rows} {committed : Option (Commit ω)}

/-- Every worker keeps the contract of its attempt, and what it has found is at most
as new as what is stored. -/
structure Sound (habits : Habits) (crew : Crew ω) : Prop where
  keyed : crew.rows.Keyed
  found : ∀ worker, ∀ process ∈ (crew.desks worker).found, crew.rows.Anchors process
  keeps : ∀ worker, (crew.desks worker).program.Keeps habits
    (fun _ => Ended habits (crew.scene worker).held.id) (crew.scene worker)

theorem sound_idle (keyed : rows.Keyed) (held : ω → Process) :
    Sound habits ⟨rows, fun worker => Desk.idle (held worker)⟩ where
  keyed := keyed
  found := by simp [Desk.idle]
  keeps := fun _ => ⟨rfl, returned_of_unsaved rfl⟩

/-- Others can write as long as all processes advance. -/
theorem Sound.store (sound : crew.Sound habits)
    (advanced : ∀ id, crew.rows.Advances habits.guarded id rows) :
    (crew.store rows).Sound habits where
  keyed := (advanced (.ofNat 0)).keyed sound.keyed
  found := fun worker process member =>
    (sound.found worker process member).advance (advanced process.id)
  keeps := fun worker =>
    (sound.keeps worker).meanwhile (fun _ => stable_ended) ⟨rfl, advanced _⟩

theorem Sound.ask (sound : crew.Sound habits) {request : Request}
    {rest : request.Reply → Program (Except Failure Unit)}
    (asks : (crew.desks worker).program = .ask request rest) :
    (crew.scene worker).MayAsk habits request ∧ ∀ reply next,
      (crew.scene worker).Answers habits request reply next →
        (rest reply).Keeps habits (fun _ => Ended habits next.held.id) next := by
  have keeps := sound.keeps worker
  rw [asks] at keeps
  obtain ⟨mayAsk, answered⟩ := keeps _ (.refl _)
  refine ⟨mayAsk, fun reply next answers => ?_⟩
  rw [answers.id_held mayAsk]
  exact answered reply next answers

theorem Sound.begins (sound : crew.Sound habits) {outcome : Except Failure Unit}
    {process : Process} (idle : (crew.desks worker).program = .done outcome)
    (found : process ∈ (crew.desks worker).found) :
    Beginning process.id ⟨⟨process, (crew.desks worker).station.staged, none, []⟩, crew.rows⟩ := by
  have keeps := sound.keeps worker
  rw [idle] at keeps
  exact ⟨sound.keyed, rfl, sound.found worker process found, keeps.unstaged, rfl⟩

variable [DecidableEq ω]

theorem Sound.seat (sound : crew.Sound habits)
    (found : ∀ process ∈ desk.found, crew.rows.Anchors process)
    (keeps : desk.program.Keeps habits (fun _ => Ended habits desk.station.held.id)
      { desk.station with rows := crew.rows }) :
    (crew.seat worker desk).Sound habits := by
  refine ⟨sound.keyed, ?_, ?_⟩
  · intro other process member
    by_cases same : other = worker
    · subst same
      simp only [Crew.seat, Function.update_self] at member
      exact found process member
    · simp only [Crew.seat, Function.update_of_ne same] at member
      exact sound.found other process member
  · intro other
    by_cases same : other = worker
    · subst same
      simpa only [Crew.seat, Crew.scene, Function.update_self] using keeps
    · simpa only [Crew.seat, Crew.scene, Function.update_of_ne same] using sound.keeps other

/-- What a commit of a sound crew may do. -/
theorem Sound.maySave (sound : crew.Sound habits) {commit : Commit ω}
    (moved : Move habits crew (some commit) next) :
    commit.scene = crew.scene commit.worker ∧ commit.scene.MaySave habits ∧
      commit.scene.Commits habits commit.after ∧
      next.rows = commit.after ∧
      next.desks commit.worker =
        { crew.desks commit.worker with
          station := (commit.scene.commit commit.after).toStation
          program := (next.desks commit.worker).program } ∧
      ∀ other, other ≠ commit.worker → next.desks other = crew.desks other := by
  generalize isCommit : some commit = label at moved
  cases moved with
  | find | begin => cases isCommit
  | answer worker request asks reply answers =>
      obtain ⟨mayAsk, _⟩ := sound.ask asks
      rcases answers.cases with ⟨uncommitted, _⟩ | ⟨committed, rfl, commits, same⟩
      · simp [uncommitted] at isCommit
      · rw [if_pos committed] at isCommit
        cases isCommit
        refine ⟨rfl, mayAsk, commits, rfl, ?_, ?_⟩
        · simp only [Crew.seat, Function.update_self]
          rw [← same]
        · intro other different
          simp [Crew.seat, Crew.store, different]

theorem rows_of_move_none (moved : Move habits crew none next) : next.rows = crew.rows := by
  generalize isNone : none = label at moved
  cases moved with
  | find | begin => rfl
  | answer worker request asks reply answers =>
      rcases answers.cases with ⟨_, same, _⟩ | ⟨committed, _⟩
      · exact same
      · simp [committed] at isNone

/-- A move without a commit begins an attempt, records a failed save, or leaves process
and saves as they were. -/
theorem Sound.saves_of_move_none (sound : crew.Sound habits)
    (moved : Move habits crew none next) (worker : ω) :
    (next.desks worker).station.saves = [] ∨
      (∃ failure earlier, (next.desks worker).station.saves = .failed failure :: earlier) ∨
      (next.desks worker).station.saves = (crew.desks worker).station.saves ∧
        (next.desks worker).station.held.id = (crew.desks worker).station.held.id := by
  generalize isNone : none = label at moved
  cases moved with
  | find actor stored =>
      by_cases same : worker = actor
      · subst same
        simp [Crew.seat]
      · simp [Crew.seat, same]
  | begin actor registry term found idle =>
      by_cases same : worker = actor
      · subst same
        simp [Crew.seat]
      · simp [Crew.seat, same]
  | answer actor request asks reply answers =>
      obtain ⟨mayAsk, _⟩ := sound.ask asks
      have sameId := answers.id_held mayAsk
      by_cases same : worker = actor
      · subst same
        simp only [Crew.seat, Function.update_self]
        rcases answers.cases with ⟨_, _, sameSaves | ⟨failure, _, failed⟩⟩ | ⟨committed, _⟩
        · exact .inr (.inr ⟨sameSaves, sameId⟩)
        · exact .inr (.inl ⟨failure, _, failed⟩)
        · simp [committed] at isNone
      · simp [Crew.seat, Crew.store, same]

theorem Sound.advances (sound : crew.Sound habits) (moved : Move habits crew committed next)
    (id : Uuid) : crew.rows.Advances habits.guarded id next.rows := by
  cases committed with
  | some commit =>
      obtain ⟨isScene, maySave, commits, sameRows, _⟩ := sound.maySave moved
      rw [sameRows]
      rw [isScene] at maySave commits
      exact maySave.advances sound.keyed commits id
  | none =>
      rw [rows_of_move_none moved]
      exact .refl _ _ _

/-- Every move preserves soundness. -/
theorem Sound.move (sound : crew.Sound habits) (moved : Move habits crew committed next) :
    next.Sound habits := by
  have advances := sound.advances moved
  cases moved with
  | find worker stored =>
      refine sound.seat ?_ (sound.keeps worker)
      intro process member
      rcases List.mem_cons.mp member with rfl | before
      · exact Rows.anchors_of_process? stored
      · exact sound.found worker process before
  | begin worker registry term found idle =>
      refine sound.seat (sound.found worker) ?_
      apply Program.Keeps.imp (registry.attempt_keeps term (sound.begins idle found))
      intro outcome scene ended
      cases outcome <;> exact ended
  | answer worker request asks reply answers =>
      obtain ⟨_, answered⟩ := sound.ask asks
      refine (sound.store advances).seat ?_ (answered _ _ answers)
      exact (sound.store advances).found worker

end Crew

end Workflow
