import Workflow.Proofs.Attempt.Frame
import Workflow.Proofs.Crew.Takeover

/-!
# Workers that share a clock

The workers of a crew read one clock, which never goes back, and a save of theirs fails
only if somebody else has been faster.  So whatever time a worker has read is past, and
it never gives back a lease after a failed save.
-/

namespace Workflow

/-- A reply of the shared clock shows its time, and a save fails only like a lost race. -/
def Request.IsTimely (clock : Timestamp) : (request : Request) → request.Reply → Prop
  | now, time => time = clock
  | save, .error failure => failure.isStale
  | _, _ => True

namespace Crew

variable {ω : Type} [DecidableEq ω]

/-- What a worker can do at a time, and the commit that this is, if it is one. -/
inductive TimedMove (habits : Habits) (clock : Timestamp) (crew : Crew ω) :
    Option (Commit ω) → Crew ω → Prop where
  | find (worker : ω) {id : Uuid} {process : Process}
      (stored : crew.rows.process? id = some process) :
      TimedMove habits clock crew none
        (crew.seat worker
          { crew.desks worker with found := process :: (crew.desks worker).found })
  /-- A worker begins to attempt a process that it has found before. -/
  | begin (worker : ω) {process : Process} {outcome : Except Failure Unit}
      (registry : Registry) (term : LeaseTerm)
      (found : process ∈ (crew.desks worker).found)
      (idle : (crew.desks worker).program = .done outcome) :
      TimedMove habits clock crew none
        (crew.seat worker
          { crew.desks worker with
            station := ⟨process, (crew.desks worker).station.staged, none, []⟩
            program := (registry.attempt term).run })
  /-- A request of a worker is answered in time. -/
  | answer (worker : ω) (request : Request) {rest : request.Reply → Program _} {next : Scene}
      (asks : (crew.desks worker).program = .ask request rest)
      (reply : request.Reply)
      (answers : (crew.scene worker).Answers habits request reply next)
      (timely : request.IsTimely clock reply) :
      TimedMove habits clock crew
        (if request.commits reply then some ⟨worker, crew.scene worker, next.rows⟩ else none)
        ((crew.store next.rows).seat worker
          { crew.desks worker with station := next.toStation, program := rest reply })

/-- What can come about from any store under a clock that never goes back, with the time
and the commits made so far, latest first. -/
inductive TimedRuns (habits : Habits) : Crew ω → Timestamp → List (Commit ω) → Prop where
  | start {rows : Rows} (keyed : rows.Keyed) (held : ω → Process) (clock : Timestamp) :
      TimedRuns habits ⟨rows, fun worker => Desk.idle (held worker)⟩ clock []
  | tick {crew : Crew ω} {clock : Timestamp} {history : List (Commit ω)}
      (runs : TimedRuns habits crew clock history) (later : Timestamp)
      (onward : clock.instant ≤ later.instant) : TimedRuns habits crew later history
  | move {crew next : Crew ω} {clock : Timestamp} {history : List (Commit ω)}
      {committed : Option (Commit ω)} (runs : TimedRuns habits crew clock history)
      (moved : TimedMove habits clock crew committed next) :
      TimedRuns habits next clock (committed.toList ++ history)

variable {habits : Habits} {clock : Timestamp} {crew next : Crew ω}
  {history : List (Commit ω)} {committed : Option (Commit ω)}

theorem TimedMove.move (moved : TimedMove habits clock crew committed next) :
    Move habits crew committed next := by
  cases moved with
  | find worker stored => exact .find worker stored
  | begin worker registry term found idle => exact .begin worker registry term found idle
  | answer worker request asks reply answers _ => exact .answer worker request asks reply answers

theorem TimedRuns.runs (runs : TimedRuns habits crew clock history) :
    Runs habits crew history := by
  induction runs with
  | start keyed held clock => exact .start keyed held
  | tick _ _ _ induction => exact induction
  | move _ moved induction => exact induction.move moved.move

end Crew

namespace Scene

variable {habits : Habits} {clock later : Timestamp} {scene next : Scene} {request : Request}
  {reply : request.Reply}

/-- A worker changes the row of no process but its own, has read no time to come, and has
failed to save only in lost races. -/
structure IsOrderly (clock : Timestamp) (scene : Scene) : Prop where
  tidy : scene.IsTidy
  reading : ∀ now, scene.reading = some now → now.instant ≤ clock.instant
  races : ∀ failure, .failed failure ∈ scene.saves → failure.isStale

theorem IsOrderly.tick (orderly : scene.IsOrderly clock)
    (onward : clock.instant ≤ later.instant) : scene.IsOrderly later :=
  ⟨orderly.tidy, fun now read => Int.le_trans (orderly.reading now read) onward, orderly.races⟩

theorem IsOrderly.of_station (orderly : scene.IsOrderly clock)
    (same : next.toStation = scene.toStation) : next.IsOrderly clock := by
  have sameReading : next.reading = scene.reading := congrArg Station.reading same
  have sameSaves : next.saves = scene.saves := congrArg Station.saves same
  exact ⟨orderly.tidy.of_station same, sameReading ▸ orderly.reading, sameSaves ▸ orderly.races⟩

theorem IsOrderly.answer (orderly : scene.IsOrderly clock) (spares : habits.SpareProcesses)
    (mayAsk : scene.MayAsk habits request)
    (answers : scene.Answers habits request reply next)
    (timely : request.IsTimely clock reply) : next.IsOrderly clock := by
  have tidy := orderly.tidy.answer spares mayAsk answers
  obtain ⟨_, reading, races⟩ := orderly
  cases request with
  | hold _ => cases mayAsk
  | note _ | isCancelled | discard | discover _ | eligiblePage _ _ _ | consult _ =>
      obtain rfl := answers
      exact ⟨tidy, reading, races⟩
  | now =>
      obtain rfl := answers
      obtain rfl : reply = clock := timely
      refine ⟨tidy, ?_, races⟩
      intro now isReading
      cases isReading
      exact Int.le_refl _
  | held =>
      obtain ⟨_, rfl⟩ := answers
      exact ⟨tidy, reading, races⟩
  | lease operation =>
      simp only [Answers] at answers
      split at answers <;> obtain ⟨_, rfl⟩ := answers <;> exact ⟨tidy, reading, races⟩
  | pendingSteps _ | stepTypes _ =>
      obtain ⟨_, _, rfl⟩ := answers
      exact ⟨tidy, reading, races⟩
  | stageUpdates _ | stageStep _ _ =>
      obtain ⟨_, rfl⟩ := answers
      exact ⟨tidy, reading, races⟩
  | prepare _ _ _ | needsLease _ _ | execute _ _ _ _ =>
      obtain ⟨_, _, _, rfl⟩ := answers
      exact ⟨tidy, reading, races⟩
  | save =>
      cases reply with
      | error failure =>
          obtain ⟨_, _, rfl⟩ := answers
          refine ⟨tidy, reading, ?_⟩
          intro other member
          rcases List.mem_cons.mp member with isLast | before
          · cases isLast
            exact timely
          · exact races other before
      | ok _ =>
          obtain ⟨_, _, rfl⟩ := answers
          refine ⟨tidy, reading, ?_⟩
          intro other member
          rcases List.mem_cons.mp member with isLast | before
          · cases isLast
          · exact races other before

/-- Where all saves fail in lost races only, no lease is given back after a failed one. -/
theorem IsOrderly.not_ending (orderly : scene.IsOrderly clock) {failure : Failure}
    {earlier : List Saved} (saves : scene.saves = .failed failure :: earlier) :
    ¬failure.IsSwallowed := by
  intro swallowed
  have stale := orderly.races failure (saves ▸ List.mem_cons_self)
  simp [swallowed.1] at stale

end Scene

namespace Crew

variable {ω : Type} [DecidableEq ω] {habits : Habits} {clock : Timestamp} {crew next : Crew ω}
  {history : List (Commit ω)} {committed : Option (Commit ω)}

theorem Sound.isOrderly (sound : crew.Sound habits) (spares : habits.SpareProcesses)
    (orderly : ∀ worker, (crew.scene worker).IsOrderly clock)
    (moved : TimedMove habits clock crew committed next) (worker : ω) :
    (next.scene worker).IsOrderly clock := by
  cases moved with
  | find actor stored =>
      apply (orderly worker).of_station
      by_cases same : worker = actor
      · subst same
        simp [Crew.scene, Crew.seat]
      · simp [Crew.scene, Crew.seat, same]
  | begin actor registry term found idle =>
      by_cases same : worker = actor
      · subst same
        have unstaged := (sound.begins idle found).unstaged
        simp only [Crew.scene, Crew.seat, Function.update_self]
        exact ⟨Scene.isTidy_of_unstaged unstaged, by simp, by simp⟩
      · apply (orderly worker).of_station
        simp [Crew.scene, Crew.seat, same]
  | answer actor request asks reply answers timely =>
      by_cases same : worker = actor
      · subst same
        obtain ⟨mayAsk, _⟩ := sound.ask asks
        apply ((orderly worker).answer spares mayAsk answers timely).of_station
        simp [Crew.scene, Crew.seat]
      · apply (orderly worker).of_station
        simp [Crew.scene, Crew.seat, Crew.store, same]

theorem TimedRuns.isOrderly (spares : habits.SpareProcesses)
    (runs : TimedRuns habits crew clock history) (worker : ω) :
    (crew.scene worker).IsOrderly clock := by
  induction runs generalizing worker with
  | start keyed held clock =>
      exact ⟨Scene.isTidy_of_unstaged rfl, by simp [Crew.scene, Desk.idle],
        by simp [Crew.scene, Desk.idle]⟩
  | tick _ later onward induction => exact (induction worker).tick onward
  | move runs moved induction => exact runs.runs.sound.1.isOrderly spares induction moved worker

end Crew

end Workflow
