import Mathlib.Data.List.Induction
import Workflow.Proofs.Attempt.Alone
import Workflow.Proofs.Attempt.Requests
import Workflow.Proofs.Drain.Outcome
import Workflow.Proofs.Rows.Owned

/-!
# Runs with a history

A run that nobody disturbs goes from one request to the next, and it can be cut
between any two.  Its history tells what was asked and answered, and with it what the
executors have told.  Executors may stage changes of their own as long as these
concern no step of the process.
-/

namespace Workflow

namespace Request

/-- The type of the step that is about to be run. -/
def due? : Request → Option StepType
  | needsLease _ type | execute _ _ type _ => some type
  | _ => none

/-- What an executor tells by its reply. -/
def outcome? : (request : Request) → request.Reply → Option Outcome
  | prepare _ _ _, .ok preparation => some (.prepared preparation)
  | execute _ _ type _, .ok result => some (.ran type result)
  | _, _ => none

variable {request : Request} {reply : request.Reply}

theorem outcome?_eq_none (other : request.isForExecutor = false) :
    request.outcome? reply = none := by
  cases request <;> first | rfl | cases other

theorem due?_eq_none (other : request.isForExecutor = false) : request.due? = none := by
  cases request <;> first | rfl | cases other

end Request

/-- A request and its answer, with the scenes right before and right after it. -/
structure Exchange where
  scene : Scene
  request : Request
  reply : request.Reply
  next : Scene

namespace Exchange

/-- What the executor stages, if one is asked, concerns no step of a process. -/
def Spares (process : Uuid) (exchange : Exchange) : Prop :=
  exchange.request.isForExecutor → ∃ batch,
    exchange.next.staged = exchange.scene.staged ++ batch ∧
      Batch.Spares process (exchange.scene.rows.owned process) batch

end Exchange

/-- What the executors have told in the course of a run. -/
def Outcome.told (log : List Exchange) : List Outcome :=
  log.filterMap fun exchange => exchange.request.outcome? exchange.reply

@[simp] theorem Outcome.told_append_singleton {log : List Exchange} {exchange : Exchange} :
    told (log ++ [exchange]) =
      told log ++ (exchange.request.outcome? exchange.reply).toList := by
  rw [told, List.filterMap_append, told]
  cases found : exchange.request.outcome? exchange.reply <;> simp [found]

namespace Exchange

/-- What an executor tells in an exchange. -/
def outcome? (exchange : Exchange) : Option Outcome :=
  exchange.request.outcome? exchange.reply

/-- The steps of a process after what the executors have told, each outcome applied to the steps
that were there when it was told. -/
inductive Applied (process : Uuid) (origin : List Step) : List Exchange → List Step → Prop where
  | nil : Applied process origin [] origin
  | silent {log : List Exchange} {exchange : Exchange} {steps : List Step}
      (applied : Applied process origin log steps) (silent : exchange.outcome? = none) :
      Applied process origin (log ++ [exchange]) steps
  | tells {log : List Exchange} {exchange : Exchange} {outcome : Outcome} {after : List Step}
      (applied : Applied process origin log (exchange.scene.rows.owned process))
      (told : exchange.outcome? = some outcome)
      (applies : outcome.Applies process (exchange.scene.rows.owned process) after) :
      Applied process origin (log ++ [exchange]) after

namespace Applied

variable {process : Uuid} {origin steps : List Step} {log since : List Exchange}
  {exchange : Exchange} {outcome : Outcome}

theorem outcomes (applied : Applied process origin log steps) :
    Outcome.Applied process origin (Outcome.told log) steps := by
  induction applied with
  | nil => exact .nil
  | @silent log exchange _ _ silent induction =>
      have none : exchange.request.outcome? exchange.reply = none := silent
      rwa [Outcome.told_append_singleton, none, Option.toList_none, List.append_nil]
  | @tells log exchange outcome _ _ told applies induction =>
      have some : exchange.request.outcome? exchange.reply = some outcome := told
      rw [Outcome.told_append_singleton, some]
      exact .snoc induction applies

theorem append (applied : Applied process origin log steps)
    (silent : ∀ exchange ∈ since, exchange.outcome? = none) :
    Applied process origin (log ++ since) steps := by
  induction since using List.reverseRecOn with
  | nil => rwa [List.append_nil]
  | append_singleton since last induction =>
      obtain ⟨before, lastSilent⟩ := List.forall_mem_append.mp silent
      rw [← List.append_assoc]
      exact .silent (induction before) (lastSilent last List.mem_cons_self)

theorem of_snoc (applied : Applied process origin (log ++ [exchange]) steps) :
    match exchange.outcome? with
    | none => Applied process origin log steps
    | some outcome => outcome.Applies process (exchange.scene.rows.owned process) steps := by
  generalize whole : log ++ [exchange] = all at applied
  cases applied with
  | nil => simp at whole
  | silent applied silent =>
      obtain ⟨rfl, last⟩ := List.append_inj' whole rfl
      obtain rfl := List.singleton_inj.mp last
      rwa [silent]
  | tells _ told applies =>
      obtain ⟨rfl, last⟩ := List.append_inj' whole rfl
      obtain rfl := List.singleton_inj.mp last
      rwa [told]

/-- The last outcome told has been applied to the steps that were there. -/
theorem applies (applied : Applied process origin (log ++ exchange :: since) steps)
    (told : exchange.outcome? = some outcome)
    (silent : ∀ exchange ∈ since, exchange.outcome? = none) :
    outcome.Applies process (exchange.scene.rows.owned process) steps := by
  induction since using List.reverseRecOn with
  | nil =>
      have last := applied.of_snoc
      rwa [told] at last
  | append_singleton since last induction =>
      obtain ⟨before, lastSilent⟩ := List.forall_mem_append.mp silent
      have regrouped : log ++ exchange :: (since ++ [last]) =
          (log ++ exchange :: since) ++ [last] := by simp
      rw [regrouped] at applied
      have earlier := applied.of_snoc
      rw [lastSilent last List.mem_cons_self] at earlier
      exact induction earlier before

end Applied

end Exchange

/-- What can come about while nobody else writes a process: the history so far, what is
left of the program, and the scene. -/
inductive Program.Reaches {α : Type} (habits : Habits) (id : Uuid) (program : Program α)
    (start : Scene) : List Exchange → Program α → Scene → Prop where
  | start : Reaches habits id program start [] program start
  | step {log : List Exchange} {request : Request} {rest : request.Reply → Program α}
      {scene later next : Scene} {reply : request.Reply}
      (reached : Reaches habits id program start log (.ask request rest) scene)
      (undisturbed : scene.Undisturbed id later)
      (answers : later.Answers habits request reply next)
      (spares : Exchange.Spares id ⟨later, request, reply, next⟩) :
      Reaches habits id program start (log ++ [⟨later, request, reply, next⟩]) (rest reply) next

/-- A scene together with the history that has led to it. -/
structure Passage where
  scene : Scene
  log : List Exchange

namespace Passage

variable {habits : Habits} {id : Uuid} {origin : List Step} {passage later next : Passage}
  {request : Request} {reply : request.Reply}

/-- The steps of a process are those that some of the outcomes told have made of the
original ones, each applied as a whole. -/
structure Accounted (id : Uuid) (origin : List Step) (passage : Passage) : Prop where
  keyed : passage.scene.rows.Keyed
  applied : ∃ applied, applied <+: Outcome.told passage.log ∧
    Outcome.Applied id origin applied (passage.scene.rows.owned id)

/-- What is certain whenever a program asks: the steps are accounted for.  When a step is
about to be run, all outcomes have been applied, and the step is pending. -/
structure MayAsk (id : Uuid) (origin : List Step) (passage : Passage) (request : Request) :
    Prop where
  accounted : passage.Accounted id origin
  due : ∀ type, request.due? = some type →
    ∃ step ∈ passage.scene.rows.owned id, step.isDue type
  applied : request.due?.isSome →
    Outcome.Applied id origin (Outcome.told passage.log) (passage.scene.rows.owned id)

/-- What others can do who leave a process alone. -/
structure Undisturbed (id : Uuid) (passage later : Passage) : Prop where
  log : later.log = passage.log
  scene : passage.scene.Undisturbed id later.scene

/-- How a request is answered and recorded. -/
structure Answers (habits : Habits) (id : Uuid) (passage : Passage) (request : Request)
    (reply : request.Reply) (next : Passage) : Prop where
  scene : passage.scene.Answers habits request reply next.scene
  spares : Exchange.Spares id ⟨passage.scene, request, reply, next.scene⟩
  log : next.log = passage.log ++ [⟨passage.scene, request, reply, next.scene⟩]

def rules (habits : Habits) (id : Uuid) (origin : List Step) : Rules Passage where
  others := Undisturbed id
  mayAsk := MayAsk id origin
  answers := Answers habits id

theorem Answers.told (answers : passage.Answers habits id request reply next) :
    Outcome.told next.log = Outcome.told passage.log ++ (request.outcome? reply).toList := by
  rw [answers.log, Outcome.told_append_singleton]

end Passage

namespace Program.Reaches

variable {α : Type} {habits : Habits} {id : Uuid} {program rest : Program α}
  {start scene : Scene} {log : List Exchange} {origin : List Step}

/-- A request that is not for an executor is answered at once. -/
theorem answer {left : Program α} (reached : program.Reaches habits id start log left scene)
    (request : Request) {rest : request.Reply → Program α} (asks : left = .ask request rest)
    (reply : request.Reply) {next : Scene} (answers : scene.Answers habits request reply next)
    (other : request.isForExecutor = false) :
    program.Reaches habits id start (log ++ [⟨scene, request, reply, next⟩]) (rest reply) next := by
  subst asks
  exact .step reached (.refl id scene) answers fun isFor => by simp [other] at isFor

/-- A request for an executor is answered at once, and nothing is staged. -/
theorem executor {left : Program α} (reached : program.Reaches habits id start log left scene)
    (request : Request) {rest : request.Reply → Program α} (asks : left = .ask request rest)
    (reply : request.Reply) (mayFail : ∀ failure, habits.mayFail failure)
    (isForExecutor : request.isForExecutor) :
    program.Reaches habits id start (log ++ [⟨scene, request, reply, scene⟩]) (rest reply)
      scene := by
  subst asks
  have answers : scene.Answers habits request reply scene := by
    cases request with
    | prepare _ _ _ | needsLease _ _ | execute _ _ _ _ =>
        exact ⟨fun failure _ => mayFail failure, [], by simp, by simp [Scene.stage]⟩
    | _ => cases isForExecutor
  exact .step reached (.refl id scene) answers fun _ =>
    ⟨[], (List.append_nil _).symm, Batch.spares_nil⟩

theorem exists_of_snoc {left : Program α} {exchange : Exchange}
    (reaches : program.Reaches habits id start (log ++ [exchange]) left scene) :
    ∃ rest before, program.Reaches habits id start log (.ask exchange.request rest) before ∧
      before.Undisturbed id exchange.scene ∧
      exchange.scene.Answers habits exchange.request exchange.reply exchange.next ∧
      left = rest exchange.reply ∧ scene = exchange.next := by
  generalize whole : log ++ [exchange] = history at reaches
  cases reaches with
  | start => simp at whole
  | step reached undisturbed answers _ =>
      obtain ⟨rfl, last⟩ := List.append_inj' whole rfl
      obtain rfl := List.singleton_inj.mp last
      exact ⟨_, _, reached, undisturbed, answers, rfl, rfl⟩

theorem cons {request : Request} {next : request.Reply → Program α} {left : Program α}
    {later after : Scene} {reply : request.Reply} (undisturbed : start.Undisturbed id later)
    (answers : later.Answers habits request reply after)
    (spares : Exchange.Spares id ⟨later, request, reply, after⟩)
    (reaches : (next reply).Reaches habits id after log left scene) :
    (Program.ask request next).Reaches habits id start (⟨later, request, reply, after⟩ :: log)
      left scene := by
  induction reaches with
  | start => exact .step .start undisturbed answers spares
  | step _ disturbed answered spared induction =>
      exact .step induction disturbed answered spared

/-- A run that is carried on to its end is a complete one. -/
theorem completes {value : α} {final : Scene}
    (reaches : program.Reaches habits id start log rest scene)
    (ends : rest.Completes habits id scene value final) :
    program.Completes habits id start value final := by
  induction reaches with
  | start => exact ends
  | step _ undisturbed answers _ induction =>
      exact induction (.ask _ undisturbed _ answers ends)

/-- Every exchange of a run was asked for where the run could have been cut. -/
theorem exists_of_split {exchange : Exchange} {after : List Exchange}
    (reaches : program.Reaches habits id start (log ++ exchange :: after) rest scene) :
    ∃ left before, program.Reaches habits id start log (.ask exchange.request left) before ∧
      before.Undisturbed id exchange.scene ∧
      exchange.scene.Answers habits exchange.request exchange.reply exchange.next := by
  induction after using List.reverseRecOn generalizing rest scene with
  | nil =>
      obtain ⟨left, before, reached, undisturbed, answers, _⟩ := reaches.exists_of_snoc
      exact ⟨left, before, reached, undisturbed, answers⟩
  | append_singleton after last induction =>
      rw [← List.cons_append, ← List.append_assoc] at reaches
      obtain ⟨_, _, reached, _⟩ := reaches.exists_of_snoc
      exact induction reached

theorem exists_of_mem {exchange : Exchange}
    (reaches : program.Reaches habits id start log rest scene) (member : exchange ∈ log) :
    ∃ earlier left before, program.Reaches habits id start earlier (.ask exchange.request left)
        before ∧ before.Undisturbed id exchange.scene ∧
      exchange.scene.Answers habits exchange.request exchange.reply exchange.next := by
  obtain ⟨earlier, after, rfl⟩ := List.append_of_mem member
  exact ⟨earlier, reaches.exists_of_split⟩

/-- Wherever a run is cut, the rest of the program still obeys all rules that allow what
has happened, as seen through a view of the run. -/
theorem obeys_view {σ : Type} {rules : Rules σ} {post : α → σ → Prop}
    (view : List Exchange → Scene → σ)
    (reaches : program.Reaches habits id start log rest scene)
    (obeys : program.Obeys rules post (view [] start))
    (others : ∀ log scene later, scene.Undisturbed id later →
      rules.others (view log scene) (view log later))
    (answers : ∀ earlier, ∀ exchange ∈ log,
      exchange.scene.Answers habits exchange.request exchange.reply exchange.next →
        exchange.Spares id → rules.answers (view earlier exchange.scene) exchange.request
          exchange.reply (view (earlier ++ [exchange]) exchange.next)) :
    rest.Obeys rules post (view log scene) := by
  induction reaches with
  | start => exact obeys
  | @step log request rest scene later next reply _ undisturbed answered spares induction =>
      have earlier := induction fun earlier exchange member =>
        answers earlier exchange (List.mem_append_left _ member)
      have last := answers log _ (List.mem_append_right _ List.mem_cons_self) answered spares
      exact (earlier _ (others log scene later undisturbed)).2 reply _ last

/-- The same as seen from the history, whatever the rules say about requests. -/
theorem obeys_asking {post : α → Passage → Prop} {mayAsk : Passage → Request → Prop}
    (reaches : program.Reaches habits id start log rest scene)
    (obeys : program.Obeys ⟨Passage.Undisturbed id, mayAsk, Passage.Answers habits id⟩ post
      ⟨start, []⟩) :
    rest.Obeys ⟨Passage.Undisturbed id, mayAsk, Passage.Answers habits id⟩ post ⟨scene, log⟩ := by
  let view : List Exchange → Scene → Passage := fun log scene => ⟨scene, log⟩
  refine reaches.obeys_view view obeys ?_ ?_
  · intro log scene later undisturbed
    exact ⟨rfl, undisturbed⟩
  · intro earlier exchange _ answers spares
    exact ⟨answers, spares, rfl⟩

theorem obeys {post : α → Passage → Prop}
    (reaches : program.Reaches habits id start log rest scene)
    (obeys : program.Obeys (Passage.rules habits id origin) post ⟨start, []⟩) :
    rest.Obeys (Passage.rules habits id origin) post ⟨scene, log⟩ :=
  reaches.obeys_asking obeys

/-- Wherever a run is cut, the rest of the program still keeps its contract. -/
theorem keeps {post : α → Scene → Prop}
    (reaches : program.Reaches habits id start log rest scene) (holds : start.held.id = id)
    (keeps : program.Keeps habits post start) :
    scene.held.id = id ∧ rest.Keeps habits post scene := by
  induction reaches with
  | start => exact ⟨holds, keeps⟩
  | @step log request rest scene later next reply _ undisturbed answers _ induction =>
      obtain ⟨holds, keeps⟩ := induction
      obtain ⟨mayAsk, answered⟩ := keeps later (holds ▸ undisturbed).meanwhile
      refine ⟨?_, answered reply next answers⟩
      rw [answers.id_held mayAsk, ← holds]
      exact congrArg (fun station => station.held.id) undisturbed.station

theorem intact {post : α → Scene → Prop}
    (reaches : program.Reaches habits id start log rest scene)
    (keeps : program.Keeps habits post start) (intact : start.Intact id) : scene.Intact id := by
  induction reaches with
  | start => exact intact
  | @step log request rest scene later next reply reached undisturbed answers _ induction =>
      obtain ⟨holds, keeps⟩ := reached.keeps intact.holds keeps
      obtain ⟨mayAsk, _⟩ := keeps later (holds ▸ undisturbed).meanwhile
      exact (induction.undisturbed undisturbed).answer mayAsk answers

theorem saves_suffix {exchange : Exchange}
    (reaches : program.Reaches habits id start log rest scene) (member : exchange ∈ log) :
    exchange.scene.saves <:+ scene.saves := by
  induction reaches with
  | start => cases member
  | @step log request rest scene later next reply _ undisturbed answers _ induction =>
      have added : later.saves <:+ next.saves := answers.saves_suffix
      rcases List.mem_append.mp member with earlier | last
      · have same : later.saves = scene.saves := congrArg Station.saves undisturbed.station
        exact (same ▸ induction earlier).trans added
      · obtain rfl := List.mem_singleton.mp last
        exact added

end Program.Reaches

/-! ### How a run begins -/

namespace Scene

/-- One process that nobody has leased yet, with its steps, before an attempt. -/
def opening (steps : List Step) : Scene :=
  ⟨⟨.fresh (.ofNat 1) .setupDim, [], none, []⟩, ⟨[.fresh (.ofNat 1) .setupDim], steps⟩⟩

/-- The same process once it has been leased. -/
def leased (steps : List Step) : Scene :=
  let rows : Rows := ⟨[⟨.ofNat 1, .setupDim, 1, some ⟨5, 0⟩⟩], steps⟩
  ⟨⟨⟨.ofNat 1, .setupDim, 1, some ⟨5, 0⟩⟩, [], some ⟨0, 0⟩, [.committed rows]⟩, rows⟩

theorem beginning_opening {steps : List Step} (distinct : (steps.map Step.id).Nodup) :
    (opening steps).Beginning (.ofNat 1) :=
  have isStored : (opening steps).rows.process? (.ofNat 1) = some (.fresh (.ofNat 1) .setupDim) :=
    rfl
  ⟨⟨List.nodup_singleton _, distinct⟩, rfl, Rows.anchors_of_process? isStored, rfl, rfl⟩

end Scene

namespace Attempt

/-- An attempt whose drain goes on with an action. -/
def goesOnWith (process : Process) (action : Action Unit) : Action Unit := do
  match ← Action.outcome (do
    action
    if ← Action.lease .release then
      Action.save
    let drained ← Action.ask .held
    Action.note (.drained drained.id drained.version)) with
  | .ok _ => return ()
  | .error failure => recover process failure

/-- The process is leased and prepared, and its steps are about to be run. -/
theorem exists_prepared_run (executable : List StepType) (steps queued : List Step)
    (agenda : Agenda)
    (pending : (steps.filter fun step => step.process == .ofNat 1 && step.isPending) = queued)
    (sorted : queued.Pairwise fun step other => step.isQueuedNotAfter other)
    (loaded : Agenda.load executable (queued.map fun step => ⟨step.id, step.type⟩)
      ((Scene.leased steps).rows.stepTypes (.ofNat 1)) = agenda) :
    ∃ log, Outcome.told log = [.prepared ⟨false, none⟩] ∧
      (Registry.attempt ⟨[⟨.setupDim, executable⟩]⟩ (.ok 5)).run.Reaches .silent (.ofNat 1)
        (.opening steps) log
        (goesOnWith (.fresh (.ofNat 1) .setupDim) (Drain.runQueue .setupDim (.ofNat 1)
          (settle (.ok 5)) agenda)).run (.leased steps) := by
  have listed : (Scene.leased steps).rows.pendingSteps (.ofNat 1) =
      queued.map fun step => ⟨step.id, step.type⟩ := by
    rw [← List.mergeSort_of_pairwise sorted, ← pending]
    rfl
  let registry : Registry := ⟨[⟨.setupDim, executable⟩]⟩
  have mayFail : ∀ failure, Habits.silent.mayFail failure := fun _ => trivial
  have run : (registry.attempt (.ok 5)).run.Reaches .silent (.ofNat 1) (.opening steps) []
      (registry.attempt (.ok 5)).run (.opening steps) := .start
  have run := run.answer .held rfl (.fresh (.ofNat 1) .setupDim) ⟨rfl, rfl⟩ rfl
  have run := run.answer .now rfl ⟨0, 0⟩ rfl rfl
  have run := run.answer .held rfl (.fresh (.ofNat 1) .setupDim) ⟨rfl, rfl⟩ rfl
  have run := run.answer (.lease (.request ⟨5, 0⟩ ⟨0, 0⟩)) rfl (.ok true) ⟨rfl, rfl⟩ rfl
  have run := run.answer (.note _) rfl () rfl rfl
  have run := run.answer .save rfl (.ok ())
    ⟨(Scene.leased steps).rows, ⟨rfl, fun _ => Batch.isFresh_of_insertless rfl rfl⟩, rfl⟩ rfl
  have run := run.answer .discard rfl () rfl rfl
  have run := run.answer (.pendingSteps _) rfl
    (.ok (queued.map fun step => ⟨step.id, step.type⟩))
    ⟨fun _ _ => trivial, fun _ replied => by cases replied; exact listed.symm, rfl⟩ rfl
  have run := run.answer (.stepTypes _) rfl (.ok _)
    ⟨fun _ _ => trivial, fun _ replied => by cases replied; rfl, rfl⟩ rfl
  have run := run.executor (.prepare _ _ _) rfl (.ok ⟨false, none⟩) mayFail rfl
  have run := run.answer .discard rfl () rfl rfl
  subst loaded
  exact ⟨_, rfl, run⟩

end Attempt

end Workflow
