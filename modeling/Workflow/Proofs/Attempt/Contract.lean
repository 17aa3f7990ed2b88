import Workflow.Proofs.Attempt.Rules
import Workflow.Proofs.Attempt.Scene

/-!
# Contracts of programs

A program keeps its contract in a scene if it only asks to save what an attempt may
save and ends as promised, whatever it is answered and whatever others do between
its requests.  It obeys the rules of workers that share a store.
-/

namespace Workflow

/-- A property of scenes that others cannot destroy. -/
def Scene.Stable (habits : Habits) (assertion : Scene → Prop) : Prop :=
  ∀ scene later, assertion scene → Scene.Meanwhile habits scene later → assertion later

/-- The rules of workers that share a store. -/
def Habits.rules (habits : Habits) : Rules Scene where
  others := Scene.Meanwhile habits
  mayAsk := Scene.MayAsk habits
  answers := Scene.Answers habits

namespace Program

variable {α β : Type} {habits : Habits} {scene later : Scene}

/-- A program that asks only what it may, and ends as promised. -/
def Keeps (habits : Habits) (post : α → Scene → Prop) : Program α → Scene → Prop
  | done value, scene => post value scene
  | ask request rest, scene =>
    ∀ later, scene.Meanwhile habits later →
      later.MayAsk habits request ∧
        ∀ reply next, later.Answers habits request reply next →
          (rest reply).Keeps habits post next

variable {post : α → Scene → Prop}

theorem keeps_iff_obeys {program : Program α} :
    program.Keeps habits post scene ↔ program.Obeys habits.rules post scene := by
  induction program generalizing scene with
  | done value => exact Iff.rfl
  | ask request rest induction =>
      simp only [Keeps, Obeys, induction]
      exact Iff.rfl

theorem Keeps.imp {program : Program α} {weaker : α → Scene → Prop}
    (keeps : program.Keeps habits post scene)
    (implies : ∀ value scene, post value scene → weaker value scene) :
    program.Keeps habits weaker scene :=
  keeps_iff_obeys.mpr ((keeps_iff_obeys.mp keeps).imp implies)

theorem Keeps.meanwhile {program : Program α}
    (stable : ∀ value, Scene.Stable habits (post value))
    (keeps : program.Keeps habits post scene) (meanwhile : scene.Meanwhile habits later) :
    program.Keeps habits post later := by
  cases program with
  | done value => exact stable value _ _ keeps meanwhile
  | ask request rest =>
      intro final waited
      exact keeps final (meanwhile.trans waited)

end Program

namespace Action

variable {α β : Type} {habits : Habits} {scene : Scene}

/-- An action that keeps its contract and ends with a value or a failure as promised. -/
def Keeps (habits : Habits) (post : α → Scene → Prop) (broken : Failure → Scene → Prop)
    (action : Action α) (scene : Scene) : Prop :=
  action.run.Keeps habits
    (fun outcome scene =>
      match outcome with
      | .ok value => post value scene
      | .error failure => broken failure scene)
    scene

variable {post : α → Scene → Prop} {final : β → Scene → Prop}
  {broken : Failure → Scene → Prop} {assertion : Scene → Prop}

theorem keeps_iff_obeys {action : Action α} :
    Keeps habits post broken action scene ↔ Obeys habits.rules post broken action scene :=
  Program.keeps_iff_obeys

theorem keeps_pure {value : α} (holds : post value scene) :
    Keeps habits post broken (pure value) scene :=
  holds

theorem keeps_throw {failure : Failure} (holds : broken failure scene) :
    Keeps habits post broken (throw failure) scene :=
  holds

theorem Keeps.bind {action : Action α} {next : α → Action β}
    (keeps : Keeps habits post broken action scene)
    (following : ∀ value scene, post value scene →
      Keeps habits final broken (next value) scene) :
    Keeps habits final broken (action >>= next) scene :=
  keeps_iff_obeys.mpr ((keeps_iff_obeys.mp keeps).bind fun value scene holds =>
    keeps_iff_obeys.mp (following value scene holds))

theorem Keeps.imp {action : Action α} {weaker : α → Scene → Prop}
    (keeps : Keeps habits post broken action scene)
    (implies : ∀ value scene, post value scene → weaker value scene) :
    Keeps habits weaker broken action scene :=
  keeps_iff_obeys.mpr ((keeps_iff_obeys.mp keeps).imp implies)

/-- The outcome of an action is looked at before going on. -/
theorem Keeps.outcome_bind {action : Action α} {next : Except Failure α → Action β}
    {middle : Failure → Scene → Prop}
    (keeps : Keeps habits post middle action scene)
    (succeeded : ∀ value scene, post value scene →
      Keeps habits final broken (next (.ok value)) scene)
    (failed : ∀ failure scene, middle failure scene →
      Keeps habits final broken (next (.error failure)) scene) :
    Keeps habits final broken (outcome action >>= next) scene := by
  apply keeps_iff_obeys.mpr
  refine (keeps_iff_obeys.mp keeps).outcome_bind ?_ ?_
  · intro value scene holds
    exact keeps_iff_obeys.mp (succeeded value scene holds)
  · intro failure scene holds
    exact keeps_iff_obeys.mp (failed failure scene holds)

theorem keeps_ofExcept_bind {outcome : Except Failure α} {next : α → Action β}
    (succeeded : ∀ value, outcome = .ok value → Keeps habits final broken (next value) scene)
    (failed : ∀ failure, outcome = .error failure → broken failure scene) :
    Keeps habits final broken (ofExcept outcome >>= next) scene := by
  cases outcome with
  | ok value => exact succeeded value rfl
  | error failure => exact failed failure rfl

theorem keeps_ask_bind {request : Request} {next : request.Reply → Action β}
    (stable : Scene.Stable habits assertion) (holds : assertion scene)
    (mayAsk : ∀ scene, assertion scene → scene.MayAsk habits request)
    (answered : ∀ scene, assertion scene → ∀ reply after,
      scene.Answers habits request reply after →
      Keeps habits final broken (next reply) after) :
    Keeps habits final broken (ask request >>= next) scene := by
  apply keeps_iff_obeys.mpr
  refine obeys_ask_bind stable holds mayAsk ?_
  intro scene holds reply after answer
  exact keeps_iff_obeys.mp (answered scene holds reply after answer)

theorem keeps_ask {request : Request} {post : request.Reply → Scene → Prop}
    (stable : Scene.Stable habits assertion) (holds : assertion scene)
    (mayAsk : ∀ scene, assertion scene → scene.MayAsk habits request)
    (answered : ∀ scene, assertion scene → ∀ reply after,
      scene.Answers habits request reply after → post reply after) :
    Keeps habits post broken (ask request) scene :=
  keeps_iff_obeys.mpr (obeys_ask stable holds mayAsk answered)

theorem keeps_lease_bind {operation : LeaseOp} {next : Bool → Action β}
    (stable : Scene.Stable habits assertion) (holds : assertion scene)
    (performed : ∀ scene, assertion scene → ∀ process batch,
      operation.perform scene.held = .ok (process, batch) →
      Keeps habits final broken (next (!batch.isEmpty)) ((scene.hold process).stage batch))
    (refused : ∀ scene, assertion scene → ∀ failure,
      operation.perform scene.held = .error failure → broken failure scene) :
    Keeps habits final broken (lease operation >>= next) scene := by
  rw [lease, bind_assoc]
  refine keeps_ask_bind stable holds (fun _ _ => trivial) ?_
  intro scene holds reply after answer
  simp only [Scene.Answers] at answer
  split at answer
  · rename_i process batch ok
    obtain ⟨rfl, rfl⟩ := answer
    exact performed scene holds process batch ok
  · rename_i failure error
    obtain ⟨rfl, rfl⟩ := answer
    exact refused after holds failure error

theorem keeps_save {post : Unit → Scene → Prop}
    (stable : Scene.Stable habits assertion) (holds : assertion scene)
    (allowed : ∀ scene, assertion scene → scene.MaySave habits)
    (committed : ∀ scene, assertion scene → ∀ after, scene.Commits habits after →
      post () (scene.commit after))
    (failed : ∀ scene, assertion scene → ∀ failure left,
      left = [] ∨ left = scene.staged → broken failure (scene.fail failure left)) :
    Keeps habits post broken save scene := by
  intro later meanwhile
  have now := stable _ _ holds meanwhile
  refine ⟨allowed later now, ?_⟩
  intro reply after answer
  cases reply with
  | ok _ =>
      obtain ⟨rows, commits, rfl⟩ := answer
      exact committed later now rows commits
  | error failure =>
      obtain ⟨left, origin, rfl⟩ := answer
      exact failed later now failure left origin

/-! ### Requests with one answer -/

theorem keeps_now_bind {next : Timestamp → Action β}
    (stable : Scene.Stable habits assertion) (holds : assertion scene)
    (told : ∀ scene, assertion scene → ∀ now,
      Keeps habits final broken (next now) (scene.read now)) :
    Keeps habits final broken (ask .now >>= next) scene := by
  refine keeps_ask_bind stable holds (fun _ _ => trivial) ?_
  intro scene holds now after answer
  subst answer
  exact told scene holds now

theorem keeps_held_bind {next : Process → Action β}
    (stable : Scene.Stable habits assertion) (holds : assertion scene)
    (told : ∀ scene, assertion scene → Keeps habits final broken (next scene.held) scene) :
    Keeps habits final broken (ask .held >>= next) scene := by
  refine keeps_ask_bind stable holds (fun _ _ => trivial) ?_
  intro _ holds _ scene answer
  obtain ⟨rfl, rfl⟩ := answer
  exact told scene holds

theorem keeps_note {notice : Notice} {post : Unit → Scene → Prop}
    (stable : Scene.Stable habits assertion) (holds : assertion scene)
    (noted : ∀ scene, assertion scene → post () scene) :
    Keeps habits post broken (note notice) scene := by
  refine keeps_ask stable holds (fun _ _ => trivial) ?_
  intro scene holds reply after answer
  exact answer ▸ noted scene holds

theorem keeps_note_bind {notice : Notice} {next : Unit → Action β}
    (stable : Scene.Stable habits assertion) (holds : assertion scene)
    (noted : ∀ scene, assertion scene → Keeps habits final broken (next ()) scene) :
    Keeps habits final broken (note notice >>= next) scene := by
  refine keeps_ask_bind stable holds (fun _ _ => trivial) ?_
  intro scene holds reply after answer
  exact answer ▸ noted scene holds

theorem keeps_discard {post : Unit → Scene → Prop}
    (stable : Scene.Stable habits assertion) (holds : assertion scene)
    (dropped : ∀ scene, assertion scene → post () scene.discard) :
    Keeps habits post broken discard scene := by
  refine keeps_ask stable holds (fun _ _ => trivial) ?_
  intro scene holds reply after answer
  exact answer ▸ dropped scene holds

theorem keeps_discard_bind {next : Unit → Action β}
    (stable : Scene.Stable habits assertion) (holds : assertion scene)
    (dropped : ∀ scene, assertion scene →
      Keeps habits final broken (next ()) scene.discard) :
    Keeps habits final broken (discard >>= next) scene := by
  refine keeps_ask_bind stable holds (fun _ _ => trivial) ?_
  intro scene holds reply after answer
  exact answer ▸ dropped scene holds

end Action

end Workflow
