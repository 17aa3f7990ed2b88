import Workflow.Proofs.Saving.Session
import Workflow.Proofs.Session.Contents
import Workflow.Proofs.Session.World
import Workflow.Session.Perform

/-!
# The gate before a run by hand

An operator names a process and a step, and can restrict the steps to be loaded to some types.
What is loaded always fits what is checked: only a missing process, a lease or a step that may
not be run keeps the gate closed.  An open gate shows the pending steps that are allowed and all
steps of the process, so that no hidden type is ever scheduled anew.
-/

namespace Workflow

/-- The process is stored under the identifier and free, it has a pending step of the type, and
the type is not filtered out. -/
structure Rows.Opens (rows : Rows) (id : Uuid) (filter : Option (List StepType))
    (current : StepType) (now : Timestamp) (process : Process) : Prop where
  stored : process ∈ rows.processes
  named : process.id = id
  free : process.isLeased now = false
  pending : ∃ step ∈ rows.steps,
    step.process = id ∧ step.status = some .todo ∧ step.type = current
  allowed : ∀ types, filter = some types → current ∈ types

theorem Rows.Keyed.eq_of_process? {rows : Rows} {id : Uuid} {process : Process}
    (keyed : rows.Keyed) (found : rows.process? id = some process) :
    ∀ other ∈ rows.processes, other.id = id → other = process := by
  intro other stored named
  have alsoFound := (findRow?_eq_some_iff keyed.processes).mpr ⟨stored, named⟩
  exact Option.some.inj (alsoFound.symm.trans found)

namespace ManualContext

variable {context next later : ManualContext} {rows : Rows} {id : Uuid}
  {filter : Option (List StepType)} {current : StepType} {owner : String} {now : Timestamp}
  {process : Process} {ids : List Uuid} {operation : ManualOp} {batch : Batch}

/-- One operation leads from a context to another. -/
def Becomes (context next : ManualContext) : Prop :=
  ∃ clock ids operation batch, context.perform clock ids operation = .ok (next, batch)

/-- What a context shows of a stored process. -/
structure Shows (context : ManualContext) (rows : Rows) (id : Uuid)
    (filter : Option (List StepType)) : Prop where
  process : context.process.toProcess ∈ rows.processes ∧ context.process.id = id
  /-- All steps of the process, each once. -/
  steps : ∀ step, step ∈ context.process.steps ↔ step ∈ rows.steps ∧ step.process = id
  unique : (context.process.steps.map Step.id).Nodup
  /-- All pending steps of the process that the filter allows, each once. -/
  loaded : ∀ step, step ∈ context.steps ↔ step ∈ rows.steps ∧ step.process = id ∧
    step.status = some .todo ∧ ∀ types, filter = some types → step.type ∈ types
  uniqueLoaded : (context.steps.map Step.id).Nodup
  oldestFirst : context.process.steps.Pairwise (fun left right => left.isNotAfter right) ∧
    context.steps.Pairwise fun left right => left.isNotAfter right
  /-- Whatever operations come first, no type is scheduled that the process has. -/
  schedules : ∀ later, Relation.ReflTransGen Becomes context later →
    ∀ types ids clock, ∀ step ∈ later.newSteps types ids clock,
      ∀ stored ∈ rows.steps, stored.process = id → stored.type ≠ step.type

theorem Becomes.steps_eq (becomes : context.Becomes next) :
    next.process.steps = context.process.steps := by
  obtain ⟨clock, ids, operation, batch, performed⟩ := becomes
  cases operation with
  | requestLease expiry =>
      obtain ⟨process, _, rfl⟩ := performLease_eq_ok_iff.mp performed
      rfl
  | skip types | skipExcept types =>
      cases performed
      exact congrArg ProcessDetail.steps (process_skipTypes context _)
  | schedule types =>
      cases performed
      rfl
  | finalize =>
      obtain ⟨released, isReleased, both⟩ := exists_of_bind_eq_ok performed
      cases both
      obtain ⟨process, _, isNext⟩ := performLease_eq_ok_iff.mp isReleased
      rw [isNext]
      rfl

theorem steps_eq_of_becomes (becomes : Relation.ReflTransGen Becomes context later) :
    later.process.steps = context.process.steps := by
  induction becomes with
  | refl => rfl
  | tail _ last induction => exact last.steps_eq.trans induction

/-- The pending steps that a filter allows, oldest first. -/
def loadedSteps (rows : Rows) (id : Uuid) (filter : Option (List StepType)) : List Step :=
  (rows.stepsOf id).filter fun step => step.isPending && allowed filter step.type

theorem allowed_iff {type : StepType} :
    allowed filter type ↔ ∀ types, filter = some types → type ∈ types := by
  cases filter <;> simp [allowed]

theorem mem_stepsOf {step : Step} :
    step ∈ rows.stepsOf id ↔ step ∈ rows.steps ∧ step.process = id := by
  simp [Rows.stepsOf, oldestFirst]

theorem mem_loadedSteps {step : Step} :
    step ∈ loadedSteps rows id filter ↔ step ∈ rows.steps ∧ step.process = id ∧
      step.status = some .todo ∧ ∀ types, filter = some types → step.type ∈ types := by
  rw [loadedSteps, List.mem_filter, mem_stepsOf, Bool.and_eq_true, allowed_iff]
  simp [Step.isPending, and_assoc]

theorem shows_of_stored (keyed : rows.Keyed) (found : rows.process? id = some process) :
    Shows ⟨current, process.withSteps (rows.stepsOf id), loadedSteps rows id filter⟩ rows id
      filter := by
  have unique : ((rows.stepsOf id).map Step.id).Nodup :=
    ((List.mergeSort_perm _ _).map Step.id).nodup_iff.mpr (keyed.nodup_owned id)
  have ordered : (rows.stepsOf id).Pairwise fun left right => left.isNotAfter right :=
    Step.pairwise_oldestFirst _
  refine ⟨findRow?_eq_some found, fun step => mem_stepsOf, unique, fun step => mem_loadedSteps,
    unique.sublist (List.Sublist.map Step.id List.filter_sublist),
    ⟨ordered, ordered.sublist List.filter_sublist⟩, ?_⟩
  intro later becomes types ids clock step member stored isStored owned same
  have unknown := unknown_of_mem_newSteps member
  rw [List.map_append, steps_eq_of_becomes becomes] at unknown
  refine unknown (List.mem_append_left _ (same ▸ List.mem_map_of_mem ?_))
  exact mem_stepsOf.mpr ⟨isStored, owned⟩

/-! ### What is checked -/

theorem check_of_missing (missing : rows.process? id = none) :
    check (rows.load? id filter) current owner now = .error (.missingOwner owner) := by
  simp [check, Rows.load?, Rows.detail?, missing]

theorem check_of_leased (found : rows.process? id = some process)
    (leased : process.isLeased now) :
    check (rows.load? id filter) current owner now =
      .error (.leasedProcess process.id owner process.lease) := by
  have held : (process.withSteps (rows.stepsOf id)).toProcess.isLeased now = true := leased
  simp only [check, Rows.load?, Rows.detail?, found, Option.map_some, Loaded.ofDetail, held,
    if_true]
  rfl

/-- Of a free process only pending steps are loaded, so what is left to check is the type. -/
theorem check_of_free (found : rows.process? id = some process)
    (free : process.isLeased now = false) :
    check (rows.load? id filter) current owner now =
      if (loadedSteps rows id filter).any fun step => step.type == current then
        .ok ⟨current, process.withSteps (rows.stepsOf id), loadedSteps rows id filter⟩
      else .error (.ineligibleStep owner current) := by
  have unheld : (process.withSteps (rows.stepsOf id)).toProcess.isLeased now = false := free
  have pending : (loadedSteps rows id filter).any (fun step => !step.isPending) = false := by
    rw [loadedSteps, List.any_filter]
    simp +contextual
  have none : ((loadedSteps rows id filter).all fun step => step.type != current) =
      !(loadedSteps rows id filter).any fun step => step.type == current := by
    rw [List.not_any_eq_all_not]
    rfl
  have loaded : rows.load? id filter = some
      ⟨some (process.withSteps (rows.stepsOf id)), some (loadedSteps rows id filter)⟩ := by
    simp only [Rows.load?, Rows.detail?, found]
    rfl
  simp only [check, loaded, unheld, pending, none]
  cases (loadedSteps rows id filter).any fun step => step.type == current <;> rfl

/-- What comes of asking for a context. -/
structure Gates (rows : Rows) (id : Uuid) (filter : Option (List StepType)) (current : StepType)
    (owner : String) (now : Timestamp) (outcome : Except Failure ManualContext) : Prop where
  opens : (∃ context, outcome = .ok context) ↔
    ∃ process, rows.Opens id filter current now process
  shows : ∀ context, outcome = .ok context →
    context.current = current ∧ context.Shows rows id filter
  missing : (∃ failure, outcome = .error failure ∧ failure.kind = .notFound) ↔
    ∀ process ∈ rows.processes, process.id ≠ id
  /-- A lease is reported whether or not the step may be run. -/
  leased : ∀ process ∈ rows.processes, process.id = id → process.isLeased now →
    outcome = .error (.leasedProcess id owner process.lease)
  /-- There are no other failures, and none that tells of a broken invariant. -/
  refused : ∀ failure, outcome = .error failure →
    failure.kind = .notFound ∧ failure = .missingOwner owner ∨
      failure.kind = .conflict ∧
        ((∃ lease, failure = .leasedProcess id owner lease) ∨
          failure = .ineligibleStep owner current)

theorem gates_of_missing (missing : rows.process? id = none) :
    Gates rows id filter current owner now (.error (.missingOwner owner)) := by
  have absent : ∀ process ∈ rows.processes, process.id ≠ id := fun process stored same =>
    findRow?_eq_none_iff.mp missing (same ▸ List.mem_map_of_mem stored)
  refine ⟨⟨?_, ?_⟩, ?_, ⟨fun _ => absent, fun _ => ⟨_, rfl, rfl⟩⟩, ?_, ?_⟩
  · rintro ⟨_, ⟨⟩⟩
  · rintro ⟨process, opens⟩
    exact absurd opens.named (absent process opens.stored)
  · rintro _ ⟨⟩
  · exact fun process stored same => absurd same (absent process stored)
  · rintro _ ⟨⟩
    exact .inl ⟨rfl, rfl⟩

theorem gates_of_leased (keyed : rows.Keyed) (found : rows.process? id = some process)
    (leased : process.isLeased now) :
    Gates rows id filter current owner now
      (.error (.leasedProcess process.id owner process.lease)) := by
  obtain ⟨stored, named⟩ := findRow?_eq_some found
  have only := keyed.eq_of_process? found
  refine ⟨⟨?_, ?_⟩, ?_, ⟨?_, fun absent => absurd named (absent process stored)⟩, ?_, ?_⟩
  · rintro ⟨_, ⟨⟩⟩
  · rintro ⟨other, opens⟩
    have free := opens.free
    rw [only other opens.stored opens.named, leased] at free
    cases free
  · rintro _ ⟨⟩
  · rintro ⟨_, ⟨⟩, isMissing⟩
    cases isMissing
  · intro other otherStored same _
    rw [only other otherStored same, named]
  · rintro _ ⟨⟩
    exact .inr ⟨rfl, .inl ⟨process.lease, by rw [named]⟩⟩

theorem gates_of_free (keyed : rows.Keyed) (found : rows.process? id = some process)
    (free : process.isLeased now = false) :
    Gates rows id filter current owner now
      (if (loadedSteps rows id filter).any fun step => step.type == current then
        .ok ⟨current, process.withSteps (rows.stepsOf id), loadedSteps rows id filter⟩
      else .error (.ineligibleStep owner current)) := by
  obtain ⟨stored, named⟩ := findRow?_eq_some found
  have only := keyed.eq_of_process? found
  have listed : ((loadedSteps rows id filter).any fun step => step.type == current) = true ↔
      rows.Opens id filter current now process := by
    rw [List.any_eq_true]
    constructor
    · rintro ⟨step, member, isCurrent⟩
      obtain ⟨isStored, owned, pending, isAllowed⟩ := mem_loadedSteps.mp member
      obtain rfl := beq_iff_eq.mp isCurrent
      exact ⟨stored, named, free, ⟨step, isStored, owned, pending, rfl⟩, isAllowed⟩
    · rintro ⟨_, _, _, ⟨step, isStored, owned, pending, rfl⟩, isAllowed⟩
      exact ⟨step, mem_loadedSteps.mpr ⟨isStored, owned, pending, isAllowed⟩, beq_self_eq_true _⟩
  have held : ∀ other ∈ rows.processes, other.id = id → other.isLeased now →
      False := by
    intro other otherStored same leased
    rw [only other otherStored same, free] at leased
    cases leased
  split
  · rename_i due
    refine ⟨⟨fun _ => ⟨process, listed.mp due⟩, fun _ => ⟨_, rfl⟩⟩, ?_,
      ⟨?_, fun absent => absurd named (absent process stored)⟩,
      fun other otherStored same leased => (held other otherStored same leased).elim, ?_⟩
    · rintro _ ⟨⟩
      exact ⟨rfl, shows_of_stored keyed found⟩
    · rintro ⟨_, ⟨⟩, _⟩
    · rintro _ ⟨⟩
  · rename_i undue
    refine ⟨⟨?_, ?_⟩, ?_, ⟨?_, fun absent => absurd named (absent process stored)⟩,
      fun other otherStored same leased => (held other otherStored same leased).elim, ?_⟩
    · rintro ⟨_, ⟨⟩⟩
    · rintro ⟨other, opens⟩
      rw [only other opens.stored opens.named] at opens
      exact absurd (listed.mpr opens) undue
    · rintro _ ⟨⟩
    · rintro ⟨_, ⟨⟩, isMissing⟩
      cases isMissing
    · rintro _ ⟨⟩
      exact .inr ⟨rfl, .inr rfl⟩

theorem gates_check (keyed : rows.Keyed) :
    Gates rows id filter current owner now
      (check (rows.load? id filter) current owner now) := by
  cases found : rows.process? id with
  | none =>
      rw [check_of_missing found]
      exact gates_of_missing found
  | some process =>
      cases leased : process.isLeased now with
      | true =>
          rw [check_of_leased found leased]
          exact gates_of_leased keyed found leased
      | false =>
          rw [check_of_free found leased]
          exact gates_of_free keyed found leased

end ManualContext

namespace Session

variable {world : World} {rows : Rows}

theorem members_codes (types : List StepType) :
    members (types.map fun type => (type.code : Int)) = .ok types := by
  rw [members, List.mapM_map]
  have succeeds : types.mapM (Catalogue.member ∘ fun type : StepType => (type.code : Int)) =
      .ok (types.map fun type => type) :=
    mapM_eq_ok fun type _ => Catalogue.member_of_ofCode? type.ofCode?_code
  rw [succeeds, List.map_id']

theorem isQuiet_keep (handle : Option String) (kept : Kept) : (Act.keep handle kept).IsQuiet := by
  cases handle with
  | none => exact .pure ()
  | some handle => exact fun _ => ⟨rfl, rfl, rfl⟩

theorem manual_run (holds : world.store.Holds rows) (handle : String) (id : Uuid)
    (filter : Option (List StepType)) (current : StepType) (owner : String)
    (now : Option Timestamp) :
    ∃ after, world.Alike after ∧
      (manual handle current.code owner now (.stored id
        (filter.map fun types => types.map fun type => (type.code : Int)))).run.run world =
      (ManualContext.check (rows.load? id filter) current owner
        (now.getD (Act.now.run world).1), after) := by
  have codes : members? (filter.map fun types => types.map fun type => (type.code : Int)) =
      .ok filter := by
    cases filter with
    | none => rfl
    | some types =>
        rw [Option.map_some, members?, members_codes]
        rfl
  have answered := Act.access_run (holds.load? id filter)
  have loaded : (verify id (filter.map fun types =>
      types.map fun type => (type.code : Int))).run.run world =
        pure (.ok (rows.load? id filter), world) := by
    have asked : (ask (Store.load? id filter)).run.run world =
        (Act.access (Store.load? id filter)).run world := rfl
    rw [verify, codes]
    exact asked.trans answered
  let clock := now.getD (Act.now.run world).1
  have lifted : ∀ (α : Type) (outcome : Except Failure α),
      (ofExcept outcome : Attempted α).run = pure outcome := by
    intro α outcome
    cases outcome <;> rfl
  have timed : (liftM Act.now : Attempted Timestamp).run.run world =
      pure (.ok (Act.now.run world).1, world) := rfl
  have checked : (manual handle current.code owner now (.stored id
      (filter.map fun types => types.map fun type => (type.code : Int)))).run.run world =
        match ManualContext.check (rows.load? id filter) current owner clock with
        | .ok context => (.ok context, ((Act.keep (some handle) (.context context)).run world).2)
        | .error failure => (.error failure, world) := by
    simp only [manual, loadSource, ExceptT.run_bind, StateT.run_bind, loaded, pure_bind,
      Catalogue.member_of_ofCode? current.ofCode?_code, lifted, timed]
    change _ = match ManualContext.check (rows.load? id filter) current owner
      (now.getD (Act.now.run world).1) with | .ok _ => _ | .error _ => _
    cases ManualContext.check (rows.load? id filter) current owner
      (now.getD (Act.now.run world).1) <;> rfl
  rw [checked]
  cases ManualContext.check (rows.load? id filter) current owner clock with
  | ok context => exact ⟨_, isQuiet_keep (some handle) (.context context) world, rfl⟩
  | error failure => exact ⟨world, .refl world, rfl⟩

/-- **The gate and what is loaded for it fit together.**  Whatever is stored, an operator gets a
context exactly if the process is stored and free, has a pending step of the type, and the type
passes the filter.  A missing process, and only that, is reported as not found; all other refusals
are conflicts, and a lease comes before a step that may not be run.  The context shows all steps
of the process and the pending ones that pass, oldest first, and never schedules a type that the
process has.  Nothing is staged and nothing stored is changed. -/
theorem manual_gate (holds : world.store.Holds rows) (handle : String) (id : Uuid)
    (filter : Option (List StepType)) (current : StepType) (owner : String)
    (now : Option Timestamp) :
    ∃ outcome after,
      (manual handle current.code owner now (.stored id
        (filter.map fun types => types.map fun type => (type.code : Int)))).run.run world =
        (outcome, after) ∧
      world.Alike after ∧
      ManualContext.Gates rows id filter current owner (now.getD (Act.now.run world).1)
        outcome := by
  obtain ⟨after, alike, run⟩ := manual_run holds handle id filter current owner now
  exact ⟨_, after, run, alike, ManualContext.gates_check holds.keyed⟩

/-- A free process with two pending steps and a finished one. -/
def mixedRows : Rows where
  processes := [.fresh (.ofNat 1) .setupDim]
  steps := [
    .fresh (.ofNat 2) .assignEntitlements .todo (.ofNat 1) ⟨0, 0⟩,
    .fresh (.ofNat 3) .createServicemanagerBindings .done (.ofNat 1) ⟨0, 0⟩,
    .fresh (.ofNat 4) .createSubaccount .todo (.ofNat 1) ⟨0, 0⟩]

/-- The filter hides a pending step, and the type of this step is not scheduled anew. -/
theorem hidden_type_not_scheduled :
    let world := World.opening (.rows mixedRows) ⟨"worker", [.deleteStep (.ofNat 2)], []⟩
    world.store.Holds mixedRows ∧ ∃ context after,
      (manual "context" 1 "tenant" none (.stored (.ofNat 1) (some [1]))).run.run world =
        (.ok context, after) ∧
      world.Alike after ∧
      (∀ step ∈ context.steps, step.type = .createSubaccount) ∧
      ∀ types ids clock, ∀ step ∈ context.newSteps types ids clock,
        step.type ≠ .assignEntitlements := by
  intro world
  have holds : world.store.Holds mixedRows := .memory ⟨by decide, by decide⟩
  obtain ⟨outcome, after, run, alike, gates⟩ := manual_gate holds "context" (.ofNat 1)
    (some [.createSubaccount]) .createSubaccount "tenant" none
  have opens : ∃ context, outcome = .ok context := by
    refine gates.opens.mpr ⟨.fresh (.ofNat 1) .setupDim, List.mem_singleton.mpr rfl, rfl, rfl,
      ⟨.fresh (.ofNat 4) .createSubaccount .todo (.ofNat 1) ⟨0, 0⟩, by decide, rfl, rfl, rfl⟩, ?_⟩
    rintro _ ⟨⟩
    decide
  obtain ⟨context, rfl⟩ := opens
  obtain ⟨_, shows⟩ := gates.shows context rfl
  refine ⟨holds, context, after, run, alike, ?_, ?_⟩
  · intro step member
    exact List.mem_singleton.mp (((shows.loaded step).mp member).2.2.2 _ rfl)
  · intro types ids clock step member
    exact (shows.schedules context .refl types ids clock step member
      (.fresh (.ofNat 2) .assignEntitlements .todo (.ofNat 1) ⟨0, 0⟩) (by decide) rfl).symm

end Session

end Workflow
