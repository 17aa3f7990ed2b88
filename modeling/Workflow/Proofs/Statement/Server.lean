import Workflow.Proofs.Lease.Race
import Workflow.Proofs.Statement.Dialogue
import Workflow.Proofs.Statement.Values

/-!
# A batch sent to a server

A server with two tables takes calls one after another.  In a transaction it works on a copy of
the tables, which replaces them when the transaction is committed.  A batch that is sent to it
ends as it does on the rows of a store, and leaves the same rows behind.
-/

namespace Workflow

structure Server where
  /-- The tables outside of transactions. -/
  stored : Database
  /-- The tables of an open transaction. -/
  working : Option Database

namespace Server

/-- The tables that statements are about. -/
def current (server : Server) : Database :=
  server.working.getD server.stored

/-- The server after a statement. -/
def put (server : Server) (database : Database) : Server :=
  match server.working with
  | some _ => { server with working := some database }
  | none => { server with stored := database }

/-- Takes a call unless it is an error.  The tables exist already, so that creating them changes
nothing.  Only the answers to updates and deletions are looked at. -/
def take? (accepts : Column → Datum → Bool) (server : Server) :
    Call → Option (Server × List String)
  | .execute text arguments =>
    if text ∈ Connection.schema then some (server, [])
    else do
      let filled ← Filled.read? text arguments
      let (database, count) ← filled.run? accepts server.current
      return (server.put database, (filled.tag? count).toList)
  | .begin =>
    match server.working with
    | some _ => none
    | none => some ({ server with working := some server.stored }, [])
  | .commit => server.working.map fun database => (⟨database, none⟩, [])
  | .rollback => server.working.map fun _ => ({ server with working := none }, [])
  | .close => some ({ server with working := none }, [])
  | .connect _ | .fetch _ _ | .fetchRow _ _ => some (server, [])

/-- A server takes calls in order and gives its answers. -/
inductive Takes (accepts : Column → Datum → Bool) :
    Server → List Call → Server → List String → Prop where
  | nil (server : Server) : Takes accepts server [] server []
  | cons {server next served : Server} {call : Call} {calls : List Call}
      {answers others : List String} :
      server.take? accepts call = some (next, answers) →
      Takes accepts next calls served others →
      Takes accepts server (call :: calls) served (answers ++ others)

/-- What a client sends passes to the server, and the answers it gets are those of the server. -/
def Answers (accepts : Column → Datum → Bool) (server : Server) (before after : Connection)
    (served : Server) : Prop :=
  ∃ calls tags, after.sent = calls.reverse ++ before.sent ∧ before.tags = tags ++ after.tags ∧
    server.Takes accepts calls served tags

/-- A batch is sent to the server, which gives the answers itself, with this outcome for the client
and this one for the server. -/
def Transacts (accepts : Column → Datum → Bool) (server : Server) (connection : Connection)
    (batch : Batch) (outcome : Except Failure Unit) (served : Server) : Prop :=
  ∃ tags,
    ((Connection.commit batch).run.run { connection with tags }).1 = outcome ∧
      server.Answers accepts { connection with tags }
        ((Connection.commit batch).run.run { connection with tags }).2 served

/-- A server that holds the rows of a store, with no transaction open. -/
def holding (rows : Rows) : Server :=
  ⟨.ofRows rows, none⟩

variable {accepts : Column → Datum → Bool} {server served middle : Server} {call : Call}
  {first second calls : List Call} {tags others : List String}

theorem Takes.quiet {next : Server} (taken : server.take? accepts call = some (next, []))
    (goesOn : next.Takes accepts calls served tags) :
    server.Takes accepts (call :: calls) served tags :=
  .cons taken goesOn

theorem Takes.append (starts : server.Takes accepts first middle tags)
    (goesOn : middle.Takes accepts second served others) :
    server.Takes accepts (first ++ second) served (tags ++ others) := by
  induction starts with
  | nil => exact goesOn
  | cons taken _ induction =>
      rw [List.cons_append, List.append_assoc]
      exact .cons taken (induction goesOn)

/-- A server does the same whenever it gets the same calls. -/
theorem Takes.unique {other : Server} (takes : server.Takes accepts calls served tags)
    (again : server.Takes accepts calls other others) : other = served ∧ others = tags := by
  induction takes generalizing other others with
  | nil =>
      cases again
      exact ⟨rfl, rfl⟩
  | cons taken _ induction =>
      cases again with
      | cons takenAgain rest =>
          obtain ⟨rfl, rfl⟩ := Prod.mk.inj (Option.some.inj (takenAgain.symm.trans taken))
          obtain ⟨rfl, rfl⟩ := induction rest
          exact ⟨rfl, rfl⟩

theorem Takes.exists_of_append (takes : server.Takes accepts (first ++ second) served tags) :
    ∃ middle early late, server.Takes accepts first middle early ∧
      middle.Takes accepts second served late ∧ tags = early ++ late := by
  induction first generalizing server tags with
  | nil => exact ⟨server, [], tags, .nil server, takes, rfl⟩
  | cons call first induction =>
      cases takes with
      | cons taken rest =>
          obtain ⟨middle, early, late, starts, goesOn, rfl⟩ := induction rest
          exact ⟨middle, _, late, .cons taken starts, goesOn, (List.append_assoc ..).symm⟩

end Server

/-! ### One statement -/

/-- No statement creates a table, because it begins with another letter. -/
theorem Statement.text_notMem_schema {statement : Statement} :
    statement.text ∉ Connection.schema := by
  have goesOn {first rest : String} {character : Char}
      (begins : first.toList.head? = some character) :
      (first ++ rest).toList.head? = some character := by
    rw [String.toList_append, List.head?_append, begins, Option.some_or]
  have begins : ∀ text ∈ Connection.schema, text.toList.head? = some 'C' := by
    simp only [Connection.schema, List.forall_mem_cons]
    refine ⟨goesOn (goesOn ?_), goesOn (goesOn (goesOn ?_)), goesOn ?_, List.forall_mem_nil _⟩
    all_goals exact congrArg List.head? String.toList_ofList
  have other : ∃ character ≠ 'C', statement.text.toList.head? = some character := by
    cases statement with
    | insert =>
        refine ⟨'I', by decide, goesOn (goesOn (goesOn (goesOn (goesOn (goesOn ?_)))))⟩
        exact congrArg List.head? String.toList_ofList
    | update =>
        refine ⟨'U', by decide, goesOn (goesOn (goesOn (goesOn (goesOn ?_))))⟩
        exact congrArg List.head? String.toList_ofList
    | delete =>
        refine ⟨'D', by decide, goesOn (goesOn (goesOn ?_))⟩
        exact congrArg List.head? String.toList_ofList
  intro member
  obtain ⟨character, different, first⟩ := other
  exact different (Option.some.inj (first.symm.trans (begins _ member)))

section Statements

variable {accepts : Column → Datum → Bool} {change : Change} {batch : Batch} {rows : Rows}
  {stored database next : Database} {count : Nat} {tags : List String} {required : String}
  {failure : Failure} {served : Server}

/-- In a transaction the statement of a change is run on the tables of the transaction. -/
theorem Server.take?_call (stored : Database)
    (runs : change.filled.run? accepts database = some (next, count)) :
    take? accepts ⟨stored, some database⟩ (Command.ofChange change).call =
      some (⟨stored, some next⟩, (change.filled.tag? count).toList) := by
  have runsOn : change.filled.run? accepts (current ⟨stored, some database⟩) =
      some (next, count) := runs
  rw [Command.call, take?, if_neg Statement.text_notMem_schema,
    (Command.ofChange_sends change).means, Option.bind_eq_bind, Option.bind_some, runsOn]
  rfl

theorem Change.map_fst_requirement : change.requirement.map Prod.fst = change.filled.tag? 1 := by
  cases change <;> rfl

theorem Change.requirement_of_apply_eq_error (refused : rows.apply change = .error failure) :
    ∃ required other, change.requirement = some (required, failure) ∧
      change.filled.tag? 0 = some other ∧ other ≠ required := by
  cases change with
  | insertProcess _ | insertStep _ => cases refused
  | updateProcess id expected update =>
      refine ⟨"UPDATE 1", "UPDATE 0", ?_, rfl, by decide⟩
      simp only [Rows.apply] at refused
      split at refused
      · cases refused
        rfl
      · split at refused <;> cases refused
        rfl
  | updateStep id update changed =>
      refine ⟨"UPDATE 1", "UPDATE 0", ?_, rfl, by decide⟩
      simp only [Rows.apply] at refused
      split at refused <;> cases refused
      rfl
  | deleteStep id =>
      refine ⟨"DELETE 1", "DELETE 0", ?_, rfl, by decide⟩
      simp only [Rows.apply] at refused
      split at refused <;> cases refused
      rfl

namespace Batch

theorem dialogue_of_required (change : Change) (batch : Batch) (later : List String) :
    dialogue (change :: batch) ((change.filled.tag? 1).toList ++ later) =
      { dialogue batch later with
        calls := (Command.ofChange change).call :: (dialogue batch later).calls } := by
  rw [← Change.map_fst_requirement, dialogue]
  cases change.requirement with
  | none => rfl
  | some requirement => exact if_pos rfl

/-- It ends with the first other answer. -/
theorem dialogue_of_refused {other : String}
    (requires : change.requirement = some (required, failure)) (isOther : other ≠ required)
    (batch : Batch) (later : List String) :
    dialogue (change :: batch) (other :: later) =
      ⟨.error failure, [(Command.ofChange change).call], later⟩ := by
  rw [dialogue, requires]
  exact if_neg isOther

theorem exists_calls_dialogue (change : Change) (batch : Batch) (tags : List String) :
    ∃ calls, (dialogue (change :: batch) tags).calls = (Command.ofChange change).call :: calls := by
  rw [dialogue]
  split
  · exact ⟨_, rfl⟩
  · split <;> exact ⟨_, rfl⟩

/-- The answers that a batch uses up are those of a server in a transaction. -/
def IsAnswered (accepts : Column → Datum → Bool) (server : Server) (batch : Batch)
    (tags : List String) (served : Server) : Prop :=
  ∃ answers, tags = answers ++ (batch.dialogue tags).left ∧
    server.Takes accepts (batch.dialogue tags).calls served answers

theorem IsAnswered.exists_of_cons
    (answered : IsAnswered accepts ⟨stored, some database⟩ (change :: batch) tags served)
    (runs : change.filled.run? accepts database = some (next, count)) :
    ∃ calls answers, (dialogue (change :: batch) tags).calls =
        (Command.ofChange change).call :: calls ∧
      tags = (change.filled.tag? count).toList ++
        (answers ++ (dialogue (change :: batch) tags).left) ∧
      Server.Takes accepts ⟨stored, some next⟩ calls served answers := by
  obtain ⟨answers, used, takes⟩ := answered
  obtain ⟨calls, begins⟩ := exists_calls_dialogue change batch tags
  rw [begins] at takes
  cases takes with
  | cons taken goesOn =>
      obtain ⟨rfl, rfl⟩ :=
        Prod.mk.inj (Option.some.inj (taken.symm.trans (Server.take?_call stored runs)))
      rw [List.append_assoc] at used
      exact ⟨calls, _, begins, used, goesOn⟩

theorem isAnswered_cons_of_required
    (runs : change.filled.run? accepts database = some (next, 1)) :
    IsAnswered accepts ⟨stored, some database⟩ (change :: batch) tags served ↔
      ∃ later, tags = (change.filled.tag? 1).toList ++ later ∧
        IsAnswered accepts ⟨stored, some next⟩ batch later served := by
  constructor
  · intro answered
    obtain ⟨calls, answers, begins, used, goesOn⟩ := answered.exists_of_cons runs
    refine ⟨_, used, answers, ?_⟩
    have rest := dialogue_of_required change batch
      (answers ++ (dialogue (change :: batch) tags).left)
    rw [← used] at rest
    have sameCalls := begins.symm.trans (congrArg Dialogue.calls rest)
    have sameLeft := congrArg Dialogue.left rest
    rw [← (List.cons.inj sameCalls).2]
    exact ⟨congrArg _ sameLeft, goesOn⟩
  · rintro ⟨later, rfl, answers, used, takes⟩
    refine ⟨(change.filled.tag? 1).toList ++ answers, ?_, ?_⟩
    · rw [dialogue_of_required, List.append_assoc, ← used]
    · rw [dialogue_of_required]
      exact .cons (Server.take?_call stored runs) takes

theorem isAnswered_cons_of_refused {other : String}
    (runs : change.filled.run? accepts database = some (next, 0))
    (requires : change.requirement = some (required, failure))
    (answers : change.filled.tag? 0 = some other) (isOther : other ≠ required) :
    IsAnswered accepts ⟨stored, some database⟩ (change :: batch) tags served ↔
      ∃ later, tags = other :: later ∧ served = ⟨stored, some next⟩ := by
  constructor
  · intro answered
    obtain ⟨calls, others, begins, used, goesOn⟩ := answered.exists_of_cons runs
    rw [answers] at used
    refine ⟨_, used, ?_⟩
    have ends := dialogue_of_refused requires isOther batch
      (others ++ (dialogue (change :: batch) tags).left)
    have sameCalls := begins.symm.trans (congrArg Dialogue.calls ((congrArg _ used).trans ends))
    rw [(List.cons.inj sameCalls).2] at goesOn
    cases goesOn
    rfl
  · rintro ⟨later, rfl, rfl⟩
    have answered := Server.Takes.cons (Server.take?_call stored runs) (.nil _)
    rw [answers] at answered
    refine ⟨[other], ?_, ?_⟩
    · rw [dialogue_of_refused requires isOther]
      rfl
    · rw [dialogue_of_refused requires isOther]
      exact answered

theorem exists_isAnswered (stored : Database) (consistent : (Database.ofRows rows).IsConsistent)
    (adds : batch.Adds rows) (fits : batch.Fits accepts) :
    ∃ tags served, IsAnswered accepts ⟨stored, some (.ofRows rows)⟩ batch tags served := by
  induction batch generalizing rows with
  | nil => exact ⟨[], _, [], rfl, .nil _⟩
  | cons change batch induction =>
      obtain ⟨firstAdds, restAdds⟩ := adds
      obtain ⟨firstFits, restFits⟩ := List.forall_mem_cons.mp fits
      cases applied : rows.apply change with
      | error failure =>
          have runs := Database.run?_of_apply_eq_error consistent firstFits applied
          obtain ⟨required, other, requires, answers, isOther⟩ :=
            Change.requirement_of_apply_eq_error applied
          exact ⟨[other], _,
            (isAnswered_cons_of_refused runs requires answers isOther).mpr ⟨[], rfl, rfl⟩⟩
      | ok middle =>
          have runs := Database.run?_of_apply_eq_ok consistent firstFits firstAdds applied
          have remains := Database.isConsistent_apply consistent firstAdds applied
          obtain ⟨tags, served, answered⟩ := induction remains (restAdds middle applied) restFits
          exact ⟨_, served, (isAnswered_cons_of_required runs).mpr ⟨tags, rfl, answered⟩⟩

/-- A batch that a server answers ends as it does on rows, and the tables hold these rows. -/
theorem outcome_of_isAnswered (consistent : (Database.ofRows rows).IsConsistent)
    (adds : batch.Adds rows) (fits : batch.Fits accepts)
    (answered : IsAnswered accepts ⟨stored, some (.ofRows rows)⟩ batch tags served) :
    (batch.dialogue tags).outcome = (rows.save batch).1 ∧
      ∃ database, served = ⟨stored, some database⟩ ∧
        ∀ after, rows.commit batch = .ok after → database = .ofRows after := by
  induction batch generalizing rows tags with
  | nil =>
      obtain ⟨answers, used, takes⟩ := answered
      cases takes
      exact ⟨rfl, _, rfl, fun after committed => congrArg _ (Except.ok.inj committed)⟩
  | cons change batch induction =>
      obtain ⟨firstAdds, restAdds⟩ := adds
      obtain ⟨firstFits, restFits⟩ := List.forall_mem_cons.mp fits
      cases applied : rows.apply change with
      | error failure =>
          have runs := Database.run?_of_apply_eq_error consistent firstFits applied
          obtain ⟨required, other, requires, answers, isOther⟩ :=
            Change.requirement_of_apply_eq_error applied
          obtain ⟨later, rfl, rfl⟩ :=
            (isAnswered_cons_of_refused runs requires answers isOther).mp answered
          have refused : rows.commit (change :: batch) = .error failure := by
            rw [Rows.commit_cons, applied]
            rfl
          rw [dialogue_of_refused requires isOther, (Rows.save_eq_error_iff.mpr ⟨refused, rfl⟩)]
          refine ⟨rfl, _, rfl, fun after committed => ?_⟩
          cases refused.symm.trans committed
      | ok middle =>
          have runs := Database.run?_of_apply_eq_ok consistent firstFits firstAdds applied
          have remains := Database.isConsistent_apply consistent firstAdds applied
          obtain ⟨later, rfl, restAnswered⟩ := (isAnswered_cons_of_required runs).mp answered
          have same : rows.commit (change :: batch) = middle.commit batch := by
            rw [Rows.commit_cons, applied]
            rfl
          obtain ⟨outcome, reached⟩ :=
            induction remains (restAdds middle applied) restFits restAnswered
          rw [dialogue_of_required, outcome, same]
          refine ⟨?_, reached⟩
          rw [Rows.save, Rows.save, same]
          cases middle.commit batch <;> rfl

end Batch

/-! ### A commit -/

namespace Server

variable {connection : Connection}

theorem takes_opening {server : Server} : server.Takes accepts connection.opening server [] := by
  have creates (texts : List String) (declared : ∀ text ∈ texts, text ∈ Connection.schema) :
      server.Takes accepts (texts.map fun text => .execute text []) server [] := by
    induction texts with
    | nil => exact .nil server
    | cons text texts induction =>
        obtain ⟨first, others⟩ := List.forall_mem_cons.mp declared
        exact .quiet (if_pos first) (induction others)
  rw [Connection.opening]
  split
  · exact .quiet rfl (.nil server)
  · exact .quiet rfl (creates _ fun _ member => member)

/-- What is left when a transaction ends. -/
def ended (stored database : Database) : Except Failure Unit → Server
  | .ok _ => ⟨database, none⟩
  | .error _ => ⟨stored, none⟩

variable {outcome : Except Failure Unit} {middle : Server}

theorem takes_ending :
    Takes accepts ⟨stored, some database⟩ [Connection.ending outcome, .close]
      (ended stored database outcome) [] := by
  cases outcome with
  | ok => exact .quiet rfl (.quiet rfl (.nil _))
  | error => exact .quiet rfl (.quiet rfl (.nil _))

theorem tags_eq_nil_of_ending
    (takes : middle.Takes accepts [Connection.ending outcome, .close] served tags) : tags = [] := by
  obtain ⟨stored, working⟩ := middle
  cases takes with
  | cons taken rest =>
      cases rest with
      | cons closed done =>
          cases done
          cases outcome <;> cases working <;> cases taken <;> cases closed <;> rfl

/-- The server answers a commit if it answers the statements and the transaction then ends. -/
theorem answers_commit_iff (connection : Connection) (accepting : connection.refusals = 0) :
    Answers accepts ⟨stored, none⟩ connection ((Connection.commit batch).run.run connection).2
        served ↔
      ∃ middle, batch.IsAnswered accepts ⟨stored, some stored⟩ connection.tags middle ∧
        middle.Takes accepts
          [Connection.ending (batch.dialogue connection.tags).outcome, .close] served [] := by
  have opens : Takes accepts ⟨stored, none⟩ (connection.opening ++ [.begin])
      ⟨stored, some stored⟩ [] := takes_opening.append (.quiet rfl (.nil _))
  rw [Answers, Connection.run_commit connection accepting]
  constructor
  · rintro ⟨calls, tags, sent, used, takes⟩
    rw [← List.reverse_injective (List.append_cancel_right sent)] at takes
    obtain ⟨opened, early, late, opening, goesOn, rfl⟩ := takes.exists_of_append
    obtain ⟨rfl, rfl⟩ := opens.unique opening
    obtain ⟨middle, answers, last, statements, ends, rfl⟩ := goesOn.exists_of_append
    obtain rfl := tags_eq_nil_of_ending ends
    rw [List.nil_append, List.append_nil] at used
    exact ⟨middle, ⟨answers, used, statements⟩, ends⟩
  · rintro ⟨middle, ⟨answers, used, statements⟩, ends⟩
    refine ⟨_, answers, rfl, used, ?_⟩
    have takes := opens.append (statements.append ends)
    rwa [List.nil_append, List.append_nil] at takes

theorem ended_save {database : Database}
    (reached : ∀ after, rows.commit batch = .ok after → database = .ofRows after) :
    ended (.ofRows rows) database (rows.save batch).1 = holding (rows.save batch).2 := by
  rw [Rows.save]
  cases committed : rows.commit batch with
  | ok after => exact congrArg (Server.mk · none) (reached after committed)
  | error failure => rfl

theorem transacts_iff {outcome : Except Failure Unit} (accepting : connection.refusals = 0)
    (consistent : (Database.ofRows rows).IsConsistent) (adds : batch.Adds rows)
    (fits : batch.Fits accepts) :
    (holding rows).Transacts accepts connection batch outcome served ↔
      outcome = (rows.save batch).1 ∧ served = .holding (rows.save batch).2 := by
  have ends {tags : List String} {middle : Server}
      (answered : batch.IsAnswered accepts ⟨.ofRows rows, some (.ofRows rows)⟩ tags middle) :
      (batch.dialogue tags).outcome = (rows.save batch).1 ∧
        middle.Takes accepts [Connection.ending (batch.dialogue tags).outcome, .close]
          (holding (rows.save batch).2) [] := by
    obtain ⟨same, database, rfl, reached⟩ :=
      Batch.outcome_of_isAnswered consistent adds fits answered
    refine ⟨same, ?_⟩
    rw [← ended_save reached, same]
    exact takes_ending
  constructor
  · rintro ⟨tags, rfl, answers⟩
    obtain ⟨middle, answered, ending⟩ :=
      (answers_commit_iff { connection with tags } accepting).mp answers
    obtain ⟨same, takes⟩ := ends answered
    constructor
    · rw [← same, Connection.run_commit { connection with tags } accepting]
    · exact (takes.unique ending).1
  · rintro ⟨rfl, rfl⟩
    obtain ⟨tags, middle, isAnswered⟩ :=
      Batch.exists_isAnswered (.ofRows rows) consistent adds fits
    obtain ⟨same, takes⟩ := ends isAnswered
    refine ⟨tags, ?_, ?_⟩
    · rw [← same, Connection.run_commit { connection with tags } accepting]
    · exact (answers_commit_iff { connection with tags } accepting).mpr
        ⟨middle, isAnswered, takes⟩

end Server

/-- **A batch sent in one transaction ends as on rows in memory.**  Each statement numbers its
arguments one by one and says which of them is written or compared, an update of any columns
included.  What is assigned is the new value, a status as its number, and a client reads from the
rows of the server the rows that these hold.  On a server that holds the rows of a store, the batch
has the outcome that it has on these rows, and the server then holds the rows that it leads to.
Whatever fails was based on data that has changed.  What the columns accept is left open, as long
as they accept what is sent. -/
theorem Connection.commit_agrees_with_rows (accepts : Column → Datum → Bool)
    {connection : Connection} (accepting : connection.refusals = 0)
    (consistent : (Database.ofRows rows).IsConsistent) (adds : batch.Adds rows)
    (fits : batch.Fits accepts) :
    (∀ change, (Command.ofChange change).Sends change.filled) ∧
    (∀ table changes conditions, changes ≠ [] → conditions ≠ [] →
      (Command.update table changes conditions).Sends (.update table changes conditions)) ∧
    ((∀ (update : ProcessUpdate) column datum,
        (column, datum) ∈ update.columns ↔ update.Sets column datum) ∧
      ∀ (update : StepUpdate) changed column datum,
        (column, datum) ∈ update.columns changed ↔ update.Sets changed column datum) ∧
    ((∀ process : Process, (Table.process.received process.row).process = .ok process) ∧
      (∀ (step : Step) status, step.status = some status →
        (Table.processStep.received step.row).step = .ok step) ∧
      Function.Injective Step.row) ∧
    (∀ outcome served,
      (Server.holding rows).Transacts accepts connection batch outcome served ↔
        outcome = (rows.save batch).1 ∧ served = .holding (rows.save batch).2) ∧
    ∀ failure, (rows.save batch).1 = .error failure → failure.isStale := by
  refine ⟨Command.ofChange_sends, fun _ _ _ => Command.update_sends,
    ⟨fun _ _ _ => ProcessUpdate.mem_columns_iff, fun _ _ _ _ => StepUpdate.mem_columns_iff⟩,
    ⟨Process.read_row, fun _ _ => Step.read_row, Step.row_injective⟩,
    fun outcome served => ?_, ?_⟩
  · rw [Server.transacts_iff accepting consistent adds fits]
  · intro failure refused
    have saved : rows.save batch = (.error failure, (rows.save batch).2) := Prod.ext refused rfl
    exact Rows.isStale_of_commit_eq_error (Rows.save_eq_error_iff.mp saved).1

/-- A batch that expects an old version is rolled back, with the step that it has inserted. -/
theorem Connection.stale_batch_rolled_back :
    let rows : Rows :=
      ⟨[⟨.ofNat 1, .setupDim, 1, none⟩],
        [⟨.ofNat 2, .createSubaccount, some .todo, .ofNat 1, ⟨0, 0⟩, none, none⟩]⟩
    let batch : Batch :=
      [.insertStep ⟨.ofNat 3, .assignEntitlements, some .todo, .ofNat 1, ⟨0, 0⟩, none, none⟩,
        .updateProcess (.ofNat 1) 0 ⟨1, .keep⟩]
    let connection : Connection := ⟨"postgresql://localhost/workflow", false, 0, [], [], []⟩
    (Server.holding rows).Transacts Column.accepts connection batch
      (.error (.staleProcess (.ofNat 1) 0)) (.holding rows) := by
  intro rows batch connection
  have accepting : connection.refusals = 0 := rfl
  have consistent : (Database.ofRows rows).IsConsistent := by decide
  have adds : batch.Adds rows := ⟨⟨rfl, rfl⟩, fun _ _ => ⟨trivial, fun _ _ => trivial⟩⟩
  have fits : ∀ change ∈ batch, ∀ cell ∈ change.filled.cells, Column.accepts cell.1 cell.2 := by
    decide
  obtain ⟨-, -, -, -, transacts, -⟩ :=
    commit_agrees_with_rows Column.accepts accepting consistent adds fits
  exact (transacts _ _).mpr ⟨rfl, rfl⟩

end Statements

end Workflow
