import Workflow.Connection

/-!
# What a commit sends

A commit opens a connection, begins a transaction and sends one statement for each change until an
answer is not the required one.  Then it commits or rolls back, and it closes the connection.
Which answers it gets decides how far it comes and nothing else.
-/

namespace Workflow

/-- What becomes of the statements of a batch. -/
structure Dialogue where
  outcome : Except Failure Unit
  /-- What is sent, in order. -/
  calls : List Call
  /-- The answers that nobody has asked for. -/
  left : List String

def Command.call (command : Command) : Call :=
  .execute command.statement.text command.arguments

/-- The statements of a batch until an answer is not the required one. -/
def Batch.dialogue : Batch → List String → Dialogue
  | [], tags => ⟨.ok (), [], tags⟩
  | change :: rest, tags =>
    let call := (Command.ofChange change).call
    match change.requirement with
    | none =>
      let others := dialogue rest tags
      { others with calls := call :: others.calls }
    | some (required, failure) =>
      if tags.headD required = required then
        let others := dialogue rest tags.tail
        { others with calls := call :: others.calls }
      else ⟨.error failure, [call], tags.tail⟩

namespace Connection

variable {batch : Batch} {connection : Connection}

theorem run_bind {α β : Type} {action : Client α} {next : α → Client β} :
    (action >>= next).run.run connection =
      match action.run.run connection with
      | (.ok value, after) => (next value).run.run after
      | (.error failure, after) => (.error failure, after) := by
  simp only [ExceptT.run_bind, StateT.run_bind]
  rcases action.run.run connection with ⟨outcome, after⟩
  cases outcome <;> rfl

theorem run_forM_cons {α : Type} {item : α} {items : List α} {action : α → Client Unit} :
    ((item :: items).forM action).run.run connection =
      (action item >>= fun _ => items.forM action).run.run connection := rfl

theorem run_send {call : Call} :
    (send call).run.run connection =
      (.ok (), { connection with sent := call :: connection.sent }) := rfl

theorem run_nextTag {usual : String} :
    (nextTag usual).run.run connection =
      (.ok (connection.tags.headD usual), { connection with tags := connection.tags.tail }) := by
  obtain ⟨address, prepared, refusals, tags, replies, sent⟩ := connection
  cases tags <;> rfl

theorem run_execute {change : Change} :
    (execute change).run.run connection =
      match change.requirement with
      | none => (.ok (),
        { connection with sent := (Command.ofChange change).call :: connection.sent })
      | some (required, failure) =>
        (if connection.tags.headD required = required then .ok () else .error failure,
          { connection with
            sent := (Command.ofChange change).call :: connection.sent
            tags := connection.tags.tail }) := by
  rw [execute, run_bind, run_send]
  cases change.requirement with
  | none => rfl
  | some requirement =>
      obtain ⟨required, failure⟩ := requirement
      simp only [run_bind, run_nextTag]
      by_cases isRequired : connection.tags.headD required = required
      · rw [if_neg (not_not_intro isRequired), if_pos isRequired]
        rfl
      · rw [if_pos isRequired, if_neg isRequired]
        rfl

/-- The statements of a batch are sent until one of them is not answered as required. -/
theorem run_forM_execute :
    (batch.forM execute).run.run connection =
      ((batch.dialogue connection.tags).outcome,
        { connection with
          tags := (batch.dialogue connection.tags).left
          sent := (batch.dialogue connection.tags).calls.reverse ++ connection.sent }) := by
  induction batch generalizing connection with
  | nil => rfl
  | cons change rest induction =>
      rw [run_forM_cons, run_bind, run_execute, Batch.dialogue]
      cases change.requirement with
      | none =>
          simp only [induction, List.reverse_cons, List.append_assoc, List.singleton_append]
      | some requirement =>
          obtain ⟨required, failure⟩ := requirement
          by_cases isRequired : connection.tags.headD required = required
          · simp only [if_pos isRequired, induction, List.reverse_cons, List.append_assoc,
              List.singleton_append]
          · simp only [if_neg isRequired, List.reverse_singleton, List.singleton_append]

/-- What is sent to open a connection. -/
def opening (connection : Connection) : List Call :=
  .connect connection.address ::
    if connection.prepared then [] else schema.map fun text => .execute text []

theorem run_forM_send {texts : List String} :
    (texts.forM fun text => send (.execute text [])).run.run connection =
      (.ok (), { connection with
        sent := (texts.map fun text => .execute text []).reverse ++ connection.sent }) := by
  induction texts generalizing connection with
  | nil => rfl
  | cons text texts induction =>
      rw [run_forM_cons, run_bind, run_send]
      simp only [induction, List.map_cons, List.reverse_cons, List.append_assoc,
        List.singleton_append]

theorem run_connect (accepting : connection.refusals = 0) :
    connect.run.run connection =
      (.ok (), { connection with
        prepared := true
        sent := connection.opening.reverse ++ connection.sent }) := by
  obtain ⟨address, prepared, refusals, tags, replies, sent⟩ := connection
  subst accepting
  cases prepared with
  | true => rfl
  | false =>
      have unfolded : connect.run.run ⟨address, false, 0, tags, replies, sent⟩ =
          (schema.forM (fun text => send (.execute text [])) >>= fun _ =>
              modify fun connection => { connection with prepared := true }).run.run
            ⟨address, false, 0, tags, replies, .connect address :: sent⟩ := rfl
      rw [unfolded, run_bind, run_forM_send]
      rfl

theorem run_observing {α : Type} {action : Client α} :
    (withConnection.observing action).run.run connection =
      (.ok (action.run.run connection).1, (action.run.run connection).2) := rfl

theorem run_withConnection {α : Type} {action : Client α} (accepting : connection.refusals = 0) :
    (withConnection action).run.run connection =
      let ran := action.run.run { connection with
        prepared := true
        sent := connection.opening.reverse ++ connection.sent }
      (ran.1, { ran.2 with sent := .close :: ran.2.sent }) := by
  rw [withConnection, run_bind, run_connect accepting]
  rfl

/-- What is sent to end a transaction. -/
def ending : Except Failure Unit → Call
  | .ok _ => .commit
  | .error _ => .rollback

/-- What happens on an open connection. -/
def transaction (batch : Batch) : Client Unit := do
  send .begin
  match ← withConnection.observing (batch.forM execute) with
  | .ok _ => send .commit
  | .error failure =>
    send .rollback
    throw failure

theorem run_transaction :
    (transaction batch).run.run connection =
      ((batch.dialogue connection.tags).outcome,
        { connection with
          tags := (batch.dialogue connection.tags).left
          sent := ending (batch.dialogue connection.tags).outcome ::
            (batch.dialogue connection.tags).calls.reverse ++ .begin :: connection.sent }) := by
  rw [transaction, run_bind, run_send]
  simp only
  rw [run_bind, run_observing, run_forM_execute]
  cases (batch.dialogue connection.tags).outcome <;> rfl

/-- **What a commit sends**, and what it comes to. -/
theorem run_commit (connection : Connection) (accepting : connection.refusals = 0) :
    (commit batch).run.run connection =
      ((batch.dialogue connection.tags).outcome,
        { connection with
          prepared := true
          tags := (batch.dialogue connection.tags).left
          sent := ((connection.opening ++ [Call.begin]) ++
            ((batch.dialogue connection.tags).calls ++
              [ending (batch.dialogue connection.tags).outcome, .close])).reverse ++
                connection.sent }) := by
  have unfolded : commit batch = withConnection (transaction batch) := rfl
  rw [unfolded, run_withConnection accepting, run_transaction]
  simp

end Connection

end Workflow
