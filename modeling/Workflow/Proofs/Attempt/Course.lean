import Workflow.Proofs.Attempt.Rules

/-!
# The course of a program

Under rules a program goes from one request to the next, and others may act in between.
`Program.Leads` tells how far it has come.  What a program may ask is certain wherever
its course leads, and so is what the state records of its requests.

A conversation is the course of a program whose surroundings reply whatever they like.
-/

namespace Workflow

/-- What a program can come to: what is left of it, and the state. -/
inductive Program.Leads {σ α : Type} (rules : Rules σ) (program : Program α) (start : σ) :
    Program α → σ → Prop where
  | start : Leads rules program start program start
  | step {request : Request} {rest : request.Reply → Program α} {state later next : σ}
      {reply : request.Reply} (leads : Leads rules program start (.ask request rest) state)
      (others : rules.others state later) (answers : rules.answers later request reply next) :
      Leads rules program start (rest reply) next

/-- A state records every request in a log, and the entry is correct if the request was
allowed. -/
structure Rules.Records {σ ε : Type} (rules : Rules σ) (log : σ → List ε)
    (correct : List ε → ε → Prop) : Prop where
  others : ∀ {state later}, rules.others state later → log later = log state
  answers : ∀ {state request reply next}, rules.mayAsk state request →
    rules.answers state request reply next →
      ∃ entry, log next = log state ++ [entry] ∧ correct (log state) entry

namespace Program

variable {σ ε α β : Type} {rules : Rules σ} {program rest : Program α} {start state : σ}
  {post : α → σ → Prop}

theorem Leads.obeys (leads : program.Leads rules start rest state)
    (obeys : program.Obeys rules post start) : rest.Obeys rules post state := by
  induction leads with
  | start => exact obeys
  | step _ others answers induction => exact (induction _ others).2 _ _ answers

theorem Leads.imp {lenient : Rules σ} (leads : program.Leads rules start rest state)
    (others : ∀ {state later}, rules.others state later → lenient.others state later)
    (answers : ∀ {state request reply next}, rules.answers state request reply next →
      lenient.answers state request reply next) :
    program.Leads lenient start rest state := by
  induction leads with
  | start => exact .start
  | step _ waited answered induction => exact .step induction (others waited) (answers answered)

/-- Whatever has been recorded was correct at the time. -/
theorem Leads.correct {log : σ → List ε} {correct : List ε → ε → Prop}
    (leads : program.Leads rules start rest state) (obeys : program.Obeys rules post start)
    (records : rules.Records log correct) (begins : log start = []) :
    ∀ earlier entry after, log state = earlier ++ entry :: after → correct earlier entry := by
  induction leads with
  | start =>
      intro earlier entry after whole
      simp [begins] at whole
  | @step request _ state later next reply leads others answers induction =>
      intro earlier entry after whole
      obtain ⟨last, extended, isCorrect⟩ :=
        records.answers ((leads.obeys obeys) _ others).1 answers
      rw [records.others others] at extended isCorrect
      rcases List.eq_nil_or_concat after with rfl | ⟨shorter, final, rfl⟩
      · obtain ⟨rfl, same⟩ := List.append_inj' (whole.symm.trans extended) rfl
        obtain rfl := List.singleton_inj.mp same
        exact isCorrect
      · refine induction earlier entry shorter ?_
        have regrouped : earlier ++ entry :: shorter ++ [final] = log state ++ [last] := by
          rw [← extended, whole]
          simp
        exact (List.append_inj' regrouped rfl).1.symm

/-! ### Programs with finitely many requests -/

/-- A program that ends after at most so many requests, whatever it is answered. -/
def Within : Nat → Program α → Prop
  | _, done _ => True
  | 0, ask _ _ => False
  | limit + 1, ask _ rest => ∀ reply, (rest reply).Within limit

variable {limit more : Nat}

theorem within_done {value : α} : (done value).Within limit := by
  cases limit <;> trivial

theorem Within.mono {program : Program α} (within : program.Within limit)
    (larger : limit ≤ more) : program.Within more := by
  induction program generalizing limit more with
  | done value => exact within_done
  | ask request rest induction =>
      cases limit with
      | zero => cases within
      | succ limit =>
          cases more with
          | zero => cases larger
          | succ more =>
              exact fun reply => induction reply (within reply) (Nat.le_of_succ_le_succ larger)

theorem Within.bind {program : Program α} {next : α → Program β}
    (within : program.Within limit) (following : ∀ value, (next value).Within more) :
    (program.bind next).Within (limit + more) := by
  induction program generalizing limit with
  | done value => exact (following value).mono (Nat.le_add_left _ _)
  | ask request rest induction =>
      cases limit with
      | zero => cases within
      | succ limit =>
          rw [Nat.succ_add_eq_add_succ]
          exact fun reply => induction reply (within reply)

end Program

namespace Action

variable {α β : Type} {limit more : Nat}

/-- An action that ends after at most so many requests. -/
def Within (limit : Nat) (action : Action α) : Prop :=
  action.run.Within limit

theorem within_pure {value : α} : Within limit (pure value) :=
  Program.within_done

theorem within_throw {failure : Failure} : Within limit (throw failure : Action α) :=
  Program.within_done

theorem within_ofExcept {outcome : Except Failure α} : Within limit (ofExcept outcome) :=
  Program.within_done

theorem within_ask {request : Request} : Within 1 (ask request) :=
  fun _ => Program.within_done

theorem Within.mono {action : Action α} (within : Within limit action) (larger : limit ≤ more) :
    Within more action :=
  Program.Within.mono within larger

theorem Within.bind {action : Action α} {next : α → Action β} (within : Within limit action)
    (following : ∀ value, Within more (next value)) : Within (limit + more) (action >>= next) := by
  apply Program.Within.bind within
  intro outcome
  cases outcome with
  | ok value => exact following value
  | error failure => exact Program.within_done

theorem Within.ofExcept_bind {outcome : Except Failure α} {next : α → Action β}
    (following : ∀ value, Within limit (next value)) :
    Within limit (ofExcept outcome >>= next) := by
  cases outcome with
  | ok value => exact following value
  | error failure => exact Program.within_done

end Action

/-! ### Conversations -/

/-- A request and the reply to it. -/
structure Turn where
  request : Request
  reply : request.Reply

/-- The surroundings reply whatever they like, and everything said is remembered. -/
def Turn.rules (mayAsk : List Turn → Request → Prop) : Rules (List Turn) where
  others said later := later = said
  mayAsk := mayAsk
  answers said request reply next := next = said ++ [⟨request, reply⟩]

namespace Turn

variable {mayAsk : List Turn → Request → Prop} {assertion : List Turn → Prop}

theorem stable : (rules mayAsk).Stable assertion :=
  fun _ _ holds (same : _ = _) => same ▸ holds

theorem records :
    (rules mayAsk).Records id fun earlier (turn : Turn) => mayAsk earlier turn.request where
  others same := same
  answers isAllowed answered := ⟨_, answered, isAllowed⟩

end Turn

/-- What a program can come to in a conversation, which begins with it. -/
abbrev Program.Converses {α : Type} (program : Program α) (said : List Turn)
    (rest : Program α) : Prop :=
  program.Leads (Turn.rules fun _ _ => True) [] rest said

namespace Program.Converses

variable {α : Type} {program rest : Program α} {said : List Turn}

theorem answer {left : Program α} (converses : program.Converses said left) (request : Request)
    {next : request.Reply → Program α} (asks : left = .ask request next) (reply : request.Reply) :
    program.Converses (said ++ [⟨request, reply⟩]) (next reply) := by
  subst asks
  exact .step converses rfl rfl

/-- What a conversation leads to does not depend on what may be asked. -/
theorem leads (converses : program.Converses said rest) (mayAsk : List Turn → Request → Prop) :
    program.Leads (Turn.rules mayAsk) [] rest said :=
  converses.imp (fun others => others) (fun answers => answers)

/-- A program that may ask what it asks says only what it may. -/
theorem mayAsk {mayAsk : List Turn → Request → Prop} {post : α → List Turn → Prop}
    (converses : program.Converses said rest) (obeys : program.Obeys (Turn.rules mayAsk) post []) :
    ∀ earlier turn after, said = earlier ++ turn :: after → mayAsk earlier turn.request :=
  (converses.leads mayAsk).correct obeys Turn.records rfl

/-- A conversation comes to its end: it has no more turns than the program has requests. -/
theorem length_le {limit : Nat} (converses : program.Converses said rest)
    (within : program.Within limit) : said.length ≤ limit := by
  have remaining : ∃ left, rest.Within left ∧ said.length + left = limit := by
    induction converses with
    | start => exact ⟨limit, within, Nat.zero_add limit⟩
    | step _ others answers induction =>
        obtain ⟨left, withinLeft, total⟩ := induction
        cases left with
        | zero => cases withinLeft
        | succ left =>
            have same := others
            have extended := answers
            subst same extended
            refine ⟨left, withinLeft _, ?_⟩
            rw [List.length_append, List.length_singleton]
            omega
  obtain ⟨left, _, total⟩ := remaining
  omega

end Program.Converses

end Workflow
