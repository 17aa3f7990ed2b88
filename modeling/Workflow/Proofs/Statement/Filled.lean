import Workflow.Proofs.Statement.Reader

/-!
# Statements with their arguments

A statement and its arguments together say which value goes into which column and which value a
column is compared with.  The server reads this from the text: the placeholder with a number
stands for the argument of that number, and there are as many arguments as the greatest number.
What a command writes and compares is found again by this reading.
-/

namespace Workflow

/-- A statement with values in place of its placeholders. -/
inductive Filled where
  | insert (table : Table) (values : List (Column × Datum))
  | update (table : Table) (changes conditions : List (Column × Datum))
  | delete (table : Table) (conditions : List (Column × Datum))
deriving DecidableEq, Repr

/-- A column with the argument of its number; the first argument has the number one. -/
def Slot.fill? (arguments : List Datum) (slot : Slot) : Option (Column × Datum) :=
  match slot.number with
  | 0 => none
  | number + 1 => arguments[number]?.map fun datum => (slot.column, datum)

def Statement.fill? (arguments : List Datum) : Statement → Option Filled
  | insert table values => do
    return .insert table (← values.mapM (Slot.fill? arguments))
  | update table assignments conditions => do
    return .update table (← assignments.mapM (Slot.fill? arguments))
      (← conditions.mapM (Slot.fill? arguments))
  | delete table conditions => do
    return .delete table (← conditions.mapM (Slot.fill? arguments))

/-- What a server understands when it gets a text and arguments. -/
def Filled.read? (text : String) (arguments : List Datum) : Option Filled :=
  if (Statement.placeholders text).foldr max 0 = arguments.length then
    (Statement.read? text).bind (Statement.fill? arguments)
  else none

/-- The text of the command numbers its arguments from one, each of them once, and together they
mean the given statement. -/
structure Command.Sends (command : Command) (filled : Filled) : Prop where
  numbered : Statement.placeholders command.statement.text =
    List.range' 1 command.arguments.length
  means : Filled.read? command.statement.text command.arguments = some filled

/-! ### Numbered columns -/

namespace Slot

variable {first : Nat} {columns : List Column} {pairs : List (Column × Datum)}
  {front back : List Datum}

theorem ofColumns_cons {column : Column} :
    ofColumns first (column :: columns) = ⟨column, first⟩ :: ofColumns (first + 1) columns :=
  rfl

theorem ofColumns_eq_nil_iff : ofColumns first columns = [] ↔ columns = [] := by
  simp [ofColumns]

theorem map_number_ofColumns :
    (ofColumns first columns).map number = List.range' first columns.length := by
  induction columns generalizing first with
  | nil => rfl
  | cons column columns induction =>
      rw [ofColumns_cons, List.map_cons, induction, List.length_cons, List.range'_succ]

/-- Numbered columns get their arguments, wherever these begin. -/
theorem mapM_fill?_ofColumns :
    (ofColumns (front.length + 1) (pairs.map Prod.fst)).mapM
        (fill? (front ++ pairs.map Prod.snd ++ back)) = some pairs := by
  induction pairs generalizing front with
  | nil => rfl
  | cons pair pairs induction =>
      obtain ⟨column, datum⟩ := pair
      have first : fill? (front ++ (datum :: pairs.map Prod.snd) ++ back)
          ⟨column, front.length + 1⟩ = some (column, datum) := by
        simp [fill?]
      have others := @induction (front ++ [datum])
      rw [List.length_append, List.length_singleton, List.append_assoc front,
        List.singleton_append] at others
      rw [List.map_cons, List.map_cons, ofColumns_cons, List.mapM_cons, first, others]
      rfl

end Slot

theorem foldr_max_range' {least count : Nat} :
    (List.range' 1 count).foldr max least = max least count := by
  induction count generalizing least with
  | zero => rw [List.range'_zero, List.foldr_nil, Nat.max_zero]
  | succ count induction =>
      rw [List.range'_concat, List.foldr_append, induction]
      simp only [List.foldr_cons, List.foldr_nil]
      omega

/-! ### Commands -/

namespace Command

variable {table : Table} {values changes conditions : List (Column × Datum)}

/-- A command whose columns are numbered throughout sends what its arguments make of it. -/
theorem sends_of_fill? {command : Command} {filled : Filled}
    (isFilled : command.statement.IsFilled)
    (numbered : command.statement.slots.map Slot.number =
      List.range' 1 command.arguments.length)
    (fills : command.statement.fill? command.arguments = some filled) :
    command.Sends filled := by
  have placeholders : Statement.placeholders command.statement.text =
      List.range' 1 command.arguments.length :=
    Statement.placeholders_text.trans numbered
  refine ⟨placeholders, ?_⟩
  rw [Filled.read?, placeholders, foldr_max_range', Nat.zero_max, if_pos rfl,
    Statement.read?_text isFilled]
  exact fills

theorem insert_sends (filled : values ≠ []) :
    (insert table values).Sends (.insert table values) := by
  apply sends_of_fill?
  · exact fun isEmpty => filled (List.map_eq_nil_iff.mp (Slot.ofColumns_eq_nil_iff.mp isEmpty))
  · simp [insert, Statement.slots, Slot.map_number_ofColumns]
  · have fills := @Slot.mapM_fill?_ofColumns values [] []
    rw [List.length_nil, List.nil_append, List.append_nil] at fills
    simp only [insert, Statement.fill?]
    rw [fills]
    rfl

/-- **An update of any columns under any conditions** numbers its arguments one by one, sets each
column to its new value and compares each other column with the value asked for. -/
theorem update_sends (changed : changes ≠ []) (conditional : conditions ≠ []) :
    (update table changes conditions).Sends (.update table changes conditions) := by
  apply sends_of_fill?
  · constructor
    · exact fun isEmpty => changed (List.map_eq_nil_iff.mp (Slot.ofColumns_eq_nil_iff.mp isEmpty))
    · exact fun isEmpty =>
        conditional (List.map_eq_nil_iff.mp (Slot.ofColumns_eq_nil_iff.mp isEmpty))
  · simp only [update, Statement.slots, List.map_append, Slot.map_number_ofColumns,
      List.length_map, List.length_append]
    rw [Nat.add_comm, List.range'_append_1]
  · have assigns := @Slot.mapM_fill?_ofColumns changes [] (conditions.map Prod.snd)
    have compares := @Slot.mapM_fill?_ofColumns conditions (changes.map Prod.snd) []
    rw [List.length_nil, List.nil_append] at assigns
    rw [List.length_map, List.append_nil] at compares
    simp only [update, Statement.fill?]
    rw [assigns, compares]
    rfl

example :
    (update .process [(.version, .integer 2), (.lockExpiry, .null)]
      [(.id, .id (.ofNat 1)), (.version, .integer 1)]).statement.text =
    "UPDATE process SET version = $1, lock_expiry = $2 WHERE id = $3 AND version = $4" := by
  rfl

theorem delete_sends (conditional : conditions ≠ []) :
    (delete table conditions).Sends (.delete table conditions) := by
  apply sends_of_fill?
  · exact fun isEmpty =>
      conditional (List.map_eq_nil_iff.mp (Slot.ofColumns_eq_nil_iff.mp isEmpty))
  · simp [delete, Statement.slots, Slot.map_number_ofColumns]
  · have fills := @Slot.mapM_fill?_ofColumns conditions [] []
    rw [List.length_nil, List.nil_append, List.append_nil] at fills
    simp only [delete, Statement.fill?]
    rw [fills]
    rfl

end Command

end Workflow
