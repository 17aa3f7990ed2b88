import Workflow.Statement

/-!
# Statements read from their texts

A server gets the text of a statement.  The text is cut into tokens, which blanks and punctuation
separate, and the tokens are read by the grammar of the three kinds of statement.  Every text of
a statement that writes and compares something is read as that statement, so the text says which
placeholder stands for the value of which column.
-/

namespace Workflow

/-! ### Tokens -/

namespace Token

def isPunctuation (character : Char) : Bool :=
  character == '(' || character == ')' || character == ','

/-- Whether no token goes on past the character. -/
def isBreak (character : Char) : Bool :=
  character == ' ' || isPunctuation character

/-- The text with blanks around punctuation. -/
def spaced (text : List Char) : List Char :=
  text.flatMap fun character =>
    if isPunctuation character then [' ', character, ' '] else [character]

/-- The tokens of a text.  A mark of punctuation is a token of its own, a blank is none. -/
def tokens (text : List Char) : List String :=
  (((spaced text).splitOn ' ').filter fun word => !word.isEmpty).map String.ofList

def StartsApart (text : List Char) : Prop :=
  ∃ character, isBreak character ∧ text.head? = some character

def EndsApart (text : List Char) : Prop :=
  ∃ character, isBreak character ∧ text.getLast? = some character

variable {front back text separator : List Char} {character : Char}

theorem isBreak_iff : isBreak character ↔
    character = ' ' ∨ character = '(' ∨ character = ')' ∨ character = ',' := by
  simp [isBreak, isPunctuation, or_assoc]

theorem tokens_append_cons (breaks : isBreak character) :
    tokens (front ++ character :: back) = tokens front ++ tokens [character] ++ tokens back := by
  rcases isBreak_iff.mp breaks with rfl | rfl | rfl | rfl <;>
    simp [tokens, spaced, isPunctuation, List.splitOn, List.splitOnP_append_cons,
      List.splitOnP_cons_eq_if_modifyHead]

theorem tokens_nil : tokens [] = [] := rfl

theorem tokens_append_of_ends (apart : EndsApart front) :
    tokens (front ++ back) = tokens front ++ tokens back := by
  obtain ⟨character, breaks, isLast⟩ := apart
  obtain ⟨rest, rfl⟩ := List.getLast?_eq_some_iff.mp isLast
  rw [List.append_assoc, List.singleton_append, tokens_append_cons breaks,
    tokens_append_cons breaks, tokens_nil, List.append_nil]

theorem tokens_append_of_starts (apart : StartsApart back) :
    tokens (front ++ back) = tokens front ++ tokens back := by
  obtain ⟨character, breaks, isFirst⟩ := apart
  obtain ⟨rest, rfl⟩ := List.head?_eq_some_iff.mp isFirst
  have alone := @tokens_append_cons [] rest character breaks
  rw [List.nil_append, tokens_nil, List.nil_append] at alone
  rw [tokens_append_cons breaks, alone, List.append_assoc]

theorem tokens_append_append (starts : StartsApart separator) (ends : EndsApart separator) :
    tokens (front ++ separator ++ back) = tokens front ++ tokens separator ++ tokens back := by
  have apart : EndsApart (front ++ separator) := by
    obtain ⟨character, breaks, isLast⟩ := ends
    refine ⟨character, breaks, ?_⟩
    rw [List.getLast?_append, isLast, Option.some_or]
  rw [tokens_append_of_ends apart, tokens_append_of_starts starts]

theorem tokens_intercalate {texts : List (List Char)} (starts : StartsApart separator)
    (ends : EndsApart separator) :
    tokens (separator.intercalate texts) = (tokens separator).intercalate (texts.map tokens) := by
  induction texts with
  | nil => rfl
  | cons first rest induction =>
      cases rest with
      | nil => simp
      | cons second rest =>
          rw [List.intercalate_cons_cons, tokens_append_append starts ends, induction,
            List.map_cons, List.map_cons, List.map_cons, List.intercalate_cons_cons]

theorem tokens_word (filled : text ≠ []) (whole : ∀ character ∈ text, isBreak character = false) :
    tokens text = [String.ofList text] := by
  have same : spaced text = text := by
    refine Eq.trans ?_ (List.flatMap_singleton' text)
    rw [spaced, List.flatMap_def, List.flatMap_def]
    refine congrArg List.flatten (List.map_congr_left fun character member => ?_)
    rw [(Bool.or_eq_false_iff.mp (whole character member)).2]
    rfl
  have noBlank : ∀ character ∈ text, (character == ' ') = false := fun character member =>
    (Bool.or_eq_false_iff.mp (whole character member)).1
  simp [tokens, same, List.splitOn, List.splitOnP_eq_singleton noBlank, filled]

end Token

/-! ### The grammar -/

def Table.ofName? (word : String) : Option Table :=
  [process, processStep].find? fun table => table.name == word

def Column.ofName? (word : String) : Option Column :=
  [id, processTypeId, version, lockExpiry, processStepTypeId, processStepStatusId, processId,
    dateCreated, dateLastChanged, message].find? fun column => column.name == word

namespace Statement

/-- The number of a placeholder. -/
def numberOf? (token : String) : Option Nat :=
  match token.toList with
  | '$' :: digits =>
    if digits ≠ [] ∧ digits.all Char.isDigit then some (Nat.ofDigitChars 10 digits 0) else none
  | _ => none

/-- The numbers of the placeholders of a text, in order. -/
def placeholders (text : String) : List Nat :=
  (Token.tokens text.toList).filterMap numberOf?

def readColumn : List String → Option Column
  | [name] => Column.ofName? name
  | _ => none

def readNumber : List String → Option Nat
  | [token] => numberOf? token
  | _ => none

/-- A column, and the placeholder that it is set to or compared with. -/
def readSlot : List String → Option Slot
  | [name, "=", token] => do return ⟨← Column.ofName? name, ← numberOf? token⟩
  | _ => none

/-- Reads what stands between separators. -/
def readAll {α : Type} (separator : String) (read : List String → Option α)
    (tokens : List String) : Option (List α) :=
  (tokens.splitOn separator).mapM read

def isParenthesis (token : String) : Bool :=
  token == "(" || token == ")"

def readInsert (table : String) (rest : List String) : Option Statement :=
  match rest.splitOnP isParenthesis with
  | [[], names, ["VALUES"], tokens, []] => do
    let table ← Table.ofName? table
    let columns ← readAll "," readColumn names
    let numbers ← readAll "," readNumber tokens
    if columns.length = numbers.length then
      return .insert table (columns.zipWith Slot.mk numbers)
    else none
  | _ => none

def readUpdate (table : String) (rest : List String) : Option Statement :=
  match rest.splitOn "WHERE" with
  | [assignments, conditions] => do
    let table ← Table.ofName? table
    let assignments ← readAll "," readSlot assignments
    let conditions ← readAll "AND" readSlot conditions
    return .update table assignments conditions
  | _ => none

def readDelete (table : String) (rest : List String) : Option Statement := do
  let table ← Table.ofName? table
  let conditions ← readAll "AND" readSlot rest
  return .delete table conditions

/-- The statement that a text writes. -/
def read? (text : String) : Option Statement :=
  match Token.tokens text.toList with
  | "INSERT" :: "INTO" :: table :: rest => readInsert table rest
  | "UPDATE" :: table :: "SET" :: rest => readUpdate table rest
  | "DELETE" :: "FROM" :: table :: "WHERE" :: rest => readDelete table rest
  | _ => none

/-- Nothing that the grammar asks for is missing. -/
def IsFilled : Statement → Prop
  | insert _ values => values ≠ []
  | update _ assignments conditions => assignments ≠ [] ∧ conditions ≠ []
  | delete _ conditions => conditions ≠ []

end Statement

/-! ### Words of the grammar -/

section Words

variable {table : Table} {column : Column} {slot : Slot}

theorem Table.ofName?_name : Table.ofName? table.name = some table := by
  cases table <;> rfl

theorem Column.ofName?_name : Column.ofName? column.name = some column := by
  cases column <;> rfl

theorem Table.tokens_name : Token.tokens table.name.toList = [table.name] := by
  cases table <;> rfl

theorem Column.tokens_name : Token.tokens column.name.toList = [column.name] := by
  cases column <;> rfl

theorem Slot.toList_placeholder :
    slot.placeholder.toList = '$' :: Nat.toDigits 10 slot.number := by
  rw [placeholder, String.toList_append, ← Nat.toList_repr]
  rfl

theorem isDigit_of_mem_toDigits {number : Nat} :
    ∀ character ∈ Nat.toDigits 10 number, character.isDigit :=
  fun _ => Nat.isDigit_of_mem_toDigits (by decide) (by decide)

theorem Slot.numberOf?_placeholder : Statement.numberOf? slot.placeholder = some slot.number := by
  have filled : Nat.toDigits 10 slot.number ≠ [] := Nat.toDigits_ne_nil
  have digits : (Nat.toDigits 10 slot.number).all Char.isDigit :=
    List.all_eq_true.mpr isDigit_of_mem_toDigits
  rw [Statement.numberOf?, toList_placeholder]
  simp only [if_pos (And.intro filled digits)]
  rw [Nat.ofDigitChars_toDigits (by decide) (by decide)]

theorem Slot.tokens_placeholder : Token.tokens slot.placeholder.toList = [slot.placeholder] := by
  have whole : ∀ character ∈ slot.placeholder.toList, Token.isBreak character = false := by
    intro character member
    rw [toList_placeholder] at member
    rcases List.mem_cons.mp member with rfl | inNumber
    · rfl
    · have isDigit := isDigit_of_mem_toDigits character inNumber
      refine Bool.eq_false_iff.mpr fun breaks => ?_
      rcases Token.isBreak_iff.mp breaks with rfl | rfl | rfl | rfl <;> cases isDigit
  rw [Token.tokens_word (by simp [toList_placeholder]) whole, String.ofList_toList]

theorem Slot.tokens_equation :
    Token.tokens slot.equation.toList = [slot.column.name, "=", slot.placeholder] := by
  rw [equation, String.toList_append, String.toList_append,
    Token.tokens_append_append ⟨' ', rfl, rfl⟩ ⟨' ', rfl, rfl⟩, Column.tokens_name,
    tokens_placeholder]
  rfl

/-! ### Reading what was written -/

namespace Statement

/-- The tokens that structure a text, none of which names anything. -/
def reserved : List String :=
  ["(", ")", ",", "WHERE", "AND"]

theorem name_notMem_reserved : column.name ∉ reserved := by
  cases column <;> decide

theorem placeholder_notMem_reserved : slot.placeholder ∉ reserved := by
  intro member
  have begins : slot.placeholder.toList.head? = some '$' := by
    rw [Slot.toList_placeholder]
    rfl
  have others : ∀ token ∈ reserved, token.toList.head? ≠ some '$' := by decide
  exact others _ member begins

theorem equation_notMem_reserved :
    ∀ token ∈ [slot.column.name, "=", slot.placeholder], token ∉ reserved := by
  simp only [List.forall_mem_cons]
  exact ⟨name_notMem_reserved, by decide, placeholder_notMem_reserved, nofun⟩

theorem mem_intercalate {separator token : String} {groups : List (List String)}
    (member : token ∈ [separator].intercalate groups) :
    token = separator ∨ ∃ group ∈ groups, token ∈ group := by
  induction groups with
  | nil => cases member
  | cons group rest induction =>
      cases rest with
      | nil =>
          rw [List.intercalate_singleton] at member
          exact .inr ⟨group, List.mem_cons_self, member⟩
      | cons other rest =>
          rw [List.intercalate_cons_cons, List.mem_append, List.mem_append] at member
          rcases member with (inGroup | isSeparator) | inRest
          · exact .inr ⟨group, List.mem_cons_self, inGroup⟩
          · exact .inl (List.mem_singleton.mp isSeparator)
          · rcases induction inRest with isSeparator | ⟨later, inGroups, inGroup⟩
            · exact .inl isSeparator
            · exact .inr ⟨later, List.mem_cons_of_mem _ inGroups, inGroup⟩

theorem notMem_intercalate {separator token : String} {values : List Slot}
    {cut : Slot → List String} (plain : ∀ slot, ∀ token ∈ cut slot, token ∉ reserved)
    (isReserved : token ∈ reserved) (other : token ≠ separator) :
    token ∉ [separator].intercalate (values.map cut) := by
  intro member
  rcases mem_intercalate member with isSeparator | ⟨group, inGroups, inGroup⟩
  · exact other isSeparator
  · obtain ⟨slot, _, rfl⟩ := List.mem_map.mp inGroups
    exact plain slot token inGroup isReserved

/-- What is written between separators is read back. -/
theorem readAll_intercalate {α : Type} {separator : String} {read : List String → Option α}
    {write : Slot → List String} {part : Slot → α} {values : List Slot} (filled : values ≠ [])
    (apart : ∀ slot, separator ∉ write slot)
    (reads : ∀ slot, read (write slot) = some (part slot)) :
    readAll separator read ([separator].intercalate (values.map write)) =
      some (values.map part) := by
  have groups : ([separator].intercalate (values.map write)).splitOn separator =
      values.map write := by
    refine List.splitOn_intercalate separator ?_ (by simpa using filled)
    intro group member
    obtain ⟨slot, _, rfl⟩ := List.mem_map.mp member
    exact apart slot
  rw [readAll, groups]
  clear groups filled
  induction values with
  | nil => rfl
  | cons slot values induction => simp [reads, induction]

/-! ### Texts -/

theorem tokens_list {separator : String} {values : List Slot} {write : Slot → String}
    {cut : Slot → List String} (starts : Token.StartsApart separator.toList)
    (ends : Token.EndsApart separator.toList)
    (cuts : ∀ slot, Token.tokens (write slot).toList = cut slot) :
    Token.tokens (separator.intercalate (values.map write)).toList =
      (Token.tokens separator.toList).intercalate (values.map cut) := by
  rw [String.toList_intercalate, Token.tokens_intercalate starts ends, List.map_map, List.map_map]
  exact congrArg _ (List.map_congr_left fun slot _ => cuts slot)

/-- The tokens of names with commas between them. -/
def names (slots : List Slot) : List String :=
  [","].intercalate (slots.map fun slot => [slot.column.name])

/-- The tokens of placeholders with commas between them. -/
def marks (slots : List Slot) : List String :=
  [","].intercalate (slots.map fun slot => [slot.placeholder])

/-- The tokens of equations with a separator between them. -/
def equations (separator : String) (slots : List Slot) : List String :=
  [separator].intercalate (slots.map fun slot => [slot.column.name, "=", slot.placeholder])

theorem tokens_names {slots : List Slot} :
    Token.tokens (", ".intercalate (slots.map fun slot => slot.column.name)).toList =
      names slots :=
  tokens_list ⟨',', rfl, rfl⟩ ⟨' ', rfl, rfl⟩ fun _ => Column.tokens_name

theorem tokens_marks {slots : List Slot} :
    Token.tokens (", ".intercalate (slots.map Slot.placeholder)).toList = marks slots :=
  tokens_list ⟨',', rfl, rfl⟩ ⟨' ', rfl, rfl⟩ fun _ => Slot.tokens_placeholder

theorem tokens_assignments {slots : List Slot} :
    Token.tokens (", ".intercalate (slots.map Slot.equation)).toList = equations "," slots :=
  tokens_list ⟨',', rfl, rfl⟩ ⟨' ', rfl, rfl⟩ fun _ => Slot.tokens_equation

theorem tokens_conditions {slots : List Slot} :
    Token.tokens (" AND ".intercalate (slots.map Slot.equation)).toList =
      equations "AND" slots :=
  tokens_list ⟨' ', rfl, rfl⟩ ⟨' ', rfl, rfl⟩ fun _ => Slot.tokens_equation

theorem tokens_insert {values : List Slot} :
    Token.tokens (insert table values).text.toList =
      "INSERT" :: "INTO" :: table.name ::
        "(" :: (names values ++ ")" :: "VALUES" :: "(" :: (marks values ++ [")"])) := by
  dsimp only [text]
  simp only [String.toList_append]
  rw [Token.tokens_append_of_starts ⟨')', rfl, rfl⟩,
    Token.tokens_append_append ⟨')', rfl, rfl⟩ ⟨'(', rfl, rfl⟩,
    Token.tokens_append_append ⟨' ', rfl, rfl⟩ ⟨'(', rfl, rfl⟩,
    Token.tokens_append_of_ends ⟨' ', rfl, rfl⟩, Table.tokens_name, tokens_names, tokens_marks]
  simp only [List.append_assoc]
  rfl

theorem tokens_update {assignments conditions : List Slot} :
    Token.tokens (update table assignments conditions).text.toList =
      "UPDATE" :: table.name :: "SET" ::
        (equations "," assignments ++ "WHERE" :: equations "AND" conditions) := by
  dsimp only [text]
  simp only [String.toList_append]
  rw [Token.tokens_append_append ⟨' ', rfl, rfl⟩ ⟨' ', rfl, rfl⟩,
    Token.tokens_append_append ⟨' ', rfl, rfl⟩ ⟨' ', rfl, rfl⟩,
    Token.tokens_append_of_ends ⟨' ', rfl, rfl⟩, Table.tokens_name, tokens_assignments,
    tokens_conditions]
  simp only [List.append_assoc]
  rfl

theorem tokens_delete {conditions : List Slot} :
    Token.tokens (delete table conditions).text.toList =
      "DELETE" :: "FROM" :: table.name :: "WHERE" :: equations "AND" conditions := by
  dsimp only [text]
  simp only [String.toList_append]
  rw [Token.tokens_append_append ⟨' ', rfl, rfl⟩ ⟨' ', rfl, rfl⟩,
    Token.tokens_append_of_ends ⟨' ', rfl, rfl⟩, Table.tokens_name, tokens_conditions]
  rfl

/-! ### Reading -/

theorem readSlot_equation : readSlot [slot.column.name, "=", slot.placeholder] = some slot := by
  rw [readSlot, Column.ofName?_name, Slot.numberOf?_placeholder]
  rfl

theorem column_notMem_reserved : ∀ token ∈ [slot.column.name], token ∉ reserved :=
  fun _ member => List.mem_singleton.mp member ▸ name_notMem_reserved

theorem mark_notMem_reserved : ∀ token ∈ [slot.placeholder], token ∉ reserved :=
  fun _ member => List.mem_singleton.mp member ▸ placeholder_notMem_reserved

section Lists

variable {slots : List Slot} (filled : slots ≠ [])
include filled

theorem readAll_names : readAll "," readColumn (names slots) = some (slots.map Slot.column) := by
  refine readAll_intercalate filled ?_ fun _ => Column.ofName?_name
  exact fun slot member => column_notMem_reserved _ member (by decide)

theorem readAll_marks : readAll "," readNumber (marks slots) = some (slots.map Slot.number) := by
  refine readAll_intercalate filled ?_ fun _ => Slot.numberOf?_placeholder
  exact fun slot member => mark_notMem_reserved _ member (by decide)

theorem readAll_equations {separator : String} (isReserved : separator ∈ reserved) :
    readAll separator readSlot (equations separator slots) = some slots := by
  have apart : ∀ slot : Slot, separator ∉ [slot.column.name, "=", slot.placeholder] :=
    fun slot member => equation_notMem_reserved separator member isReserved
  have read := readAll_intercalate filled apart fun slot => @readSlot_equation slot
  rw [List.map_id'] at read
  exact read

theorem readAll_assignments : readAll "," readSlot (equations "," slots) = some slots :=
  readAll_equations filled (by decide)

theorem readAll_conditions : readAll "AND" readSlot (equations "AND" slots) = some slots :=
  readAll_equations filled (by decide)

end Lists

theorem isParenthesis_of_mem {values : List Slot} {cut : Slot → List String}
    (plain : ∀ slot, ∀ token ∈ cut slot, token ∉ reserved) :
    ∀ token ∈ [","].intercalate (values.map cut), isParenthesis token = false := by
  intro token member
  rw [isParenthesis, Bool.or_eq_false_iff, beq_eq_false_iff_ne, beq_eq_false_iff_ne]
  constructor
  · rintro rfl
    exact notMem_intercalate plain (by decide) (by decide) member
  · rintro rfl
    exact notMem_intercalate plain (by decide) (by decide) member

theorem splitOnP_insert {values : List Slot} :
    ("(" :: (names values ++ ")" :: "VALUES" :: "(" :: (marks values ++ [")"]))).splitOnP
        isParenthesis = [[], names values, ["VALUES"], marks values, []] := by
  have noNames : ∀ token ∈ names values, isParenthesis token = false :=
    isParenthesis_of_mem fun _ => column_notMem_reserved
  have noMarks : ∀ token ∈ marks values, isParenthesis token = false :=
    isParenthesis_of_mem fun _ => mark_notMem_reserved
  have keyword : ∀ token ∈ ["VALUES"], isParenthesis token = false := by decide
  have between := List.splitOnP_append_cons_of_forall_mem keyword "(" rfl (marks values ++ [")"])
  rw [List.singleton_append] at between
  have nothing : ∀ token ∈ [], isParenthesis token = false := List.forall_mem_nil _
  have opening := List.splitOnP_append_cons_of_forall_mem nothing "(" rfl
    (names values ++ ")" :: "VALUES" :: "(" :: (marks values ++ [")"]))
  rw [List.nil_append] at opening
  rw [opening,
    List.splitOnP_append_cons_of_forall_mem noNames ")" rfl, between,
    List.splitOnP_append_cons_of_forall_mem noMarks ")" rfl, List.splitOnP_nil]

theorem splitOn_update {assignments conditions : List Slot} :
    (equations "," assignments ++ "WHERE" :: equations "AND" conditions).splitOn "WHERE" =
      [equations "," assignments, equations "AND" conditions] := by
  have absent {separator : String} {slots : List Slot} (other : "WHERE" ≠ separator) :
      ∀ token ∈ equations separator slots, (token == "WHERE") = false := by
    intro token member
    rw [beq_eq_false_iff_ne]
    rintro rfl
    exact notMem_intercalate (fun _ => equation_notMem_reserved) (by decide) other member
  rw [List.splitOn, List.splitOnP_append_cons_of_forall_mem (absent (by decide)) "WHERE" rfl,
    List.splitOnP_eq_singleton (absent (by decide))]

/-- **A statement is read from its text**, unless something is missing that the grammar asks for. -/
theorem read?_text {statement : Statement} (filled : statement.IsFilled) :
    read? statement.text = some statement := by
  cases statement with
  | insert table values =>
      have slots : (values.map Slot.column).zipWith Slot.mk (values.map Slot.number) = values := by
        rw [List.zipWith_map, List.zipWith_self]
        exact List.map_id values
      rw [read?, tokens_insert]
      simp only [readInsert, splitOnP_insert, Table.ofName?_name, readAll_names filled,
        readAll_marks filled, Option.bind_eq_bind, Option.bind_some, List.length_map, slots]
      rfl
  | update table assignments conditions =>
      rw [read?, tokens_update]
      simp only [readUpdate, splitOn_update, Table.ofName?_name, readAll_assignments filled.1,
        readAll_conditions filled.2]
      rfl
  | delete table conditions =>
      rw [read?, tokens_delete]
      simp only [readDelete, Table.ofName?_name, readAll_conditions filled]
      rfl

/-! ### Placeholders -/

/-- The columns of a statement with their placeholders, in the order of the text. -/
def slots : Statement → List Slot
  | insert _ values => values
  | update _ assignments conditions => assignments ++ conditions
  | delete _ conditions => conditions

theorem numberOf?_columnName : numberOf? column.name = none := by
  cases column <;> rfl

theorem numberOf?_tableName : numberOf? table.name = none := by
  cases table <;> rfl

theorem filterMap_intercalate {separator : String} {slots : List Slot} {cut : Slot → List String}
    {numbers : Slot → List Nat} (isNone : numberOf? separator = none)
    (cuts : ∀ slot, (cut slot).filterMap numberOf? = numbers slot) :
    ([separator].intercalate (slots.map cut)).filterMap numberOf? =
      (slots.map numbers).flatten := by
  induction slots with
  | nil => rfl
  | cons slot rest induction =>
      cases rest with
      | nil => simp [cuts]
      | cons other rest =>
          rw [List.map_cons] at induction
          rw [List.map_cons, List.map_cons, List.intercalate_cons_cons, List.filterMap_append,
            List.filterMap_append, induction, cuts, List.filterMap_cons_none isNone,
            List.filterMap_nil, List.append_nil]
          rfl

variable {slots : List Slot}

theorem filterMap_names : (names slots).filterMap numberOf? = [] := by
  have none (slot : Slot) : [slot.column.name].filterMap numberOf? = [] :=
    List.filterMap_cons_none numberOf?_columnName
  rw [names, filterMap_intercalate rfl none]
  simp

theorem filterMap_marks : (marks slots).filterMap numberOf? = slots.map Slot.number := by
  have one (slot : Slot) : [slot.placeholder].filterMap numberOf? = [slot.number] :=
    List.filterMap_cons_some Slot.numberOf?_placeholder
  rw [marks, filterMap_intercalate rfl one, ← List.flatMap_def, ← List.map_eq_flatMap]

theorem filterMap_equations {separator : String} (isNone : numberOf? separator = none) :
    (equations separator slots).filterMap numberOf? = slots.map Slot.number := by
  have one (slot : Slot) :
      [slot.column.name, "=", slot.placeholder].filterMap numberOf? = [slot.number] := by
    rw [List.filterMap_cons_none numberOf?_columnName, List.filterMap_cons_none rfl]
    exact List.filterMap_cons_some Slot.numberOf?_placeholder
  rw [equations, filterMap_intercalate isNone one, ← List.flatMap_def, ← List.map_eq_flatMap]

theorem filterMap_assignments : (equations "," slots).filterMap numberOf? =
    slots.map Slot.number :=
  filterMap_equations rfl

theorem filterMap_conditions : (equations "AND" slots).filterMap numberOf? =
    slots.map Slot.number :=
  filterMap_equations rfl

/-- The placeholders of a text are those of the statement, in order. -/
theorem placeholders_text {statement : Statement} :
    placeholders statement.text = statement.slots.map Slot.number := by
  have keyword : ∀ token ∈ ["INSERT", "INTO", "VALUES", "UPDATE", "SET", "DELETE", "FROM", "WHERE",
      "(", ")"], numberOf? token = none := by decide
  simp only [List.forall_mem_cons] at keyword
  cases statement with
  | insert table values =>
      simp [placeholders, tokens_insert, keyword, numberOf?_tableName, filterMap_names,
        filterMap_marks, Statement.slots]
  | update table assignments conditions =>
      simp [placeholders, tokens_update, keyword, numberOf?_tableName, filterMap_assignments,
        filterMap_conditions, Statement.slots]
  | delete table conditions =>
      simp [placeholders, tokens_delete, keyword, numberOf?_tableName, filterMap_conditions,
        Statement.slots]

end Statement

end Words

end Workflow
