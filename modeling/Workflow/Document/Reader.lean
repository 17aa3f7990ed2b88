import Workflow.Document.Plain
import Workflow.Failure

/-!
# Reading documents

A document is read from text in one pass.  Blocks are structured by indentation: the
entries of a mapping and the items of a list stand in one column, and what belongs to
them stands further to the right.  Between brackets or braces indentation does not
matter.  A text without a document, or with more than one, a tab between tokens, or
anything else that does not fit is malformed.

Every step either consumes characters or opens a nested value at the same place, so
fuel proportional to the length of the text is always enough.
-/

namespace Workflow.Document

structure Cursor where
  rest : List Char
  line : Nat
  column : Nat
deriving DecidableEq, Repr

/-- A reader either goes on at a later place or fails. -/
abbrev Reader := StateT Cursor Option

namespace Reader

/-- Whether a character ends a line. -/
def isBreak (character : Char) : Bool :=
  ['\n', '\x85', '\u2028', '\u2029'].contains character

/-- Whether a character separates tokens. -/
def isSeparator (character : Char) : Bool :=
  character == ' ' || character == '\t' || isBreak character

/-- Whether the text ends or a separator follows. -/
def endsToken : List Char → Bool
  | [] => true
  | character :: _ => isSeparator character

/-- The place behind a character. -/
def step (character : Char) (cursor : Cursor) : Cursor :=
  if isBreak character then ⟨cursor.rest.tail, cursor.line + 1, 0⟩
  else ⟨cursor.rest.tail, cursor.line, cursor.column + 1⟩

def remaining : Reader (List Char) := do
  return (← get).rest

def peek : Reader (Option Char) := do
  return (← get).rest.head?

def next : Reader Char := do
  match (← get).rest with
  | [] => failure
  | character :: _ =>
    modify (step character)
    return character

/-- Moves on by some characters that do not end a line. -/
def skip (count : Nat) : Reader Unit :=
  modify fun cursor => ⟨cursor.rest.drop count, cursor.line, cursor.column + count⟩

/-- Whether a marker of documents, three equal characters, stands at the place. -/
def isMarker (mark : Char) (cursor : Cursor) : Bool :=
  cursor.column == 0 && (cursor.rest.take 3 == [mark, mark, mark])
    && endsToken (cursor.rest.drop 3)

def atEnd : Reader Bool := do
  let cursor ← get
  return cursor.rest.isEmpty || isMarker '-' cursor || isMarker '.' cursor

/-- The place of the next token: behind spaces, comments and ends of lines. -/
def tokenPlace : Nat → Cursor → Cursor
  | 0, cursor => cursor
  | fuel + 1, cursor =>
    match cursor.rest with
    | character :: _ =>
      if character == ' ' || isBreak character then tokenPlace fuel (step character cursor)
      else if character == '#' then
        let comment := cursor.rest.takeWhile fun other => !isBreak other
        tokenPlace fuel
          ⟨cursor.rest.drop comment.length, cursor.line, cursor.column + comment.length⟩
      else cursor
    | [] => cursor

def skipGap : Reader Unit :=
  modify fun cursor => tokenPlace (cursor.rest.length + 1) cursor

/-- What ends are left of a row of line ends: one becomes a space, the first of
several is dropped. -/
def folded : Nat → List Char
  | 0 => []
  | 1 => [' ']
  | ends + 1 => List.replicate ends '\n'

/-- Counts the ends of lines while skipping blanks, up to the next other character. -/
def lineEnds (isBlank : Char → Bool) : Nat → Nat → Reader Nat
  | 0, count => return count
  | fuel + 1, count => do
    match ← peek with
    | none => return count
    | some character =>
      if isBreak character then
        let _ ← next
        lineEnds isBlank fuel (count + 1)
      else if isBlank character then
        let _ ← next
        lineEnds isBlank fuel count
      else return count

/-! ### Quoted scalars -/

def isSpaceOrTab (character : Char) : Bool :=
  character == ' ' || character == '\t'

/-- Reads blanks inside quotes, with the ends of lines among them folded. -/
def quotedBlanks : Reader (List Char) := do
  let blanks := (← remaining).takeWhile isSpaceOrTab
  skip blanks.length
  match ← peek with
  | none => failure
  | some character =>
    if isBreak character then
      let ends ← lineEnds isSpaceOrTab (← remaining).length 0
      if ← atEnd then failure
      return folded ends
    else return blanks

/-- The characters that an escape of one letter stands for. -/
def escapes : List (Char × Char) :=
  [('0', '\x00'), ('a', '\x07'), ('b', '\x08'), ('t', '\t'), ('\t', '\t'), ('n', '\n'),
    ('v', '\x0b'), ('f', '\x0c'), ('r', '\r'), ('e', '\x1b'), (' ', ' '), ('"', '"'),
    ('\\', '\\'), ('/', '/'), ('N', '\x85'), ('_', '\xa0'), ('L', '\u2028'),
    ('P', '\u2029')]

/-- Reads a character given by its number in some hexadecimal digits. -/
def numberedChar (width : Nat) : Reader Char := do
  let digits := (← remaining).take width
  if digits.length < width then failure
  match digits.mapM hexValue? with
  | none => failure
  | some values =>
    skip width
    return Char.ofNat (Text.numberOfDigits 16 values)

def escape : Reader (List Char) := do
  let letter ← next
  match escapes.lookup letter with
  | some character => return [character]
  | none =>
    if letter == 'x' then return [← numberedChar 2]
    else if letter == 'u' then return [← numberedChar 4]
    else if letter == 'U' then return [← numberedChar 8]
    else if isBreak letter then
      let ends ← lineEnds isSpaceOrTab (← remaining).length 0
      return List.replicate ends '\n'
    else failure

/-- Reads a scalar between quotes behind the opening one. -/
def quoted (quote : Char) : Nat → Reader (List Char)
  | 0 => failure
  | fuel + 1 => do
    match ← peek with
    | none => failure
    | some character =>
      if isSeparator character then
        let blanks ← quotedBlanks
        return blanks ++ (← quoted quote fuel)
      else
        let _ ← next
        if character == quote then
          if quote == '\'' && (← peek) == some quote then
            let _ ← next
            return quote :: (← quoted quote fuel)
          else return []
        else if quote == '"' && character == '\\' then
          let escaped ← escape
          return escaped ++ (← quoted quote fuel)
        else return character :: (← quoted quote fuel)

/-! ### Plain scalars -/

/-- Characters that structure lists and mappings between brackets. -/
def isBracket (character : Char) : Bool :=
  [',', '[', ']', '\x7b', '\x7d'].contains character

/-- Whether a plain scalar can start here. -/
def startsPlain (inFlow : Bool) : List Char → Bool
  | [] => false
  | character :: rest =>
    if isSeparator character then false
    else if character == '-' then !endsToken rest
    else if character == '?' || character == ':' then !inFlow && !endsToken rest
    else
      !isBracket character
        && !(['#', '&', '*', '!', '|', '>', '\'', '"', '%', '@', '\x60'].contains character)

/-- The longest row of characters of a plain scalar without separators. -/
def plainWord (inFlow : Bool) : List Char → List Char
  | [] => []
  | character :: rest =>
    if isSeparator character then []
    else if inFlow && (isBracket character || character == '?') then []
    else if character == ':'
        && (endsToken rest || inFlow && (rest.head?.map isBracket).getD false) then []
    else character :: plainWord inFlow rest

/-- Reads the words of a plain scalar that stand on one line. -/
def plainLine (inFlow : Bool) : Nat → Reader (List Char)
  | 0 => failure
  | fuel + 1 => do
    let word := plainWord inFlow (← remaining)
    skip word.length
    let spaces := (← remaining).takeWhile (· == ' ')
    let behind := (← remaining).drop spaces.length
    if word.isEmpty || spaces.isEmpty || behind.head? == some '#'
        || (plainWord inFlow behind).isEmpty then return word
    else
      skip spaces.length
      return word ++ spaces ++ (← plainLine inFlow fuel)

/-- Reads the further lines of a plain scalar, which stand right of the parent. -/
def plainLines (inFlow : Bool) (parent : Int) : Nat → Reader (List Char)
  | 0 => return []
  | fuel + 1 => do
    let start ← get
    let spaces := start.rest.takeWhile (· == ' ')
    skip spaces.length
    match ← peek with
    | none => return []
    | some character =>
      if !isBreak character then
        set start
        return []
      else
        let ends ← lineEnds (· == ' ') start.rest.length 0
        let cursor ← get
        if (← atEnd) || cursor.rest.head? == some '#'
            || (!inFlow && (cursor.column : Int) ≤ parent)
            || (plainWord inFlow cursor.rest).isEmpty then
          set start
          return []
        else
          let line ← plainLine inFlow (cursor.rest.length + 1)
          return folded ends ++ line ++ (← plainLines inFlow parent fuel)

/-! ### Nested values -/

/-- Whether a colon that ends a key follows on the line at which the key started. -/
def keyEnds (line : Nat) : Reader Bool := do
  let cursor ← get
  let behind := cursor.rest.dropWhile (· == ' ')
  match behind with
  | ':' :: rest => return cursor.line == line && endsToken rest
  | _ => return false

def skipColon : Reader Unit := do
  let spaces := (← remaining).takeWhile (· == ' ')
  skip (spaces.length + 1)

/-- Reads a scalar; whether it can be continued on further lines. -/
def scalarStart (inFlow : Bool) : Reader (Document × Option (List Char)) := do
  let rest ← remaining
  match rest with
  | '\'' :: _ =>
    skip 1
    return (.text (String.ofList (← quoted '\'' (rest.length + 1))), none)
  | '"' :: _ =>
    skip 1
    return (.text (String.ofList (← quoted '"' (rest.length + 1))), none)
  | _ =>
    if startsPlain inFlow rest then
      let line ← plainLine inFlow (rest.length + 1)
      return (ofPlain (String.ofList line), some line)
    else failure

/-- Reads the further lines of a scalar behind its first. -/
def scalarEnd (inFlow : Bool) (parent : Int) (scalar : Document × Option (List Char)) :
    Reader Document := do
  match scalar.2 with
  | none => return scalar.1
  | some line =>
    let further ← plainLines inFlow parent (← remaining).length
    if further.isEmpty then
      if line == ['='] then failure
      return scalar.1
    else return ofPlain (String.ofList (line ++ further))

/-- Whether a colon stands here that ends a key between brackets. -/
def flowKeyEnds (line : Nat) : Reader Bool := do
  skipGap
  let cursor ← get
  return cursor.line == line && cursor.rest.head? == some ':'

mutual

/-- Reads a value between brackets. -/
def flowValue : Nat → Reader Document
  | 0 => failure
  | fuel + 1 => do
    match ← peek with
    | some '[' =>
      skip 1
      skipGap
      return .list (← flowItems fuel)
    | some '\x7b' =>
      skip 1
      skipGap
      return .mapping (← flowEntries fuel)
    | _ =>
      let scalar ← scalarStart true
      scalarEnd true (-1) scalar

/-- Reads the value behind a colon between brackets, which can be missing. -/
def flowEntryValue : Nat → Reader Document
  | 0 => failure
  | fuel + 1 => do
    skipGap
    if [some ',', some ']', some '\x7d'].contains (← peek) then return .null
    else flowValue fuel

/-- Reads the items of a list up to its closing bracket. -/
def flowItems : Nat → Reader (List Document)
  | 0 => failure
  | fuel + 1 => do
    if ← atEnd then failure
    if (← peek) == some ']' then
      skip 1
      return []
    let line := (← get).line
    let value ← flowValue fuel
    let item ←
      if ← flowKeyEnds line then do
        if !value.isScalar then failure
        skip 1
        pure (Document.mapping [(value, ← flowEntryValue fuel)])
      else pure value
    skipGap
    match ← peek with
    | some ',' =>
      skip 1
      skipGap
      return item :: (← flowItems fuel)
    | some ']' =>
      skip 1
      return [item]
    | _ => failure

/-- Reads the entries of a mapping up to its closing brace. -/
def flowEntries : Nat → Reader (List (Document × Document))
  | 0 => failure
  | fuel + 1 => do
    if ← atEnd then failure
    if (← peek) == some '\x7d' then
      skip 1
      return []
    let line := (← get).line
    let key ← flowValue fuel
    if !key.isScalar then failure
    let value ←
      if ← flowKeyEnds line then do
        skip 1
        flowEntryValue fuel
      else pure .null
    skipGap
    match ← peek with
    | some ',' =>
      skip 1
      skipGap
      return (key, value) :: (← flowEntries fuel)
    | some '\x7d' =>
      skip 1
      return [(key, value)]
    | _ => failure

end

def startsItem : Reader Bool := do
  match (← get).rest with
  | '-' :: rest => return endsToken rest
  | _ => return false

/-- Moves to the next token if it stands on a further line, in the given column, and
is of the wanted sort; whether it does. -/
def continues (column : Nat) (isWanted : Reader Bool) : Reader Bool := do
  let ended ← get
  skipGap
  let cursor ← get
  if !(← atEnd) && cursor.column == column && ended.line < cursor.line
      && (← isWanted) then return true
  else
    set ended
    return false

def startsFlow : Reader Bool := do
  return [some '[', some '\x7b'].contains (← peek)

mutual

/-- Reads a value in block form that stands right of its parent.  A value on the line
of its key is neither a mapping nor a list in block form. -/
def blockValue (parent : Int) (nested : Bool) : Nat → Reader Document
  | 0 => failure
  | fuel + 1 => do
    let start ← get
    if ← startsItem then
      if nested then return .list (← blockItems start.column fuel) else failure
    else if ← startsFlow then flowValue fuel
    else
      let scalar ← scalarStart false
      if nested && (← keyEnds start.line) then
        skipColon
        return .mapping (← blockEntries start.column scalar.1 fuel)
      else scalarEnd false parent scalar

/-- Reads the items of a list whose dashes stand in one column. -/
def blockItems (column : Nat) : Nat → Reader (List Document)
  | 0 => failure
  | fuel + 1 => do
    skip 1
    let behindDash ← get
    skipGap
    let item ←
      if (← atEnd) || (← get).column ≤ column then
        set behindDash
        pure .null
      else blockValue column true fuel
    if ← continues column startsItem then
      return item :: (← blockItems column fuel)
    else return [item]

/-- Reads the value of a key, behind the colon, and the entries that follow in the
column of the key. -/
def blockEntries (column : Nat) (key : Document) :
    Nat → Reader (List (Document × Document))
  | 0 => failure
  | fuel + 1 => do
    let behindColon ← get
    skipGap
    let place ← get
    let value ←
      if ← atEnd then
        set behindColon
        pure .null
      else if place.line == behindColon.line then blockValue column false fuel
      else if column < place.column then blockValue column true fuel
      else if place.column == column && (← startsItem) then
        pure (.list (← blockItems column fuel))
      else
        set behindColon
        pure .null
    if ← continues column (return true) then
      let line := (← get).line
      let scalar ← scalarStart false
      if ← keyEnds line then
        skipColon
        return (key, value) :: (← blockEntries column scalar.1 fuel)
      else failure
    else return [(key, value)]

end

/-- Reads the one document of a text. -/
def document : Reader Document := do
  skipGap
  let start ← get
  if isMarker '-' start then
    skip 3
    skipGap
  let nested := (← get).line ≠ start.line || !isMarker '-' start
  let value ←
    if ← atEnd then pure .null
    else blockValue (-1) nested (4 * (start.rest.length + 2))
  skipGap
  if isMarker '.' (← get) then
    skip 3
    skipGap
  if (← remaining).isEmpty then return value else failure

end Reader

def isWritable (character : Char) : Bool :=
  let number := character.toNat
  [0x09, 0x0a, 0x0d, 0x85].contains number || 0x20 ≤ number && number ≤ 0x7e
    || 0xa0 ≤ number && number ≤ 0xfffd || 0x10000 ≤ number

/-- The characters of a text with all line ends alike. -/
def unifyLineEnds : List Char → List Char
  | '\r' :: '\n' :: rest => '\n' :: unifyLineEnds rest
  | '\r' :: rest => '\n' :: unifyLineEnds rest
  | character :: rest => character :: unifyLineEnds rest
  | [] => []

/-- Reads a text that holds one document; an empty one means nothing. -/
def read (text : String) : Except Failure Document :=
  let characters := unifyLineEnds text.toList
  if !characters.all isWritable then .error .malformedDocument
  else
    match Reader.document.run ⟨characters, 0, 0⟩ with
    | some (value, _) => .ok value
    | none => .error .malformedDocument

end Workflow.Document
