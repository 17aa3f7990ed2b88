import Workflow.Catalogue.ProcessType
import Workflow.Catalogue.StepType
import Workflow.Time.Written
import Workflow.Uuid

/-!
# Failures

Everything that can go wrong, by its cause.  A failure belongs to a kind, which
decides how callers react to it: a lost race for a process is skipped, a service
failure becomes the outcome of a step, a cancellation passes through every
handler, and any other failure ends the work on the one process it happened in.

Executors and storage are collaborators outside the library.  What they report is
kept as a kind and a message.
-/

namespace Workflow

inductive FailureKind where
  /-- Any failure of the engine without a kind of its own. -/
  | engine
  | notFound
  /-- A precondition is not met. -/
  | conflict
  /-- A staged write was based on data that another writer has since changed. -/
  | staleWrite
  /-- An internal invariant is broken. -/
  | unexpected
  /-- A remote collaborator failed; a recoverable failure may be retried later. -/
  | service (recoverable : Bool)
  | cancelled
  | invalidValue
  | wrongType
  | overflow
  | divisionByZero
  | runtime
  | missingAttribute
  | missingModule
  | isDirectory
  | constraint
  | storage
  | invalidSettings
  | malformedDocument
  /-- A session refers to an object that no earlier operation kept. -/
  | unknownHandle
deriving DecidableEq, Repr

inductive Failure where
  | stillLeased
  /-- A staged update of a process does not raise its version. -/
  | versionNotRaised
  /-- A process is missing or stored under another version. -/
  | staleProcess (process : Uuid) (expected : Int)
  | missingStep (step : Uuid)
  | noInitialStep
  | pageSizeNotPositive
  | duplicateExecutor (type : ProcessType)
  | unregisteredType (type : ProcessType)
  /-- A handler table was built without a process type. -/
  | untypedHandlers
  | unhandledStep (type : StepType)
  | missingOwner (owner : String)
  | ownerWithoutProcess (owner : String)
  | leasedProcess (process : Uuid) (owner : String) (lease : Option Timestamp)
  | processWithoutSteps (process : Uuid) (owner : String)
  /-- A step that is not pending was loaded for a manual run. -/
  | finishedStepLoaded
  | ineligibleStep (owner : String) (type : StepType)
  /-- A number under which no member of a catalogue is stored. -/
  | notAMember (number : Int) (title : String)
  /-- A name that no member of a catalogue has. -/
  | unknownMember (title : String) (written : String)
  /-- A text that shows digits but is no decimal number. -/
  | notDecimal (written : String)
  | tooManyDigits (count : Nat)
  /-- A date outside the years 1 to 9999. -/
  | dateOutOfRange
  /-- A time span whose number of days does not fit a machine word. -/
  | spanBeyondWord
  | spanOutOfRange (days : Int)
  | infiniteSpan
  | undefinedSpan
  | malformedTime (written : String)
  | zeroToNegativePower
  | powerOutOfRange
  /-- An exponent that no floating-point number holds. -/
  | exponentOutOfRange
  /-- An integer that the column of a table cannot hold. -/
  | integerBeyondColumn
  /-- More values than a question to the tables can carry. -/
  | tooManyValues
  | duplicateKey (column : String)
  | missingReference
  | missingColumnValue (column : String)
  /-- A row whose column does not hold what the schema promises. -/
  | malformedRecord (column : String)
  | unsupportedStorage (url : String)
  | unopenableStorage
  | connectionRefused
  | nonTextKeys
  | notAMapping (found : String)
  | malformedDocument
  | directoryInsteadOfFile
  /-- Settings that do not meet their constraints, as path and reason. -/
  | invalidSettings (faults : List (String × String))
  | missingAttribute (source : String) (member : String)
  | namelessStatus
  | missingModule (source : String)
  | unknownHandle (name : String)
  /-- A failure reported by a collaborator. -/
  | reported (kind : FailureKind) (message : String)
deriving DecidableEq, Repr

namespace Failure

def kind : Failure → FailureKind
  | stillLeased => .unexpected
  | versionNotRaised => .invalidValue
  | staleProcess _ _ => .staleWrite
  | missingStep _ => .staleWrite
  | noInitialStep => .invalidValue
  | pageSizeNotPositive => .invalidValue
  | duplicateExecutor _ => .invalidValue
  | unregisteredType _ => .unexpected
  | untypedHandlers => .invalidValue
  | unhandledStep _ => .unexpected
  | missingOwner _ => .notFound
  | ownerWithoutProcess _ => .conflict
  | leasedProcess _ _ _ => .conflict
  | processWithoutSteps _ _ => .conflict
  | finishedStepLoaded => .unexpected
  | ineligibleStep _ _ => .conflict
  | notAMember _ _ => .invalidValue
  | unknownMember _ _ => .invalidValue
  | notDecimal _ => .invalidValue
  | tooManyDigits _ => .invalidValue
  | dateOutOfRange => .overflow
  | spanBeyondWord => .overflow
  | spanOutOfRange _ => .overflow
  | infiniteSpan => .overflow
  | undefinedSpan => .invalidValue
  | malformedTime _ => .invalidValue
  | zeroToNegativePower => .divisionByZero
  | powerOutOfRange => .overflow
  | exponentOutOfRange => .overflow
  | integerBeyondColumn => .overflow
  | tooManyValues => .storage
  | duplicateKey _ => .constraint
  | missingReference => .constraint
  | missingColumnValue _ => .constraint
  | malformedRecord _ => .storage
  | unsupportedStorage _ => .invalidValue
  | unopenableStorage => .storage
  | connectionRefused => .runtime
  | nonTextKeys => .wrongType
  | notAMapping _ => .wrongType
  | malformedDocument => .malformedDocument
  | directoryInsteadOfFile => .isDirectory
  | invalidSettings _ => .invalidSettings
  | missingAttribute _ _ => .missingAttribute
  | namelessStatus => .missingAttribute
  | missingModule _ => .missingModule
  | unknownHandle _ => .unknownHandle
  | reported kind _ => kind

/-- The most characters that a message quotes of a text that is no number. -/
def quotedLimit : Nat := 200

def message : Failure → String
  | stillLeased => "process TryLock should never fail here"
  | versionNotRaised => "process version must increase on every update"
  | staleProcess process expected =>
    s!"process {process} was modified concurrently (expected version {expected})"
  | missingStep step => s!"process step {step} does not exist"
  | noInitialStep => "a process needs at least one initial step"
  | pageSizeNotPositive => "page_size must be positive"
  | duplicateExecutor type => s!"duplicate executor for process type {type.label}"
  | unregisteredType type =>
    s!"processType {type.code} is not a registered executable processType."
  | untypedHandlers => "StepHandlerExecutor has no process_type_id"
  | unhandledStep type =>
    s!"process step type {type.label} is not executable by StepHandlerExecutor"
  | missingOwner owner => s!"{owner} does not exist"
  | ownerWithoutProcess owner => s!"{owner} is not associated with any process"
  | leasedProcess process owner lease =>
    s!"process {process} associated with {owner} is locked, lock expiry is set to "
      ++ Timestamp.messageTextOf lease
  | processWithoutSteps process owner =>
    s!"process {process} associated with {owner} has no process steps"
  | finishedStepLoaded => "processSteps should never have any other status than TODO here"
  | ineligibleStep owner type =>
    s!"{owner}, process step {type.label} is not eligible to run"
  | notAMember number title => s!"{number} is not a valid {title}"
  | unknownMember title written => s!"Unknown {title}: {written}"
  | notDecimal written =>
    "invalid literal for int() with base 10: "
      ++ String.ofList (("'" ++ written ++ "'").toList.take quotedLimit)
  | tooManyDigits count =>
    "Exceeds the limit (4300 digits) for integer string conversion: value has "
      ++ s!"{count} digits; use sys.set_int_max_str_digits() to increase the limit"
  | dateOutOfRange => "date value out of range"
  | spanBeyondWord => "Python int too large to convert to C int"
  | spanOutOfRange days => s!"days={days}; must have magnitude <= 999999999"
  | infiniteSpan => "cannot convert float infinity to integer"
  | undefinedSpan => "cannot convert float NaN to integer"
  | malformedTime written => s!"Invalid isoformat string: '{written}'"
  | zeroToNegativePower => "0.0 cannot be raised to a negative power"
  | powerOutOfRange => "(34, 'Numerical result out of range')"
  | exponentOutOfRange => "int too large to convert to float"
  | integerBeyondColumn => "Python int too large to convert to SQLite INTEGER"
  | tooManyValues => "too many SQL variables"
  | duplicateKey column => s!"UNIQUE constraint failed: {column}"
  | missingReference => "FOREIGN KEY constraint failed"
  | missingColumnValue column => s!"NOT NULL constraint failed: {column}"
  | malformedRecord column => s!"malformed value in column {column}"
  | unsupportedStorage url => s!"Unsupported database backend: {url}"
  | unopenableStorage => "unable to open database file"
  | connectionRefused => "connection refused"
  | nonTextKeys => "keywords must be strings"
  | notAMapping found =>
    "stepengine.config.StepEngineConfig() argument after ** must be a mapping, not " ++ found
  | malformedDocument => ""
  | directoryInsteadOfFile => ""
  | invalidSettings faults =>
    "; ".intercalate (faults.map fun fault => fault.1 ++ ": " ++ fault.2)
  | missingAttribute source member => s!"module '{source}' has no attribute '{member}'"
  | namelessStatus => "'NoneType' object has no attribute 'name'"
  | missingModule source => s!"No module named '{source}'"
  | unknownHandle name => name
  | reported _ message => message

/-- Whether the failure is a lost race: the data it was based on has changed. -/
def isStale (failure : Failure) : Bool :=
  failure.kind == .staleWrite

/-- Whether the failure is a cancellation, which no handler may swallow. -/
def isCancellation (failure : Failure) : Bool :=
  failure.kind == .cancelled

end Failure

end Workflow
