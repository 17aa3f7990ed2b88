import Workflow.Document.Reader
import Workflow.Settings.Basic

/-!
# Where settings come from

Settings are read from a file.  Its path is given, or stands in a variable of the
environment, or is the default.  A file that does not exist leaves all settings at
their defaults.  The address of the storage can be overridden by the environment.
-/

namespace Workflow

/-- A directory tree and the directory in which relative paths start.  A path is the
list of its names from the root. -/
structure Files where
  current : List String
  directories : List (List String)
  contents : List (List String × String)

namespace Files

/-- Walks along a name. -/
def enter (path : List String) (name : String) : List String :=
  if name == "" || name == "." then path
  else if name == ".." then path.dropLast
  else path ++ [name]

/-- The names of a written path from the root. -/
def resolve (files : Files) (written : String) : List String :=
  let start := if written.startsWith "/" then [] else files.current
  (written.splitOn "/").foldl enter start

/-- Whether a written path names a directory. -/
def isDirectory (files : Files) (written : String) : Bool :=
  written != "" && files.directories.contains (files.resolve written)

def content? (files : Files) (written : String) : Option String :=
  if written == "" then none else files.contents.lookup (files.resolve written)

/-- Whether a file can be opened or created at a written path. -/
def canOpen (files : Files) (written : String) : Bool :=
  let path := files.resolve written
  !written.endsWith "/" && !files.directories.contains path
    && files.directories.contains path.dropLast

end Files

abbrev Environment := List (String × String)

namespace Environment

def get? (environment : Environment) (name : String) : Option String :=
  environment.lookup name

def set (environment changes : Environment) : Environment :=
  changes ++ environment

/-- The value of a variable that is not empty. -/
def filled? (environment : Environment) (name : String) : Option String :=
  (environment.get? name).filter (· != "")

def storageUrl? (environment : Environment) : Option String :=
  (environment.filled? "STEPENGINE_DATABASE_URL").orElse
    fun _ => environment.filled? "DATABASE_URL"

end Environment

namespace Settings

def place (environment : Environment) (path : Option String) : String :=
  match path.filter (· != "") with
  | some path => path
  | none => (environment.get? "STEPENGINE_CONFIG").getD "config.yaml"

def ofFile (files : Files) (path : String) : Except Failure Settings :=
  if files.isDirectory path then .error .directoryInsteadOfFile
  else
    match files.content? path with
    | none => .ok .default
    | some text => do ofDocument (← Document.read text)

def load (files : Files) (environment : Environment) (path : Option String) :
    Except Failure Settings := do
  let settings ← ofFile files (place environment path)
  match environment.storageUrl? with
  | some url => return { settings with storageUrl := some url }
  | none => return settings

end Settings

end Workflow
