import Workflow.Settings.Place

/-!
# Choosing a storage

The address of a storage decides what kind of storage it is.  Without an address the
rows are kept in memory.  A storage that was opened without saying which one is used
again the next time; saying which one, even by an empty address, opens another.
-/

namespace Workflow

inductive StorageKind where
  | memory
  | tables (path : String)
  | server (url : String)
deriving DecidableEq, Repr

structure Storage where
  kind : StorageKind
  pageSize : Int
deriving DecidableEq, Repr

namespace StorageKind

/-- The scheme of addresses of files with tables. -/
def fileScheme : String := "sqlite://"

def serverSchemes : List String := ["postgres://", "postgresql://"]

def ofUrl (url : String) : Except Failure StorageKind :=
  if url == "" then .ok .memory
  else if url.startsWith fileScheme then .ok (.tables (url.drop fileScheme.length).toString)
  else if serverSchemes.any (fun scheme => url.startsWith scheme) then .ok (.server url)
  else .error (.unsupportedStorage url)

def canOpen (files : Files) : StorageKind → Bool
  | memory => true
  | tables path => path == "" || path == ":memory:" || files.canOpen path
  | server _ => true

def path : StorageKind → String
  | memory => ""
  | tables path => path
  | server url => url

end StorageKind

def Storage.open (files : Files) (url : Option String) (pageSize : Int) :
    Except Failure Storage := do
  let kind ← StorageKind.ofUrl (url.getD "")
  if kind.canOpen files then return { kind, pageSize } else throw .unopenableStorage

/-- What is said about the storage to use. -/
structure StorageChoice where
  url : Option String
  settings : Option Settings

/-- The storage opened last, numbered by how many were opened before. -/
structure OpenedStorage where
  storage : Storage
  number : Nat
deriving DecidableEq, Repr

namespace OpenedStorage

/-- The storage for a choice: the one opened last if nothing is said, and a new one
otherwise.  A storage that cannot be opened leaves the last one as it was. -/
def choose (last : Option OpenedStorage) (files : Files) (environment : Environment)
    (choice : StorageChoice) : Except Failure OpenedStorage :=
  match last, choice.url, choice.settings with
  | some opened, none, none => .ok opened
  | _, _, _ => do
    let settings ←
      match choice.settings with
      | some settings => pure settings
      | none => Settings.load files environment none
    let url :=
      ((choice.url.filter (· != "")).orElse fun _ => environment.storageUrl?).orElse
        fun _ => settings.storageUrl
    let storage ← Storage.open files url settings.worker.pageSize
    let number := (last.map fun opened => opened.number + 1).getD 0
    return { storage, number }

end OpenedStorage

end Workflow
