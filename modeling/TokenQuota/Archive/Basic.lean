import TokenQuota.Archive.Folder
import TokenQuota.Error

/-! Where configurations are kept: every content once, the current one, and a signal when it
changes. Several changes before anybody looks give one signal. -/

namespace TokenQuota

structure Shelf where
  current : Option String
  contents : NameMap Bytes
  /-- The digests in the order in which their contents first came. -/
  order : List String
deriving DecidableEq

namespace Shelf

def empty : Shelf := ⟨none, ∅, []⟩

def keep (s : Shelf) (content : Bytes) : Shelf :=
  let hash := Digest.contentHash content
  { current := some hash
    contents := s.contents.insert hash content
    order := if s.contents.contains hash then s.order else s.order ++ [hash] }

/-- The current content, if there is one. -/
def current? (s : Shelf) : Option Bytes :=
  s.current.bind s.contents.get?

def history (s : Shelf) : List Bytes :=
  s.order.filterMap s.contents.get?

end Shelf

inductive Storage
  | shelf (s : Shelf)
  | folder (f : Folder)

structure Archive where
  storage : Storage
  /-- There was a change that nobody has noticed yet. -/
  pending : Bool
  /-- Somebody is writing to the folder. -/
  locked : Bool

namespace Archive

def ofStorage (storage : Storage) : Archive := ⟨storage, false, false⟩

/-- An activity on an archive, which may fail. -/
abbrev Keeper (α : Type) := Action QuotaError Archive α

/-- The folder of an archive; that of an archive in memory is not there. -/
def folder : Part Archive Folder where
  get a := match a.storage with
    | .folder f => f
    | .shelf _ => .absent
  set f a := { a with storage := .folder f }

def lock : Part Archive Bool := ⟨locked, fun b a => { a with locked := b }⟩

def signal (a : Archive) : Archive := { a with pending := true }

def ofFileError (e : FileError) : QuotaError := .persistence e.message

def onFolder {α : Type} (access : Folder.Access α) : Keeper α :=
  ExceptT.adapt ofFileError (Action.onPart folder access)

/-- The contents in memory, if they are kept there. -/
def shelf? (a : Archive) : Option Shelf :=
  match a.storage with
  | .shelf s => some s
  | .folder _ => none

def keepOnShelf (content : Bytes) (a : Archive) : Bool × Archive :=
  match a.storage with
  | .shelf s => (true, { a with storage := .shelf (s.keep content), pending := true })
  | .folder _ => (false, a)

/-- Keeps a content, makes it the current one, and signals the change. -/
def keep (content : Bytes) : Keeper Unit := do
  if !(← Action.ofTask (Task.atOnce (keepOnShelf content))) then
    Action.holding lock (onFolder (Folder.keep content))
    Action.modify signal

/-- The current content, if there is one. -/
def current? : Keeper (Option Bytes) := do
  match ← Action.read shelf? with
  | some s => return s.current?
  | none => onFolder Folder.current?

def history : Keeper (List Bytes) := do
  match ← Action.read shelf? with
  | some s => return s.history
  | none => onFolder Folder.history

/-- Notices the changes that were signalled: whether there were any. -/
def notice (a : Archive) : Bool × Archive :=
  (a.pending, { a with pending := false })

end Archive

end TokenQuota
