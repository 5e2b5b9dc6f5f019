import TokenQuota.Archive.Directory
import TokenQuota.Digest
import TokenQuota.Store.Outage
import TokenQuota.Task

/-! Contents in a directory, each in a file that is named for its digest. One more file names
the current content, and one lists all contents in the order in which they first came. -/

namespace TokenQuota

/-- A directory behind accesses that may fail. -/
structure Folder where
  directory : Directory
  /-- The accesses that fail. -/
  outage : Outage
  /-- What an access that fails while it writes leaves of a content. -/
  torn : Nat → Bytes → Option Bytes

namespace Folder

def absent : Folder := ⟨.absent, .none, fun _ _ => none⟩

/-- An activity on a folder, which may fail. -/
abbrev Access (α : Type) := Action FileError Folder α

def currentFile : String := "current"

def indexFile : String := "index"

def contentFile (hash : String) : String := s!"{hash}.json"

def draftFile (name : String) : String := s!".{name}.tmp"

def access {α : Type} (torn : Folder → Directory)
    (f : Directory → Except FileError (α × Directory)) : Access α :=
  Action.atOnce fun s =>
    let after := { s with outage := s.outage.called }
    if s.outage.isHit then (.error .inputOutput, { after with directory := torn s })
    else match f s.directory with
      | .ok (a, directory) => (.ok a, { after with directory })
      | .error e => (.error e, after)

def make : Access Unit :=
  access directory fun d => d.make.map fun d => ((), d)

def read (path : String) : Access Bytes :=
  access directory fun d => (d.read path).map fun content => (content, d)

def afterTorn (name : String) (content : Bytes) (s : Folder) : Directory :=
  match s.torn s.outage.calls content with
  | none => s.directory
  | some left =>
    match s.directory.write name left with
    | .ok d => d
    | .error _ => s.directory

def write (name : String) (content : Bytes) : Access Unit :=
  access (afterTorn name content) fun d => (d.write name content).map fun d => ((), d)

def rename (source target : String) : Access Unit :=
  access directory fun d => (d.rename source target).map fun d => ((), d)

/-- Replaces a file: it has its old content until it has all of the new one. -/
def replace (name : String) (content : Bytes) : Access Unit := do
  write (draftFile name) content
  rename (draftFile name) name

/-- Reads a file as text. There is none if the file is not there. -/
def readText? (path : String) : Access (Option String) := do
  match ← Action.outcome (read path) with
  | .error .noFile => return none
  | .error e => throw e
  | .ok content =>
    match Bytes.text? content with
    | some text => return some text
    | none => throw .noText

/-- The digests that are listed in a text: one to a line. -/
def listed (text : String) : List String :=
  ((Text.lines text).map Text.trim).filter fun line => !line.isEmpty

def index : Access (List String) := do
  match ← readText? indexFile with
  | some text => return listed text
  | none => return []

def listing (hashes : List String) : Bytes :=
  Bytes.ofString ("\n".intercalate hashes ++ "\n")

def keep (content : Bytes) : Access Unit := do
  let hash := Digest.contentHash content
  make
  replace (contentFile hash) content
  let hashes ← index
  if !hashes.contains hash then
    replace indexFile (listing (hashes ++ [hash]))
  replace currentFile (Bytes.ofString hash)

/-- The current content, if there is one. -/
def current? : Access (Option Bytes) := do
  match ← readText? currentFile with
  | none => return none
  | some text => some <$> read (contentFile (Text.trim text))

def contents : List String → Access (List Bytes)
  | [] => pure []
  | hash :: rest => do
    let content ← read (contentFile hash)
    return content :: (← contents rest)

def history : Access (List Bytes) := do
  contents (← index)

end Folder

end TokenQuota
