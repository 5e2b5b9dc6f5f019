import TokenQuota.Server.Admin
import TokenQuota.Server.Running

/-! Several servers, and buckets outside of them, over one store. -/

namespace TokenQuota

/-- Where the contents of an archive are. -/
inductive Place
  | shelf (s : Shelf)
  /-- A folder, which other archives may share. -/
  | folder (name : String)

structure ArchiveRecord where
  place : Place
  pending : Bool
  locked : Bool

/-- A server of a deployment, with its connection and the name of its archive. -/
structure Host where
  server : Server
  connections : Connections
  archive : String

/-- The owner of a connection to the store. -/
inductive Owner
  /-- The buckets that stand alone. -/
  | shared
  /-- A pool of buckets. -/
  | pool (name : String)
  | server (name : String)
deriving DecidableEq

structure Deployment where
  backend : Backend
  roster : Roster
  wallClock : UInt64
  retry : Retry
  connections : Connections
  pools : NameMap Connections
  folders : NameMap Folder
  archives : NameMap ArchiveRecord
  /-- The buckets of configurations outside of servers, with the owners of their
  connections. -/
  containers : NameMap (Owner × Container)
  hosts : NameMap Host

namespace Deployment

def create (now : Int) (wallClock : UInt64) (retry : Retry) : Deployment :=
  ⟨.atTime now, .empty, wallClock, retry, .none, ∅, ∅, ∅, ∅, ∅⟩

def store : Part Deployment Backend := ⟨backend, fun b d => { d with backend := b }⟩

/-- A folder; one that nobody has used yet is absent. -/
def folder (d : Deployment) (name : String) : Folder :=
  (d.folders.get? name).getD .absent

def archive (name : String) : Part Deployment Archive where
  get d := match d.archives.get? name with
    | none => .ofStorage (.shelf .empty)
    | some r =>
      match r.place with
      | .shelf s => ⟨.shelf s, r.pending, r.locked⟩
      | .folder name => ⟨.folder (d.folder name), r.pending, r.locked⟩
  set a d := match a.storage, (d.archives.get? name).map ArchiveRecord.place with
    | .folder f, some (.folder place) =>
      { d with
        folders := d.folders.insert place f
        archives := d.archives.insert name ⟨.folder place, a.pending, a.locked⟩ }
    | .folder f, _ =>
      { d with
        folders := d.folders.insert name f
        archives := d.archives.insert name ⟨.folder name, a.pending, a.locked⟩ }
    | .shelf s, _ =>
      { d with archives := d.archives.insert name ⟨.shelf s, a.pending, a.locked⟩ }

/-- Changes the directory of an archive from outside; an archive in memory has none. -/
def changeDirectory (d : Deployment) (name : String) (f : Directory → Directory) : Deployment :=
  match (d.archives.get? name).map ArchiveRecord.place with
  | some (.folder place) =>
    let before := d.folder place
    { d with folders := d.folders.insert place { before with directory := f before.directory } }
  | _ => d

def files (d : Deployment) (name : String) : NameMap Node :=
  match (d.archives.get? name).map ArchiveRecord.place with
  | some (.folder place) => (d.folder place).directory.nodes
  | _ => ∅

/-- Adds an archive unless there is one of this name. -/
def addArchive (d : Deployment) (name : String) (place : Place) : Deployment :=
  if d.archives.contains name then d
  else { d with archives := d.archives.insert name ⟨place, false, false⟩ }

def reopen (d : Deployment) (name other : String) : Deployment :=
  match d.archives.get? name with
  | none => d
  | some r => { d with archives := d.archives.insert other ⟨r.place, false, false⟩ }

def pool (d : Deployment) (name : String) : Connections :=
  (d.pools.get? name).getD .none

def addServer (d : Deployment) (name archive : String) (initial : ServiceConfig)
    (sweepMillis : Nat) : Deployment :=
  { d with
    hosts := d.hosts.insert name
      ⟨.create initial sweepMillis d.retry d.wallClock, .none, archive⟩ }

/-- A server with its connection; one that was not added has no configuration. -/
def host (d : Deployment) (name : String) : Host :=
  (d.hosts.get? name).getD ⟨.create .empty 0 d.retry d.wallClock, .none, name⟩

def link (owner : Owner) : Part Deployment Link where
  get d :=
    let connections := match owner with
      | .shared => d.connections
      | .pool name => d.pool name
      | .server name => (d.host name).connections
    ⟨connections, d.backend⟩
  set l d :=
    let d := { d with backend := l.backend }
    match owner with
    | .shared => { d with connections := l.connections }
    | .pool name => { d with pools := d.pools.insert name l.connections }
    | .server name =>
      { d with hosts := d.hosts.insert name { d.host name with connections := l.connections } }

def site (name : String) : Part Deployment Site where
  get d :=
    let h := d.host name
    { server := h.server
      link := ⟨h.connections, d.backend⟩
      archive := (archive h.archive).get d
      roster := d.roster
      wallClock := d.wallClock }
  set s d :=
    let h := d.host name
    (archive h.archive).set s.archive
      { d with
        backend := s.link.backend
        roster := s.roster
        hosts := d.hosts.insert name ⟨s.server, s.link.connections, h.archive⟩ }

def elapseFor (millis : Nat) (d : Deployment) (name : String) : Deployment :=
  (site name).set (((site name).get d).elapse millis) d

/-- Lets time pass. The clock of the store is another one, and stays. -/
def elapse (millis : Nat) (d : Deployment) : Deployment :=
  d.hosts.names.foldl (elapseFor millis) d

def makeBucket (ns name : String) (config : BucketConfig) (dynamic : Bool) (d : Deployment) :
    Bucket × Deployment :=
  let (b, roster) := d.roster.make ns name config dynamic
  (b, { d with roster })

def addContainer (name : String) (owner : Owner) (config : Option ServiceConfig)
    (d : Deployment) : Deployment :=
  match config with
  | none => { d with containers := d.containers.insert name (owner, .empty) }
  | some c =>
    let (buckets, roster) := Container.make c d.roster
    { d with containers := d.containers.insert name (owner, buckets), roster }

def container (d : Deployment) (name : String) : Owner × Container :=
  (d.containers.get? name).getD (.shared, .empty)

def findBucket (name ns bucket : String) (d : Deployment) :
    Option (Bucket × Owner) × Deployment :=
  let (owner, buckets) := d.container name
  let (found, buckets, roster) := buckets.find ns bucket d.roster
  (found.map fun b => (b, owner),
    { d with containers := d.containers.insert name (owner, buckets), roster })

/-- Takes idle dynamic buckets outside of servers out of service: how many there were. -/
def sweepBuckets (name : String) (d : Deployment) : Nat × Deployment :=
  let (owner, buckets) := d.container name
  let (count, buckets, roster) := buckets.sweep d.roster
  (count, { d with containers := d.containers.insert name (owner, buckets), roster })

/-- An activity in a deployment, which may fail. -/
abbrev Work (α : Type) := Action QuotaError Deployment α

def onLink {α : Type} (owner : Owner) (a : Link.Client α) : Work α :=
  Action.onPart (link owner) a

def onArchive {α : Type} (name : String) (a : Archive.Keeper α) : Work α :=
  Action.onPart (archive name) a

def onSite {α : Type} (name : String) (a : Site.Work α) : Work α :=
  Action.onPart (site name) a

/-- The content that an archive keeps, if there is one. It may be late. -/
def readArchive (name : String) : Work (Option Bytes) := do
  Action.ofTask (Backend.delay (store.comp Backend.slowReads))
  onArchive name Archive.current?

end Deployment

end TokenQuota
