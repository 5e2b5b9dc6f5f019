import TokenQuota.Archive.Basic
import TokenQuota.Bucket.Container
import TokenQuota.Bucket.Taking
import TokenQuota.Config.Format
import TokenQuota.Stats

/-! A server: the active configuration with its buckets, and where it stands in its life. -/

namespace TokenQuota

/-- Where a server stands in its life. -/
inductive Lifecycle
  | created
  /-- The first configuration is being loaded. -/
  | starting
  | started
  | stopped
deriving DecidableEq

def Lifecycle.text : Lifecycle → String
  | .created => "created"
  | .starting => "starting"
  | .started => "started"
  | .stopped => "stopped"

def Lifecycle.name : Lifecycle → String
  | .created => "Created"
  | .starting => "Starting"
  | .started => "Started"
  | .stopped => "Stopped"

/-- What came of the latest attempt to apply a configuration. -/
inductive Outcome
  | pending
  | applied (version : UInt64)
  | failed (error : QuotaError)
deriving DecidableEq

/-- A configuration with the buckets that were made for it. -/
structure Snapshot where
  config : ServiceConfig
  buckets : Container

/-- What the loop does that applies changes. -/
inductive Reloader
  /-- It does not run yet. -/
  | absent
  | waiting
  | busy
  /-- It has ended for good. -/
  | ended
deriving DecidableEq

structure Server where
  /-- The configuration to start with if none is kept yet. -/
  initial : ServiceConfig
  /-- Milliseconds between sweeps of idle buckets; zero turns them off. -/
  sweepMillis : Nat
  retry : Retry
  /-- The reading of the wall clock when the server was made. -/
  since : UInt64
  lifecycle : Lifecycle
  active : Snapshot
  outcome : Outcome
  stats : Stats
  /-- Somebody is changing the configuration. -/
  locked : Bool
  reloader : Reloader
  /-- Milliseconds since the last sweep, while there are sweeps. -/
  sinceSweep : Option Nat

namespace Server

/-- Milliseconds between sweeps if nothing else is set. -/
def defaultSweepMillis : Nat := 60000

/-- A server that was not started yet. It shows its initial configuration, but has no
buckets. -/
def create (initial : ServiceConfig) (sweepMillis : Nat) (retry : Retry) (since : UInt64) :
    Server where
  initial
  sweepMillis
  retry
  since
  lifecycle := .created
  active := ⟨initial, .empty⟩
  outcome := .pending
  stats := .empty
  locked := false
  reloader := .absent
  sinceSweep := none

end Server

/-- A server with all that it works on. -/
structure Site where
  server : Server
  link : Link
  archive : Archive
  roster : Roster
  /-- The reading of the wall clock, in seconds since 1970. -/
  wallClock : UInt64

namespace Site

/-- An activity at a site, which may fail. -/
abbrev Work (α : Type) := Action QuotaError Site α

def linkPart : Part Site Link := ⟨link, fun l s => { s with link := l }⟩

def archivePart : Part Site Archive := ⟨archive, fun a s => { s with archive := a }⟩

def lock : Part Site Bool :=
  ⟨fun s => s.server.locked, fun b s => { s with server.locked := b }⟩

def slowReads : Part Site Outage :=
  linkPart.comp (Link.store.comp Backend.slowReads)

def onLink {α : Type} (a : Link.Client α) : Work α := Action.onPart linkPart a

def onArchive {α : Type} (a : Archive.Keeper α) : Work α := Action.onPart archivePart a

def activeConfig (s : Site) : ServiceConfig := s.server.active.config

/-- The content that is kept, if there is one. It may be late. -/
def readArchive : Work (Option Bytes) := do
  Action.ofTask (Backend.delay slowReads)
  onArchive Archive.current?

def decode (content : Bytes) : Except QuotaError ServiceConfig :=
  (ServiceConfig.read content).mapError QuotaError.ofFailure

def validate (config : ServiceConfig) : Except QuotaError Unit :=
  config.check.mapError QuotaError.ofViolation

/-- Moves to another stage of life, from one stage only. -/
def transition (source target : Lifecycle) (s : Site) : Except QuotaError Unit × Site :=
  if s.server.lifecycle = source then (.ok (), { s with server.lifecycle := target })
  else
    (.error (.lifecycle
      s!"Cannot move from {s.server.lifecycle.name} to {target.name}"), s)

/-- Takes idle dynamic buckets out of service: how many there were. -/
def sweep (s : Site) : Nat × Site :=
  let (count, buckets, roster) := s.server.active.buckets.sweep s.roster
  (count, { s with server.active.buckets := buckets, roster })

end Site

end TokenQuota
