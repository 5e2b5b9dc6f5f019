import TokenQuota.Bucket.Preparing
import TokenQuota.Server.Basic

/-! How a configuration becomes the active one: at the start, and after each change. -/

namespace TokenQuota.Site

/-- Makes the buckets of a configuration, and puts both in place at once. -/
def install (config : ServiceConfig) (s : Site) : Site :=
  let (buckets, roster) := Container.make config s.roster
  { s with server.active := ⟨config, buckets⟩, roster }

/-- Prepares the store for a configuration, and makes it the active one: its version. -/
def apply (config : ServiceConfig) : Work UInt64 := do
  match ← Action.outcome (onLink (Link.prepare config)) with
  | .error e => throw (.configApply e.message)
  | .ok () =>
    Action.modify (install config)
    return config.version

def publish (outcome : Outcome) : Work Unit :=
  Action.modify fun s => { s with server.outcome := outcome }

/-- Applies the configuration that is kept, or else the initial one. Changes that were
signalled before are part of it. -/
def loadFirst : Work Unit := do
  Action.modify fun s => { s with archive := (Archive.notice s.archive).2 }
  let config ← match ← readArchive with
    | some content => Action.ofExcept (decode content)
    | none => Action.read fun s => s.server.initial
  Action.ofExcept (validate config)
  let version ← apply config
  publish (.applied version)

/-- The version and the date with which a changed configuration is applied: they never go
back, and the version moves on. -/
def restamp (wallClock : UInt64) (active config : ServiceConfig) : ServiceConfig :=
  let date := if config.date = 0 then wallClock else config.date
  { config with
    version := max config.version (active.version + 1)
    date := max date active.date }

/-- The configuration that a changed content writes, if it is well formed. -/
def decodeChange (content : Bytes) : Except QuotaError ServiceConfig := do
  let config ← (decode content).mapError fun e =>
    .configApply s!"Cannot decode configuration: {e.message}"
  (validate config).mapError fun e => .configApply e.message
  return config

/-- Applies the configuration that is kept, unless it is the active one: its version. -/
def reload : Work UInt64 := do
  match ← readArchive with
  | none => throw (.configApply "Notified, but nothing is persisted")
  | some content =>
    let config ← Action.ofExcept (decodeChange content)
    let (active, wallClock) ← Action.read fun s => (s.activeConfig, s.wallClock)
    if config = active then return active.version
    else apply (restamp wallClock active config)

def handleChange : Work Unit := do
  match ← Action.outcome reload with
  | .ok version => publish (.applied version)
  | .error e => publish (.failed e)

/-- The loop that applies changes may take the next one. -/
def mayReload (s : Site) : Bool :=
  s.server.reloader == .waiting && s.archive.pending

/-- One round of the loop that applies changes: it waits for one, and handles it. -/
def reloadOnce : Work Unit := do
  Action.ofTask (Task.await mayReload fun s =>
    { s with archive := (Archive.notice s.archive).2, server.reloader := .busy })
  handleChange
  Action.modify fun s => { s with server.reloader := .waiting }

/-- Handles a change that was signalled, if there is one. -/
def settle : Work Unit := do
  if ← Action.read mayReload then reloadOnce

end TokenQuota.Site
