import TokenQuota.Config.Edit
import TokenQuota.Server.Basic

/-! Changing the configuration that is kept, and reading what was kept before. -/

namespace TokenQuota.Site

/-- The configuration that is kept, which may be ahead of the active one. -/
def latest : Work ServiceConfig := do
  match ← readArchive with
  | some content => Action.ofExcept (decode content)
  | none => Action.read activeConfig

/-- The version and the date of a content; one that cannot be read binds nobody. -/
def stampOf (content : Option Bytes) : UInt64 × UInt64 :=
  match content.map decode with
  | some (.ok config) => (config.version, config.date)
  | _ => (0, 0)

/-- Stamps a configuration past the active one and the one that is kept. -/
def stamp (wallClock : UInt64) (active : ServiceConfig) (kept : UInt64 × UInt64) (user : String)
    (config : ServiceConfig) : ServiceConfig :=
  { config with
    user
    version := max active.version kept.1 + 1
    date := max (max wallClock active.date) kept.2 }

def persist (user : String) (config : ServiceConfig) : Work Unit := do
  Action.ofExcept (validate config)
  let active ← Action.read activeConfig
  let kept ← readArchive
  let wallClock ← Action.read wallClock
  onArchive (Archive.keep (stamp wallClock active (stampOf kept) user config).write)

def updateConfig (user : String) (config : ServiceConfig) : Work Unit :=
  Action.holding lock (persist user config)

def change (user : String) (edit : Edit) : Work Unit :=
  Action.holding lock do
    let config ← latest
    let edited ← Action.ofExcept ((config.edit edit).mapError QuotaError.ofEdit)
    persist user edited

def forget (ns : String) : Work Unit :=
  Action.modify fun s => { s with server.stats := s.server.stats.reset ns }

/-- Changes the configuration. The counts of a namespace go with it. -/
def edit (user : String) (edit : Edit) : Work Unit := do
  change user edit
  match edit with
  | .deleteNamespace ns => forget ns
  | _ => pure ()

/-- All configurations that were kept, in the order in which they first came. -/
def history : Work (List ServiceConfig) := do
  let contents ← onArchive Archive.history
  Action.ofExcept (contents.mapM decode)

end TokenQuota.Site
