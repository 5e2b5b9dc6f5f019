import TokenQuota.Store.Connections
import TokenQuota.TokenBucket.Stale

/-! Preparing the store for a configuration: a connection, the script, and no stale cells. -/

namespace TokenQuota.Link

/-- Deletes the cells that a configuration does not account for: how many there were. -/
def clean (config : ServiceConfig) : Client Nat := do
  let _ ← getOrConnect
  config.clean (call Backend.scan) fun keys => call (Backend.delete keys)

/-- Prepares the store. That cells cannot be deleted is no failure. -/
def prepare (config : ServiceConfig) : Client Unit := do
  let _ ← ensureScript
  let _ ← Action.outcome (clean config)

end TokenQuota.Link
