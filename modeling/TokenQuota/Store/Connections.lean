import TokenQuota.Store.Backend

/-! The one live connection to the store, and how it is opened, replaced and closed. -/

namespace TokenQuota

/-- A connection with the name of the script that is loaded on it. -/
structure Handle where
  /-- The number by which the handle is told from others. -/
  serial : Nat
  connection : Nat
  script : String
deriving DecidableEq

/-- The owner of the live connection. Only the holder of the lock opens, replaces or closes
it. -/
structure Connections where
  current : Option Handle
  locked : Bool

def Connections.none : Connections := ⟨Option.none, false⟩

/-- The owner of a connection, and the store that it connects to. -/
structure Link where
  connections : Connections
  backend : Backend

namespace Link

def store : Part Link Backend := ⟨backend, fun b l => { l with backend := b }⟩

def lock : Part Link Bool :=
  ⟨fun l => l.connections.locked, fun b l => { l with connections.locked := b }⟩

/-- An activity of a client of the store, which may fail. -/
abbrev Client (α : Type) := Action QuotaError Link α

def call {α : Type} (c : Call α) : Client α :=
  Action.onPart store (Action.atOnce c)

/-- Loads the script, which may be late. -/
def loadScript (script : String) : Client String := do
  Action.ofTask (Task.onPart store (Backend.delay Backend.slowLoads))
  call (Backend.load script)

def current : Client (Option Handle) :=
  Action.read fun l => l.connections.current

def issue (connection : Nat) (script : String) (l : Link) : Handle × Link :=
  (⟨l.backend.handles, connection, script⟩, { l with backend.handles := l.backend.handles + 1 })

def publish (connection : Nat) (script : String) (l : Link) : Handle × Link :=
  let (h, l) := l.issue connection script
  (h, { l with connections.current := some h })

/-- Opens a connection: it must tell its time and take the script. -/
def connect : Client (Nat × String) := do
  let connection ← call Backend.connect
  match ← Action.outcome (call Backend.time) with
  | .error e => throw (.connection s!"Cannot talk to memory: {e.message}")
  | .ok _ =>
    let script ← loadScript takeScript
    return (connection, script)

def renew : Client Handle := do
  let (connection, script) ← connect
  Action.ofTask (Task.atOnce (publish connection script))

/-- The live handle, after connecting if there is none. -/
def getOrConnect : Client Handle := do
  match ← current with
  | some h => return h
  | none =>
    Action.holding lock do
      match ← current with
      | some h => return h
      | none => renew

/-- Drops the live handle, unless it is another one than was seen to fail. -/
def dropIfSeen (seen : Handle) (l : Link) : Option Handle × Link :=
  match l.connections.current with
  | some h =>
    if h.serial = seen.serial then (none, { l with connections.current := none })
    else (some h, l)
  | none => (none, l)

/-- Replaces a handle that was seen to fail by a new connection, unless somebody else already
did. The handle that failed is dropped first, so that nobody picks it up meanwhile. -/
def reconnect (seen : Handle) : Client Handle :=
  Action.holding lock do
    match ← Action.ofTask (Task.atOnce (dropIfSeen seen)) with
    | some h => return h
    | none => renew

/-- Gives the connection of a live handle another script, unless the handle was replaced or
closed in the meantime. -/
def refresh (seen : Handle) (script : String) (l : Link) : Handle × Link :=
  match l.connections.current with
  | some h =>
    if h.serial = seen.serial then l.publish seen.connection script else (h, l)
  | none => l.issue seen.connection script

/-- Publishes another script on the connection of a handle. -/
def replaceScript (seen : Handle) (script : String) : Client Handle :=
  Action.holding lock (Action.ofTask (Task.atOnce (refresh seen script)))

/-- Makes sure that there is a connection, and that the script is loaded on it. -/
def ensureScript : Client Handle := do
  let h ← getOrConnect
  match ← Action.outcome (loadScript takeScript) with
  | .ok script => if script = h.script then return h else replaceScript h script
  | .error _ => reconnect h

def close : Client Unit :=
  Action.holding lock (Action.modify fun l => { l with connections.current := none })

/-- The live connection answers. Nothing is opened if there is none. -/
def isHealthy : Client Bool := do
  match ← current with
  | none => return false
  | some _ =>
    match ← Action.outcome (call Backend.ping) with
    | .ok () => return true
    | .error _ => return false

end Link

end TokenQuota
