import TokenQuota.Clock
import TokenQuota.Error
import TokenQuota.Store.Basic
import TokenQuota.Store.Outage
import TokenQuota.Task
import TokenQuota.TokenBucket.Script

/-! The store as its clients reach it: calls that may fail or be late. -/

namespace TokenQuota

/-- The calls that fail or are late. -/
structure Outages where
  connects : Outage
  takes : Outage
  pings : Outage
  times : Outage
  loads : Outage
  scans : Outage
  deletes : Outage
  slowLoads : Outage
  slowReads : Outage
  /-- The name that loading a script reports in place of its own. -/
  reportedName : Option String
  /-- The words for a connection that is refused. -/
  refusal : String

def Outages.none : Outages :=
  ⟨.none, .none, .none, .none, .none, .none, .none, .none, .none, .none, "Connection refused"⟩

/-- A store with its clock, behind calls that may fail. -/
structure Backend where
  /-- The reading of the clock, in nanoseconds since 1970. -/
  now : Int
  store : Store
  outages : Outages
  /-- The number of handles given out so far. -/
  handles : Nat

/-- A call to the store. -/
abbrev Call (α : Type) := Backend → Except QuotaError α × Backend

namespace Backend

def atTime (now : Int) : Backend := ⟨now, .empty, .none, 0⟩

/-- Milliseconds that a late call takes. -/
def lateMillis : Nat := 1

def advance (b : Backend) (nanos : Nat) : Backend :=
  { b with now := Clock.advance b.now nanos }

/-- The error of a call that was made to fail. -/
def injected (what : String) : QuotaError :=
  .connection s!"injected {what} failure"

/-- A call that may fail before it reaches the store. -/
def guarded {α : Type} (outage : Part Outages Outage) (error : QuotaError)
    (f : Backend → Except QuotaError α × Backend) : Call α := fun b =>
  let o := outage.get b.outages
  let b := { b with outages := outage.set o.called b.outages }
  if o.isHit then (.error error, b) else f b

/-- Opens a connection: its number. -/
def connect : Call Nat := fun b =>
  guarded ⟨Outages.connects, fun o s => { s with connects := o }⟩
    (.connection b.outages.refusal)
    (fun b => (.ok (b.store.connects + 1), { b with store := b.store.connect })) b

def ping : Call Unit :=
  guarded ⟨Outages.pings, fun o s => { s with pings := o }⟩ (injected "ping") fun b =>
    (.ok (), b)

/-- The clock of the store, in seconds since 1970. -/
def time : Call Nat :=
  guarded ⟨Outages.times, fun o s => { s with times := o }⟩ (injected "time") fun b =>
    (.ok (Clock.seconds b.now), b)

/-- Loads a script: its name. -/
def load (script : String) : Call String :=
  guarded ⟨Outages.loads, fun o s => { s with loads := o }⟩ (injected "load") fun b =>
    let name := Digest.contentHash (Bytes.ofString script)
    (.ok (b.outages.reportedName.getD name), { b with store := b.store.load name })

/-- Runs a loaded script on the cells of a bucket: the number that reports the decision. -/
def take (script : String) (keys : CellKeys) (t : Take) : Call Int :=
  guarded ⟨Outages.takes, fun o s => { s with takes := o }⟩
    (.connection "Connection reset by peer") fun b =>
      if b.store.scripts.contains script then
        let (decision, store) := b.store.take b.now keys t
        (.ok decision.result, { b with store })
      else (.error (.connection "NOSCRIPT No matching script"), b)

def scan : Call (List String) :=
  guarded ⟨Outages.scans, fun o s => { s with scans := o }⟩ (injected "scan") fun b =>
    (.ok (b.store.stateKeys b.now), b)

/-- Deletes keys: the number of those that were there. -/
def delete (keys : List String) : Call Nat :=
  guarded ⟨Outages.deletes, fun o s => { s with deletes := o }⟩ (injected "delete") fun b =>
    let (count, store) := Store.delete keys b.store
    (.ok count, { b with store })

/-- The next calls to load a script. -/
def slowLoads : Part Backend Outage :=
  ⟨fun b => b.outages.slowLoads, fun o b => { b with outages.slowLoads := o }⟩

def slowReads : Part Backend Outage :=
  ⟨fun b => b.outages.slowReads, fun o b => { b with outages.slowReads := o }⟩

/-- Waits if the next call of a kind is late. -/
def delay {σ : Type} (outage : Part σ Outage) : Task σ Unit := do
  let late ← Task.atOnce fun s => ((outage.get s).isHit, outage.set (outage.get s).called s)
  Task.pause (if late then lateMillis else 0)

end Backend

end TokenQuota
