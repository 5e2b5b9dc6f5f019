import TokenQuota.Server.Applying

/-! Starting and stopping a server, and answering requests for tokens. -/

namespace TokenQuota.Site

def launch (s : Site) : Except QuotaError Unit × Site :=
  let s := { s with
    server.reloader := .waiting
    server.sinceSweep := if s.server.sweepMillis = 0 then none else some 0 }
  s.transition .starting .started

/-- Starts the server with the configuration that is kept. A server that cannot be started is
as before. -/
def start : Work Unit := do
  Action.atOnce (transition .created .starting)
  match ← Action.outcome loadFirst with
  | .error e => do
    Action.modify fun s => { s with server.lifecycle := .created }
    throw e
  | .ok () => Action.atOnce launch

def endLoops : Work Unit :=
  Action.ofTask (Task.await (fun s => s.server.reloader != .busy) fun s =>
    { s with server.reloader := .ended, server.sinceSweep := none })

def stop : Work Unit := do
  Action.atOnce (transition .started .stopped)
  endLoops
  onLink Link.close

def resolve (ns bucket : String) (s : Site) : Except QuotaError Bucket × Site :=
  match s.server.active.buckets.find ns bucket s.roster with
  | (some b, buckets, roster) =>
    (.ok b, { s with server.active.buckets := buckets, roster := roster.report b.id })
  | (none, buckets, roster) =>
    (.error (.noSuchBucket ns bucket), { s with server.active.buckets := buckets, roster })

/-- Only a server that runs gives tokens, and only a positive number of them. -/
def accept (ns bucket : String) (tokens : Int) (s : Site) : Except QuotaError Bucket × Site :=
  if s.server.lifecycle ≠ .started then (.error (.lifecycle "Server is not started"), s)
  else if tokens < 1 then (.error (.validation "tokens must be positive"), s)
  else s.resolve ns bucket

/-- Takes tokens from the bucket that a name stands for, and counts the request if the bucket
is a dynamic one. -/
def allow (ns bucket : String) (tokens : Int) (maxWait : Nat) : Work Verdict := do
  let b ← Action.atOnce (accept ns bucket tokens)
  let retry ← Action.read fun s => s.server.retry
  let verdict ← onLink (Link.take retry b tokens maxWait)
  if b.dynamic then
    Action.modify fun s =>
      { s with server.stats := s.server.stats.record ns bucket verdict.admitted }
  return verdict

def isHealthy : Work Bool := onLink Link.isHealthy

def sweeps : Nat → Site → Site
  | 0, s => s
  | count + 1, s => sweeps count s.sweep.2

/-- Lets time pass: there is a sweep after every interval since the start. -/
def elapse (millis : Nat) (s : Site) : Site :=
  match s.server.sinceSweep with
  | none => s
  | some since =>
    let total := since + millis
    let s := sweeps (total / s.server.sweepMillis) s
    { s with server.sinceSweep := some (total % s.server.sweepMillis) }

end TokenQuota.Site
