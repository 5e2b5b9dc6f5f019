import TokenQuota.Http.Service
import TokenQuota.Http.Wire
import TokenQuota.Server.Applying

/-! Answering what comes over a connection. -/

namespace TokenQuota.Http

def hostOf (address : String) : String :=
  let host := ((address.toList.reverse.dropWhile (· != ':')).drop 1).reverse
  String.ofList (host.filter fun c => c != '[' && c != ']')

namespace Connection

/-- Answers a request, and applies the change that it may have made. -/
def answer (r : Request) : Task Site (Response × List LogEntry) := do
  let answer ← r.serve
  let _ ← Site.settle.run
  return answer

/-- Answers the only request of a connection. Anything else is malformed. -/
def answerOnce (peer : Option String) (octets : Bytes) :
    Task Site (Response × List LogEntry) :=
  match Wire.read peer octets with
  | .read incoming _ => answer incoming.request
  | _ => return (Wire.malformed, [])

/-- What comes of a request on a connection that may stay open. -/
structure Turn where
  /-- The written answer. -/
  answer : Bytes
  log : List LogEntry
  /-- What follows the request. -/
  rest : Bytes
  staysOpen : Bool

/-- Answers the first request in what came so far, unless its end is still to come. -/
def next? (peer : Option String) (octets : Bytes) : Option (Task Site Turn) :=
  match Wire.read peer octets with
  | .unfinished => none
  | .malformed => some (return ⟨Wire.write Wire.malformed false, [], [], false⟩)
  | .read incoming rest => some do
    let (response, log) ← answer incoming.request
    return ⟨Wire.write response incoming.staysOpen, log, rest, incoming.staysOpen⟩

end Connection

end TokenQuota.Http
