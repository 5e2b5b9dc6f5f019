import TokenQuota.Http.Operation

/-! The access log: one entry for each request, and one for its answer. -/

namespace TokenQuota.Http

inductive LogEntry
  | incoming (method target client user : String)
  | completed (method target status : String)
  /-- The service could not answer. -/
  | failed (method target status : String)
deriving DecidableEq

namespace LogEntry

def level : LogEntry → String
  | incoming .. | completed .. => "INFO"
  | failed .. => "WARN"

def message : LogEntry → String
  | incoming .. => "Incoming request"
  | completed .. => "Request completed"
  | failed .. => "Request failed"

def fields : LogEntry → List (String × String)
  | incoming method target client user =>
    [("method", method), ("uri", target), ("client_ip", client), ("user", user)]
  | completed method target status | failed method target status =>
    [("method", method), ("uri", target), ("status", status)]

/-- The levels of a log whose entries show no requests. -/
def quietLevels : List String := ["off", "error"]

def isShown (logLevel : String) (e : LogEntry) : Bool :=
  !(quietLevels.contains logLevel || (logLevel == "warn" && e.level != "WARN"))

def text (e : LogEntry) : String :=
  " ".intercalate
    (e.level :: e.message :: e.fields.map fun f => f.1 ++ "=" ++ f.2)

end LogEntry

namespace Request

/-- The address of the client: the first one that was passed on, or else the one that a
gateway saw, or else the one that the request came from. -/
def client (r : Request) : String :=
  match r.readableHeader? "x-forwarded-for" with
  | some addresses => Text.trim (String.ofList (addresses.toList.takeWhile (· != ',')))
  | none =>
    match r.readableHeader? "x-real-ip" with
    | some address => address
    | none => r.peer.getD "unknown"

def logEntry (r : Request) : LogEntry :=
  .incoming r.method.text r.target.text r.client
    ((r.readableHeader? userHeader).getD anonymous)

def outcomeEntry (r : Request) (status : Status) : LogEntry :=
  if status.isServerFault then .failed r.method.text r.target.text status.text
  else .completed r.method.text r.target.text status.text

end Request

end TokenQuota.Http
