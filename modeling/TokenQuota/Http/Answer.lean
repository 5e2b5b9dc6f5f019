import TokenQuota.Http.Body
import TokenQuota.Http.Resource
import TokenQuota.Server.Running

/-! What the service answers, and how it is written. -/

namespace TokenQuota

open Json

/-- What a check of the service finds. -/
structure Health where
  /-- The server gives tokens. -/
  started : Bool
  /-- The store answers. -/
  reachable : Bool
  /-- Seconds since 1970. -/
  timestamp : UInt64
  /-- Seconds since the server was made. -/
  uptime : UInt64
  /-- The version of the active configuration. -/
  version : UInt64
deriving DecidableEq

namespace Health

def isHealthy (h : Health) : Bool :=
  h.started && h.reachable

def text (h : Health) : String :=
  if !h.started then "unavailable" else if h.reachable then "healthy" else "degraded"

def storeText (h : Health) : String :=
  if h.reachable then "healthy" else "unavailable"

def serviceVersion : String := "0.1.0"

/-- The written form of a check. The store is asked at one instant, so its answer takes no
time. -/
def write (h : Health) : Bytes :=
  writeObject [
    ("status", writeString h.text),
    ("timestamp", Digits.ofNat h.timestamp.toNat),
    ("version", writeString serviceVersion),
    ("uptime_seconds", Digits.ofNat h.uptime.toNat),
    ("config_version", Digits.ofNat h.version.toNat),
    ("dependencies", writeObject [
      ("store", writeObject [
        ("status", writeString h.storeText),
        ("response_time_ms", Digits.ofNat 0),
        ("error", if h.reachable then writeNull
          else writeString "Backing store not reachable")])])]

end Health

structure Grant where
  ns : String
  bucket : String
  tokens : Int
  /-- Nanoseconds that the caller has to wait before using the tokens. -/
  wait : Nat
deriving DecidableEq

/-- The milliseconds of a wait, as a number of 64 bits. -/
def Grant.waitMillis (g : Grant) : Nat :=
  g.wait / 1000000 % Nat.pow 2 64

def Grant.write (g : Grant) : Bytes :=
  writeObject [
    ("namespace", writeString g.ns),
    ("bucket", writeString g.bucket),
    ("tokens", Digits.ofInt g.tokens),
    ("wait_millis", Digits.ofNat g.waitMillis)]

def Rank.write (r : Rank) : Bytes :=
  writeObject [("bucket", writeString r.bucket), ("score", Digits.ofNat r.score)]

def Scores.write (s : Scores) : Bytes :=
  writeObject [("hits", Digits.ofNat s.hits), ("misses", Digits.ofNat s.misses)]

def QuotaError.write (e : QuotaError) : Bytes :=
  writeObject [
    ("error", writeString e.code),
    ("message", writeString e.message),
    ("code", Digits.ofNat e.status.code)]

namespace Http.Response

def bare (status : Status) : Response := ⟨status, [], []⟩

def json (status : Status) (body : Bytes) : Response :=
  ⟨status, [("content-type", "application/json")], body⟩

def plain (status : Status) (message : String) : Response :=
  ⟨status, [("content-type", "text/plain; charset=utf-8")], Bytes.ofString message⟩

def ofError (e : QuotaError) : Response := json e.status e.write

def ofBodyFault (fault : BodyFault) : Response := plain fault.status fault.message

def ofBadSegment (fault : Resource.BadSegment) : Response := plain .badRequest fault.message

/-- A change was accepted. It is applied later. -/
def accepted (message user : String) : Response :=
  json .accepted (writeObject [("message", writeString message), ("user", writeString user)])

def granted (g : Grant) : Response := json .ok g.write

def currentConfig (c : ServiceConfig) : Response :=
  json .ok (writeObject [("message", writeString "Current configuration"), ("config", c.write)])

def history (configs : List ServiceConfig) : Response :=
  json .ok (writeObject [
    ("count", Digits.ofNat configs.length),
    ("configs", writeList (configs.map ServiceConfig.write))])

def ranks (l : List Rank) : Response := json .ok (writeList (l.map Rank.write))

def scores (s : Scores) : Response := json .ok s.write

def health (h : Health) : Response :=
  json (if h.isHealthy then .ok else .serviceUnavailable) h.write

end Http.Response

end TokenQuota
