import TokenQuota.Config.Validity
import TokenQuota.Number.Decimal

/-! The settings of a process, read from named variables. -/

namespace TokenQuota

structure Settings where
  bindAddress : String
  /-- Where the store is; empty keeps the state in memory. -/
  redisUrl : String
  /-- Attempts of a request before it gives up. -/
  connectionRetries : Nat
  /-- Milliseconds of the shortest delay between attempts. -/
  retryBackoffMillis : Nat
  /-- Where configurations are kept; empty keeps them in memory. -/
  configDir : String
  /-- Seconds between sweeps of idle dynamic buckets; zero turns them off. -/
  reapIntervalSeconds : Nat
  logLevel : String
deriving DecidableEq

namespace Settings

def default : Settings :=
  ⟨"127.0.0.1:3000", "redis://127.0.0.1:6379", 3, 50, "", 60, "info"⟩

/-- A variable whose value is not of its kind. -/
structure Unreadable where
  variable_ : String
deriving DecidableEq

def Unreadable.message (e : Unreadable) : String :=
  s!"Failed to parse environment variable {e.variable_}"

/-- A number among the variables, or its default. -/
def countOf (vars : String → Option String) (name : String) (otherwise : Nat) :
    Except Unreadable Nat :=
  match vars name with
  | none => .ok otherwise
  | some text =>
    match Decimal.unsigned? (Bytes.ofString text) with
    | some n => .ok n
    | none => .error ⟨name⟩

/-- The settings that variables make. They are not checked, so that others may still
override them. -/
def ofVariables (vars : String → Option String) : Except Unreadable Settings := do
  let connectionRetries ← countOf vars "CONNECTION_RETRIES" default.connectionRetries
  let retryBackoffMillis ← countOf vars "RETRY_BACKOFF_MS" default.retryBackoffMillis
  let reapIntervalSeconds ←
    countOf vars "DYNAMIC_REAP_INTERVAL_SECS" default.reapIntervalSeconds
  return {
    bindAddress := (vars "BIND_ADDRESS").getD default.bindAddress
    redisUrl := (vars "REDIS_URL").getD default.redisUrl
    connectionRetries
    retryBackoffMillis
    configDir := (vars "CONFIG_DIR").getD default.configDir
    reapIntervalSeconds
    logLevel := (vars "LOG_LEVEL").getD default.logLevel }

end Settings

/-- An address to listen at has a host and a number with a colon between them. -/
def checkBindAddress (address : String) : Except Violation Unit :=
  if address.isEmpty then .error .noAddress
  else if address.toList.contains ':' then .ok ()
  else .error .addressWithoutColon

/-- A store is named by a scheme; no name selects the memory of the process. -/
def checkRedisUrl (url : String) : Except Violation Unit :=
  if url.isEmpty || url.startsWith "redis://" || url.startsWith "rediss://" then .ok ()
  else .error .redisScheme

def checkSettings (address url : String) (retries : Nat) : Except Violation Unit := do
  checkBindAddress address
  checkRedisUrl url
  if retries = 0 then throw .noRetries

def Settings.check (s : Settings) : Except Violation Unit :=
  checkSettings s.bindAddress s.redisUrl s.connectionRetries

end TokenQuota
