import TokenQuota.CommandLine.EnvFile
import TokenQuota.CommandLine.Options
import TokenQuota.Redis.Session
import TokenQuota.Server.Running
import TokenQuota.Settings

/-! Starting the service from the command line, and how the program ends. -/

namespace TokenQuota.CommandLine

structure Ending where
  code : Nat
  stdout : String
  stderr : String
deriving DecidableEq

/-- A cause with its number, if there are several ones. Its further lines are indented. -/
def causeText (number : Option Nat) (cause : String) : String :=
  let (first, further) := match number with
    | none => ("    ", "    ")
    | some n =>
      let digits := Digits.text n
      (String.ofList (List.replicate (5 - digits.length) ' ') ++ digits ++ ": ", "       ")
  let lines := (Text.splitOn '\n' cause.toList).map String.ofList
  first ++ ("\n" ++ further).intercalate lines

def causesText (causes : List String) : String :=
  match causes with
  | [cause] => causeText none cause
  | causes => "\n".intercalate (causes.zipIdx.map fun c => causeText (some c.2) c.1)

namespace Ending

def done : Ending := ⟨0, "", ""⟩

def told (text : String) : Ending := ⟨0, text, ""⟩

def ofUsageFault (fault : UsageFault) : Ending := ⟨2, "", fault.message⟩

def failed (what : String) (causes : List String) : Ending :=
  ⟨1, "", s!"Error: {what}\n\nCaused by:\n{causesText causes}"⟩

def causes (e : QuotaError) : List String :=
  match e with
  | .serialization fault => [e.message, fault.message]
  | _ => [e.message]

def ofError (what : String) (e : QuotaError) : Ending :=
  failed what (causes e)

end Ending

structure Launch where
  settings : Settings
  /-- The file with the configuration to start with. -/
  initialPath : Option String
deriving DecidableEq

/-- The settings with the options of a line over them. -/
def override (given : Given) (s : Settings) : Settings :=
  { s with
    bindAddress := (given.lookup .bindAddress).getD s.bindAddress
    redisUrl := (given.lookup .redisUrl).getD s.redisUrl
    configDir := (given.lookup .configDir).getD s.configDir
    logLevel := (given.lookup .logLevel).getD s.logLevel }

namespace Launch

/-- The store of the settings can be named. An empty name stands for the memory. -/
def checkStore (s : Settings) : Except Ending Unit :=
  if s.redisUrl.isEmpty then .ok ()
  else match Redis.Location.ofUrl s.redisUrl with
    | .ok _ => .ok ()
    | .error fault => .error (.ofError "Failed to create Redis connector" fault.toError)

def ofGiven (vars : String → Option String) (given : Given) : Except Ending Launch := do
  let settings ← (Settings.ofVariables vars).mapError fun e =>
    Ending.ofError "Failed to load configuration" (.validation e.message)
  let settings := override given settings
  settings.check.mapError fun v => .ofError "Invalid configuration" (.ofViolation v)
  checkStore settings
  return ⟨settings, given.lookup .initialConfig⟩

def ofWords (vars : String → Option String) (words : List String) : Except Ending Launch :=
  match Wish.ofWords words with
  | .error fault => .error (.ofUsageFault fault)
  | .ok .help => .error (.told helpText)
  | .ok .version => .error (.told versionText)
  | .ok (.run given) => ofGiven vars given

def initial (l : Launch) (read : String → Except FileError Bytes) : Except Ending ServiceConfig :=
  match l.initialPath with
  | none => .ok .empty
  | some path => do
    let content ← (read path).mapError fun e =>
      Ending.failed s!"Failed to read {path}" [e.message]
    (ServiceConfig.read content).mapError fun failure =>
      .ofError "Failed to parse initial configuration" (.ofFailure failure)

/-- The site of the service, which was not started yet. Nobody can connect to a store that is
refused. -/
def site (l : Launch) (initial : ServiceConfig) (storage : Storage) (refusal : Option String)
    (now : Int) (wallClock : UInt64) : Site :=
  let s := l.settings
  let retry : Retry := ⟨s.connectionRetries, s.retryBackoffMillis, fun _ => 0⟩
  let backend := match refusal with
    | none => Backend.atTime now
    | some refusal =>
      { Backend.atTime now with outages := { Outages.none with connects := .always, refusal } }
  { server := .create initial (s.reapIntervalSeconds * 1000) retry wallClock
    link := ⟨.none, backend⟩
    archive := .ofStorage storage
    roster := .empty
    wallClock }

/-- Runs a work of the site. One that waits for others fails. -/
def perform {α : Type} (what : String) (a : Site.Work α) (s : Site) : Except Ending α × Site :=
  match (ExceptT.run a).run Site.elapse s with
  | (some (.ok a), s) => (.ok a, s)
  | (some (.error e), s) => (.error (.ofError what e), s)
  | (none, s) => (.error (.failed what ["interrupted"]), s)

def start (s : Site) : Except Ending Site :=
  match perform "Failed to start quota server" Site.start s with
  | (.ok (), s) => .ok s
  | (.error ending, _) => .error ending

/-- Stops the service: how the program ends. -/
def stop (s : Site) : Ending :=
  match (perform "Failed to stop quota server" (do Site.settle; Site.stop) s).1 with
  | .ok () => .done
  | .error ending => ending

/-- The reason why an address cannot be listened at, if its text shows one. -/
def addressFault? (address : String) : Option String :=
  match StateKey.splitLast? address.toList with
  | none => some "invalid socket address"
  | some (_, number) =>
    match Decimal.unsigned? (Bytes.ofString (String.ofList number)) with
    | some n => if n < 65536 then none else some "invalid port value"
    | none => some "invalid port value"

def refuseAddress (address reason : String) : Ending :=
  .failed s!"Failed to bind {address}" [reason]

def address (l : Launch) : Except Ending String :=
  let address := l.settings.bindAddress
  match addressFault? address with
  | some reason => .error (refuseAddress address reason)
  | none => .ok address

end Launch

end TokenQuota.CommandLine
