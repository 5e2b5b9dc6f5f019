import Std.Async.DNS
import Std.Async.Signal
import Std.Async.System
import Std.Async.TCP
import Std.Sync.Mutex
import Std.Time.DateTime.Timestamp
import TokenQuota.CommandLine.Launch
import TokenQuota.Http.Connection

/-! The program: it reads the files and variables around it, starts the service, and answers
requests until it is told to stop. -/

open Std.Async

namespace TokenQuota.Main

def fileError : IO.Error → FileError
  | .noFileOrDirectory .. | .noSuchThing .. => .noFile
  | .inappropriateType .. => .isDirectory
  | .alreadyExists .. => .fileExists
  | _ => .inputOutput

def readFile (path : String) : IO (Except FileError Bytes) := do
  try
    return .ok (← IO.FS.readBinFile path).data.toList
  catch e => return .error (fileError e)

/-- Nanoseconds since 1970. -/
def now : IO Int := do
  return (← Std.Time.Timestamp.now).toNanosecondsSinceUnixEpoch.val

def readDirectory (path : String) : IO Directory := do
  match ← readFile path with
  | .ok _ => return .blocked
  | .error .noFile => return .absent
  | .error _ =>
    let mut directory := Directory.present ∅
    for entry in ← (← IO.FS.realPath path).readDir do
      match ← readFile s!"{path}/{entry.fileName}" with
      | .ok content => directory := directory.put entry.fileName (.file content)
      | .error _ => directory := directory.put entry.fileName .directory
    return directory

/-- Writes the files of a directory that have changed. The one that names the current content
comes last. -/
def writeDirectory (path : String) (before after : Directory) : IO Unit := do
  let changed := after.nodes.entries.filter fun e => before.nodes.get? e.1 != some e.2
  let (current, others) := changed.partition fun e => e.1 == Folder.currentFile
  if !changed.isEmpty then IO.FS.createDirAll path
  for (name, node) in others ++ current do
    match node with
    | .directory => pure ()
    | .file content =>
      let draft := s!"{path}/{Folder.draftFile name}"
      IO.FS.writeBinFile draft ⟨content.toArray⟩
      IO.FS.rename draft s!"{path}/{name}"

structure Running where
  site : Site
  /-- The reading of the clock when the service was last used, in nanoseconds. -/
  used : Int
  configDir : String
  logLevel : String

def directoryOf (a : Archive) : Directory :=
  match a.storage with
  | .folder f => f.directory
  | .shelf _ => .absent

/-- Brings the clock of the service up to date, and makes the sweeps that are due. -/
def Running.awake (r : Running) (now : Int) : Running :=
  let site := r.site.elapse ((now - r.used) / 1000000).toNat
  let backend := { site.link.backend with now }
  let link := { site.link with backend }
  { r with site := { site with link, wallClock := UInt64.ofNat (now / 1000000000).toNat }, used := now }

/-- Uses the service. Its directory is read before and written afterwards. -/
def use {α : Type} (state : Std.Mutex Running) (t : TokenQuota.Task Site α) : IO (Option α) :=
  state.atomically do
    let r := (← get).awake (← now)
    let before ← if r.configDir.isEmpty then pure Directory.absent else readDirectory r.configDir
    let archive := match r.site.archive.storage with
      | .folder f => { r.site.archive with storage := .folder { f with directory := before } }
      | .shelf _ => r.site.archive
    let (result, site) := t.run Site.elapse { r.site with archive }
    writeDirectory r.configDir before (directoryOf site.archive)
    set { r with site }
    return result

partial def converse (state : Std.Mutex Running) (logLevel : String) (client : TCP.Socket.Client)
    (peer : Option String) (octets : Bytes) : Async Unit := do
  match Http.Connection.next? peer octets with
  | none =>
    match ← client.recv? 65536 with
    | none => pure ()
    | some chunk => converse state logLevel client peer (octets ++ chunk.data.toList)
  | some t =>
    match ← use state t with
    | none => client.shutdown
    | some turn =>
      for entry in turn.log do
        if entry.isShown logLevel then IO.println entry.text
      client.send ⟨turn.answer.toArray⟩
      if turn.staysOpen then converse state logLevel client peer turn.rest else client.shutdown

def peerOf (client : TCP.Socket.Client) : IO (Option String) := do
  try
    match ← client.getPeerName with
    | .v4 a => return some (toString a.addr)
    | .v6 a => return some (toString a.addr)
  catch _ => return none

partial def accept (state : Std.Mutex Running) (logLevel : String) (server : TCP.Socket.Server) :
    Async Unit := do
  let client ← server.accept
  let peer ← peerOf client
  background (converse state logLevel client peer [])
  accept state logLevel server

def resolve (address : String) : IO (List Std.Net.SocketAddress) := do
  let host := Http.hostOf address
  let number := String.ofList (address.toList.reverse.takeWhile (· != ':')).reverse
  let door := UInt16.ofNat ((Decimal.unsigned? (Bytes.ofString number)).getD 0)
  let found ← (DNS.getAddrInfo host number).block
  return found.toList.map fun a => match a with
    | .v4 addr => .v4 ⟨addr, door⟩
    | .v6 addr => .v6 ⟨addr, door⟩

def listen (address : String) : IO TCP.Socket.Server := do
  let server ← TCP.Socket.Server.mk
  match ← resolve address with
  | [] => throw (IO.userError "could not resolve to any address")
  | found :: _ =>
    server.bind found
    server.listen 1024
    return server

/-- Waits until the program is told to stop. -/
def waitForSignal : IO Unit := do
  let terminated ← (← Signal.Waiter.mk .sigterm false).wait
  let interrupted ← (← Signal.Waiter.mk .sigint false).wait
  let _ ← IO.waitAny [terminated, interrupted]

/-- Starts the service, and answers requests until the program is told to stop. -/
def serve (launch : CommandLine.Launch) : IO (Except CommandLine.Ending CommandLine.Ending) :=
  ExceptT.run do
    let content ← (readFile (launch.initialPath.getD "") : IO _)
    let initial ← ExceptT.mk (pure (launch.initial fun _ => content))
    let settings := launch.settings
    let storage ← if settings.configDir.isEmpty then pure (.shelf .empty)
      else do
        let directory ← (readDirectory settings.configDir : IO _)
        pure (Storage.folder { Folder.absent with directory })
    let refusal := if settings.redisUrl.isEmpty then none
      else some Redis.Unreachable.notServed.refusal
    let clock ← (now : IO _)
    let site := launch.site initial storage refusal clock
      (UInt64.ofNat (clock / 1000000000).toNat)
    let site ← ExceptT.mk (pure (CommandLine.Launch.start site))
    let address ← ExceptT.mk (pure launch.address)
    let server ← ExceptT.mk do
      try
        return .ok (← listen address)
      catch e => return .error (CommandLine.Launch.refuseAddress address (toString e))
    let state ← (Std.Mutex.new ⟨site, clock, settings.configDir, settings.logLevel⟩ : IO _)
    let _ ← ( Async.toIO (accept state settings.logLevel server) : IO _)
    (waitForSignal : IO _)
    let r ← (state.atomically get : IO _)
    return CommandLine.Launch.stop r.site

def run (words : List String) : IO CommandLine.Ending := do
  let env ← Std.Async.System.getEnv
  let file := (← readFile ".env").toOption
  match CommandLine.Launch.ofWords (CommandLine.EnvFile.load env.get? file) words with
  | .error ending => return ending
  | .ok launch =>
    match ← serve launch with
    | .ok ending | .error ending => return ending

end TokenQuota.Main

def main (words : List String) : IO UInt32 := do
  let ending ← TokenQuota.Main.run words
  if !ending.stdout.isEmpty then IO.println ending.stdout
  if !ending.stderr.isEmpty then IO.eprintln ending.stderr
  return UInt32.ofNat ending.code
