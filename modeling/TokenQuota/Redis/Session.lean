import TokenQuota.Redis.Location
import TokenQuota.Redis.Reply
import TokenQuota.TokenBucket.Basic
import TokenQuota.TokenBucket.Stale

/-! Talking to a Redis store: each command gets one reply. -/

namespace TokenQuota.Redis

/-- The name of a command and its arguments. -/
abbrev Command := List String

/-- The reason why a store cannot be reached. -/
inductive Unreachable
  | noNetwork
  | noSocket
  /-- The process keeps to the store in its memory. -/
  | notServed
deriving DecidableEq

def Unreachable.message : Unreachable → String
  | noNetwork => "Network is unreachable (os error 101)"
  | noSocket => "No such file or directory (os error 2)"
  | notServed => "only the store in memory is served"

def Unreachable.refusal (reason : Unreachable) : String :=
  s!"Failed to connect to Redis: {reason.message}"

def Unreachable.toError (reason : Unreachable) : QuotaError :=
  .connection reason.refusal

structure Session where
  /-- The replies to come. -/
  replies : List Reply
  /-- The commands so far. -/
  sent : List Command

/-- A session in which nothing was said yet, if the store can be reached. -/
def Session.begin (replies : Except Unreachable (List Reply)) : Except QuotaError Session :=
  match replies with
  | .ok replies => .ok ⟨replies, []⟩
  | .error reason => .error reason.toError

/-- A part of a session, which may fail. -/
abbrev Exchange := ExceptT QuotaError (StateM Session)

namespace Exchange

def ended : String := "unexpected end of file"

def hear (c : Command) : StateM Session (Option Reply) := fun s =>
  (s.replies.head?, ⟨s.replies.drop 1, s.sent ++ [c]⟩)

def say {α : Type} (failure : String) (c : Command) (expect : Reply → Reply.Expected α) :
    Exchange α := ExceptT.mk do
  match ← hear c with
  | none => return .error (.connection s!"{failure}: {ended}")
  | some (.error signalled) =>
    return .error (.connection s!"{failure}: {Reply.errorText signalled}")
  | some reply =>
    match expect reply with
    | .ok a => return .ok a
    | .error detail => return .error (.connection s!"{failure}: {detail}")

def ping : Exchange Unit := do
  let _ ← say "Ping failed" ["PING"] Reply.text

/-- The clock of the store, in seconds since 1970. -/
def time : Exchange Nat := do
  let (seconds, _) ← say "TIME failed" ["TIME"] (Reply.both Reply.unsigned Reply.unsigned)
  return seconds

/-- Loads a script: its name. -/
def load (script : String) : Exchange String :=
  say "SCRIPT LOAD failed" ["SCRIPT", "LOAD", script] Reply.text

/-- The command that runs a loaded script on the cells of a bucket. -/
def takeCommand (script : String) (keys : CellKeys) (t : Take) : Command :=
  ["EVALSHA", script, "2", keys.nextAvailable, keys.accumulated] ++
    t.arguments.map Digits.textInt

/-- Runs a loaded script on the cells of a bucket: the number that reports the decision. -/
def take (script : String) (keys : CellKeys) (t : Take) : Exchange Int :=
  say "Script execution failed" (takeCommand script keys t) Reply.signed

def pattern : String := "*:*:*"

def pageSize : Nat := 500

def scanCommand (cursor : Nat) : Command :=
  ["SCAN", Digits.text cursor, "MATCH", pattern, "COUNT", Digits.text pageSize]

/-- The page of keys at a cursor, with the cursor of the next page. -/
def page (cursor : Nat) : Exchange (Nat × List String) :=
  say "SCAN failed" (scanCommand cursor) (Reply.both Reply.unsigned Reply.texts)

/-- The keys of cells on the pages from a cursor on, at most `limit` pages. The cursor after
the last page is zero. -/
def scanFrom : Nat → Nat → Exchange (List String)
  | 0, _ => throw (.connection s!"SCAN failed: {ended}")
  | limit + 1, cursor => do
    let (next, keys) ← page cursor
    let keys := keys.filter StateKey.isStateKey
    if next = 0 then return keys else return keys ++ (← scanFrom limit next)

/-- The keys of all cells. There are no more pages than replies to come. -/
def scan : Exchange (List String) := do
  scanFrom ((← get).replies.length + 1) 0

/-- Deletes keys: the number of those that were there. -/
def delete (keys : List String) : Exchange Nat :=
  if keys.isEmpty then return 0 else say "DEL failed" ("DEL" :: keys) Reply.unsigned

/-- Deletes the cells that a configuration does not account for: how many there were. -/
def clean (config : ServiceConfig) : Exchange Nat :=
  config.clean scan delete

end Exchange

end TokenQuota.Redis
