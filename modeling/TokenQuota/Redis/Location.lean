import TokenQuota.Error
import TokenQuota.Http.Target
import TokenQuota.Redis.Url

/-! The stores that URLs name. -/

namespace TokenQuota.Redis

inductive Endpoint
  | tcp (host : String) (number : Nat)
  | socket (path : Bytes)
deriving DecidableEq

/-- Where a store is, and how to log in. -/
structure Location where
  endpoint : Endpoint
  database : Int
  user : Option String
  password : Option String
deriving DecidableEq

/-- The reason why a URL does not name a store. -/
inductive UrlFault
  | notParsed
  | noHost
  | noTls
  | badDatabase
  | badUser
  | badPassword
  | noPath
deriving DecidableEq

def UrlFault.message : UrlFault → String
  | notParsed => "Redis URL did not parse- InvalidClientConfig"
  | noHost => "Missing hostname- InvalidClientConfig"
  | noTls => "can't connect with TLS, the feature is not enabled- InvalidClientConfig"
  | badDatabase => "Invalid database number- InvalidClientConfig"
  | badUser => "Username is not valid UTF-8 string- InvalidClientConfig"
  | badPassword => "Password is not valid UTF-8 string- InvalidClientConfig"
  | noPath => "Missing path- InvalidClientConfig"

def UrlFault.toError (fault : UrlFault) : QuotaError :=
  .connection s!"Failed to create Redis client: {fault.message}"

/-- The number of the door at which a store listens if a URL gives none. -/
def usualNumber : Nat := 6379

namespace Url

/-- The text that characters with percent codes write, if it is valid UTF-8. -/
def decode (cs : List Char) : Option String :=
  Http.decodeSegment (String.ofList cs)

def login (u : Url) : Except UrlFault (Option String × Option String) := do
  let user ← if u.user.isEmpty then pure none
    else match decode u.user with
      | some user => pure (some user)
      | none => throw .badUser
  let password ← match u.password with
    | none => pure none
    | some password =>
      match decode password with
      | some password => pure (some password)
      | none => throw .badPassword
  return (user, password)

def databaseOf (cs : List Char) : Except UrlFault Int :=
  match Decimal.signed? (Bytes.ofString (String.ofList cs)) with
  | some n => .ok n
  | none => .error .badDatabase

def trimSlashes (cs : List Char) : List Char :=
  ((cs.dropWhile (· == '/')).reverse.dropWhile (· == '/')).reverse

def overNetwork (u : Url) : Except UrlFault Location := do
  if u.host.isEmpty then throw .noHost
  if u.scheme = .encrypted then throw .noTls
  let path := trimSlashes (['/'].intercalate (u.segments.getD []))
  let database ← if path.isEmpty then pure 0 else databaseOf path
  let (user, password) ← u.login
  return ⟨.tcp (String.ofList u.host) (u.number.getD usualNumber), database, user, password⟩

/-- The value of the last parameter of a name in a query, where a plus sign is a blank. -/
def parameter? (u : Url) (name : String) : Option String :=
  let parts := (Text.splitOn '&' u.query).filter fun part => !part.isEmpty
  let written := fun (cs : List Char) =>
    decode (cs.map fun c => if c = '+' then ' ' else c)
  let named := parts.filter fun part => written (part.takeWhile (· != '=')) = some name
  named.getLast?.bind fun part => written ((part.dropWhile (· != '=')).drop 1)

def overSocket (u : Url) : Except UrlFault Location := do
  match u.segments with
  | none => throw .noPath
  | some segments =>
    if !(u.host.isEmpty || u.host = "localhost".toList) then throw .noPath
    let path := segments.flatMap fun s =>
      0x2F :: Http.percentDecode (Bytes.ofString (String.ofList s))
    let database ← match u.parameter? "db" with
      | none => pure 0
      | some n => databaseOf n.toList
    return ⟨.socket path, database, u.parameter? "user", u.parameter? "pass"⟩

end Url

def Location.ofUrl (text : String) : Except UrlFault Location :=
  match Url.ofText? text with
  | none => .error .notParsed
  | some u => if u.scheme = .local_ then u.overSocket else u.overNetwork

end TokenQuota.Redis
