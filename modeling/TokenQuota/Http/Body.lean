import TokenQuota.Config.Format
import TokenQuota.Http.MediaType

/-! What the bodies of requests say. -/

namespace TokenQuota

open Json

structure TokenRequest where
  tokens : Int64
  maxWaitMillis : UInt64
deriving DecidableEq

namespace TokenRequest

/-- One token at once. -/
def default : TokenRequest := ⟨1, 0⟩

/-- The fields of a request that are read so far. -/
structure Draft where
  tokens : Option (Option Int64) := none
  maxWaitMillis : Option (Option UInt64) := none

/-- The request; both fields have a default. -/
def Draft.finish (d : Draft) : TokenRequest :=
  ⟨d.tokens.join.getD default.tokens, d.maxWaitMillis.join.getD default.maxWaitMillis⟩

end TokenRequest

structure NewBucket where
  name : String
  config : BucketConfig
deriving DecidableEq

namespace NewBucket

/-- The name and the other members that are read so far. -/
structure Draft where
  name : Option String := none
  /-- The other members, the latest one first. -/
  others : List (String × Value) := []

end NewBucket

namespace BucketConfig

def once {α : Type} (name : String) (before : Option α) (value : Except Fault α) :
    Except Fault (Option α) :=
  if before.isSome then .error (.repeatedField name) else value.map some

/-- Adds a member to the fields of a bucket; other members are passed over. -/
def Draft.add (d : Draft) (m : String × Value) : Except Fault Draft :=
  match m.1 with
  | "fill_rate" => do return { d with fillRate := ← once m.1 d.fillRate m.2.signed }
  | "size" => do return { d with size := ← once m.1 d.size m.2.signed }
  | "max_idle_millis" => do
    return { d with maxIdleMillis := ← once m.1 d.maxIdleMillis m.2.signed }
  | "max_debt_millis" => do
    return { d with maxDebtMillis := ← once m.1 d.maxDebtMillis m.2.signed }
  | "dynamic" => do return { d with dynamic := ← once m.1 d.dynamic m.2.boolean? }
  | _ => .ok d

def ofMembers (members : List (String × Value)) : Except Fault BucketConfig := do
  let draft ← members.foldlM Draft.add {}
  draft.finish

end BucketConfig

/-- The bucket to be added, unless its name or a field is missing. -/
def NewBucket.Draft.finish (d : Draft) : Except Fault NewBucket :=
  match d.name with
  | none => .error (.missingField "name")
  | some name => do return ⟨name, ← BucketConfig.ofMembers d.others.reverse⟩

namespace Json.Reader

def tokenMember (d : TokenRequest.Draft) (name : String) : Reader TokenRequest.Draft :=
  match name with
  | "tokens" => do return { d with tokens := some (← field name d.tokens (optional signed)) }
  | "max_wait_millis" => do
    return { d with maxWaitMillis := some (← field name d.maxWaitMillis (optional unsigned)) }
  | _ => do
    value name skip
    return d

def tokenRequest : Reader TokenRequest :=
  record "struct AllowRequest"
    (do
      let tokens ← item? 0 (optional signed)
      let maxWaitMillis ← item? 1 (optional unsigned)
      return TokenRequest.Draft.finish ⟨tokens, maxWaitMillis⟩)
    (do
      let draft ← members {} tokenMember
      return draft.finish)

/-- A member of a bucket to be added: its name, or anything else. -/
def newBucketMember (d : NewBucket.Draft) (name : String) : Reader NewBucket.Draft :=
  match name with
  | "name" => do return { d with name := ← field name d.name text }
  | _ => do return { d with others := (name, ← value name any) :: d.others }

/-- A bucket to be added: an object with its name beside the fields of the bucket. -/
def newBucket : Reader NewBucket :=
  object "struct NewBucketRequest" do
    let draft ← members {} newBucketMember
    ofExcept draft.finish

end Json.Reader

namespace Http

def bodyLimit : Nat := 2097152

/-- The reason why the body of a request cannot be used. -/
inductive BodyFault
  | notJson
  | tooLong
  | unreadable (failure : Failure)
deriving DecidableEq

namespace BodyFault

/-- The status that reports a fault. A text that is not JSON is told from one of another shape
than expected. -/
def status : BodyFault → Status
  | notJson => .unsupportedMediaType
  | tooLong => .payloadTooLarge
  | unreadable failure =>
    if failure.fault.isShape then .unprocessableEntity else .badRequest

def message : BodyFault → String
  | notJson => "Expected request with `Content-Type: application/json`"
  | tooLong => "Failed to buffer the request body: length limit exceeded"
  | unreadable failure =>
    if failure.fault.isShape then
      "Failed to deserialize the JSON body into the target type: " ++ failure.message
    else "Failed to parse the request body as JSON: " ++ failure.message

end BodyFault

/-- What the body of a request says. It has to be announced as JSON; what follows the value
does not count. -/
def Request.read {α : Type} (reader : Reader α) (r : Request) : Except BodyFault α :=
  if !r.announcesJson then .error .notJson
  else if bodyLimit < r.body.length then .error .tooLong
  else (Reader.leading reader r.body).mapError .unreadable

/-- The request for tokens of a body; any body that cannot be used stands for the default. -/
def Request.tokenRequest (r : Request) : TokenRequest :=
  match r.read Reader.tokenRequest with
  | .ok t => t
  | .error _ => .default

end Http

end TokenQuota
