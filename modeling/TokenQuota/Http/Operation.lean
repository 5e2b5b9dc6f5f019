import TokenQuota.Http.Answer
import TokenQuota.Server.Admin

/-! The operations behind the resources. -/

namespace TokenQuota.Http

/-- What a request asks the service to do. -/
inductive Operation
  | showHealth
  | takeTokens (ns bucket : String)
  | showConfig
  | replaceConfig
  | showHistory
  | addNamespace
  | updateNamespace (ns : String)
  | deleteNamespace (ns : String)
  | addBucket (ns : String)
  | updateBucket (ns bucket : String)
  | deleteBucket (ns bucket : String)
  | showTopHits (ns : String)
  | showTopMisses (ns : String)
  | showScores (ns bucket : String)
deriving DecidableEq

namespace Operation

def isLook : Method → Bool
  | .get | .head => true
  | _ => false

/-- What a method does to a resource, if it is allowed. -/
def of? : Resource String → Method → Option Operation
  | .health, method => if isLook method then some showHealth else none
  | .tokens ns bucket, .post => some (takeTokens ns bucket)
  | .config, .put => some replaceConfig
  | .config, method => if isLook method then some showConfig else none
  | .history, method => if isLook method then some showHistory else none
  | .namespaces, .post => some addNamespace
  | .ofNamespace ns, .put => some (updateNamespace ns)
  | .ofNamespace ns, .delete => some (deleteNamespace ns)
  | .buckets ns, .post => some (addBucket ns)
  | .ofBucket ns bucket, .put => some (updateBucket ns bucket)
  | .ofBucket ns bucket, .delete => some (deleteBucket ns bucket)
  | .topHits ns, method => if isLook method then some (showTopHits ns) else none
  | .topMisses ns, method => if isLook method then some (showTopMisses ns) else none
  | .scores ns bucket, method => if isLook method then some (showScores ns bucket) else none
  | _, _ => none

theorem isSome_of?_iff (r : Resource String) (m : Method) :
    (of? r m).isSome ↔ m ∈ r.methods := by
  cases r <;> cases m <;> simp [of?, isLook, Resource.methods]

end Operation

def userHeader : String := "x-quota-user"

def anonymous : String := "anonymous"

/-- The user to whom the change of a request is attributed. -/
def Request.actingUser (r : Request) : String :=
  let user := Text.trim ((r.readableHeader? userHeader).getD "")
  if user.isEmpty then anonymous else user

namespace Operation

/-- Goes on with what the body of a request says, if it can be used. -/
def withBody {α : Type} (reader : Json.Reader α) (r : Request)
    (next : α → Site.Work Response) : Site.Work Response :=
  match r.read reader with
  | .ok a => next a
  | .error fault => return .ofBodyFault fault

/-- Changes the configuration, and reports that the change was accepted. -/
def edit (r : Request) (e : Edit) (message : String) : Site.Work Response := do
  Site.edit r.actingUser e
  return .accepted message r.actingUser

/-- A namespace that is named by the path of its request: the body has the same name, or an
empty one. -/
def namedBy (ns : String) (config : NamespaceConfig) : Except QuotaError NamespaceConfig :=
  if config.name.isEmpty then .ok { config with name := ns }
  else if config.name = ns then .ok config
  else .error (.validation
    s!"Body names namespace '{config.name}' but the path names '{ns}'")

def check : Site.Work Response := do
  let reachable ← Site.isHealthy
  let health ← Action.read fun s => {
    started := s.server.lifecycle == .started
    reachable
    timestamp := s.wallClock
    uptime := s.wallClock - s.server.since
    version := s.activeConfig.version : Health }
  return .health health

def give (ns bucket : String) (t : TokenRequest) : Site.Work Response := do
  let verdict ← Site.allow ns bucket t.tokens.toInt (t.maxWaitMillis.toNat * 1000000)
  if verdict.admitted then return .granted ⟨ns, bucket, t.tokens.toInt, verdict.wait⟩
  else throw (.quotaExceeded ns bucket)

def run (r : Request) : Operation → Site.Work Response
  | showHealth => check
  | takeTokens ns bucket => give ns bucket r.tokenRequest
  | showConfig => return .currentConfig (← Action.read Site.activeConfig)
  | replaceConfig => withBody Json.Reader.serviceConfig r fun config => do
    Site.updateConfig r.actingUser config
    return .accepted "Configuration accepted" r.actingUser
  | showHistory => return .history (← Site.history)
  | addNamespace => withBody Json.Reader.namespaceConfig r fun config =>
    edit r (.addNamespace config) s!"Namespace {config.name} accepted"
  | updateNamespace ns => withBody Json.Reader.namespaceConfig r fun config => do
    let config ← Action.ofExcept (namedBy ns config)
    edit r (.updateNamespace config) s!"Namespace {ns} update accepted"
  | deleteNamespace ns => edit r (.deleteNamespace ns) s!"Namespace {ns} deletion accepted"
  | addBucket ns => withBody Json.Reader.newBucket r fun b =>
    edit r (.addBucket ns b.name b.config) s!"Bucket {ns}:{b.name} accepted"
  | updateBucket ns bucket => withBody Json.Reader.bucketConfig r fun config =>
    edit r (.updateBucket ns bucket config) s!"Bucket {ns}:{bucket} update accepted"
  | deleteBucket ns bucket =>
    edit r (.deleteBucket ns bucket) s!"Bucket {ns}:{bucket} deletion accepted"
  | showTopHits ns => return .ranks (← Action.read fun s => s.server.stats.topHits ns)
  | showTopMisses ns => return .ranks (← Action.read fun s => s.server.stats.topMisses ns)
  | showScores ns bucket => do
    match ← Action.read fun s => s.server.stats.scores? ns bucket with
    | some s => return .scores s
    | none => throw (.noSuchBucket ns bucket)

/-- The answer of an operation to a request; failures are reported as well. -/
def answer (r : Request) (op : Operation) : Task Site Response := do
  match ← (op.run r).run with
  | .ok response => return response
  | .error e => return .ofError e

end Operation

end TokenQuota.Http
