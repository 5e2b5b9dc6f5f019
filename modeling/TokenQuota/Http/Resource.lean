import TokenQuota.Http.Message

/-! What the targets of requests name, and what can be done with it. -/

namespace TokenQuota.Http

/-- What a target names. The names of namespaces and buckets are of type `α`: segments as they
are written, or the names that they write. -/
inductive Resource (α : Type)
  | health
  | tokens (ns bucket : α)
  | config
  | history
  | namespaces
  | ofNamespace (ns : α)
  | buckets (ns : α)
  | ofBucket (ns bucket : α)
  | topHits (ns : α)
  | topMisses (ns : α)
  | scores (ns bucket : α)
deriving DecidableEq

namespace Resource

variable {α : Type}

/-- A name at the end of a path is not empty. -/
def atEnd (name : String) (resource : Resource String) : Option (Resource String) :=
  if name.isEmpty then none else some resource

def ofSegments : List String → Option (Resource String)
  | ["health"] => some .health
  | ["api", "v1", "allow", ns, bucket] => atEnd bucket (.tokens ns bucket)
  | ["api", "v1", "config"] => some .config
  | ["api", "v1", "config", "history"] => some .history
  | ["api", "v1", "namespaces"] => some .namespaces
  | ["api", "v1", "namespaces", ns] => atEnd ns (.ofNamespace ns)
  | ["api", "v1", "namespaces", ns, "buckets"] => some (.buckets ns)
  | ["api", "v1", "namespaces", ns, "buckets", bucket] => atEnd bucket (.ofBucket ns bucket)
  | ["api", "v1", "namespaces", ns, "stats", "hits"] => some (.topHits ns)
  | ["api", "v1", "namespaces", ns, "stats", "misses"] => some (.topMisses ns)
  | ["api", "v1", "namespaces", ns, "stats", bucket] => atEnd bucket (.scores ns bucket)
  | _ => none

def ofTarget? (t : Target) : Option (Resource String) :=
  t.segments?.bind ofSegments

def methods : Resource α → List Method
  | health | history | topHits _ | topMisses _ | scores .. => [.get, .head]
  | tokens .. | namespaces | buckets _ => [.post]
  | config => [.get, .head, .put]
  | ofNamespace _ | ofBucket .. => [.put, .delete]

def allowedText (r : Resource α) : String :=
  ",".intercalate (r.methods.map Method.text)

/-- A part of a path that writes no name. -/
inductive BadSegment
  | ns
  | bucket
deriving DecidableEq

def BadSegment.message : BadSegment → String
  | .ns => "Invalid URL: Invalid UTF-8 in `namespace`"
  | .bucket => "Invalid URL: Invalid UTF-8 in `bucket`"

def name (role : BadSegment) (segment : String) : Except BadSegment String :=
  match decodeSegment segment with
  | some name => .ok name
  | none => .error role

def decode : Resource String → Except BadSegment (Resource String)
  | health => .ok .health
  | tokens ns bucket => return .tokens (← name .ns ns) (← name .bucket bucket)
  | config => .ok .config
  | history => .ok .history
  | namespaces => .ok .namespaces
  | ofNamespace ns => return .ofNamespace (← name .ns ns)
  | buckets ns => return .buckets (← name .ns ns)
  | ofBucket ns bucket => return .ofBucket (← name .ns ns) (← name .bucket bucket)
  | topHits ns => return .topHits (← name .ns ns)
  | topMisses ns => return .topMisses (← name .ns ns)
  | scores ns bucket => return .scores (← name .ns ns) (← name .bucket bucket)

end Resource

end TokenQuota.Http
