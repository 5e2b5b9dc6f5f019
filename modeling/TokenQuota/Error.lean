import TokenQuota.Config.Edit
import TokenQuota.Config.Validity
import TokenQuota.Http.Status
import TokenQuota.Json.Fault

/-! The errors of the service, their wording, and the answers that report them. -/

namespace TokenQuota

inductive QuotaError
  | quotaExceeded (ns bucket : String)
  | connection (text : String)
  | retriesExhausted (attempts : Nat)
  | configApply (text : String)
  | validation (text : String)
  | noSuchBucket (ns bucket : String)
  | noSuchNamespace (name : String)
  | alreadyExists (what : String)
  | persistence (text : String)
  | serialization (failure : Json.Fault)
  | lifecycle (text : String)
  | internal (text : String)
deriving DecidableEq

namespace QuotaError

def message : QuotaError → String
  | quotaExceeded ns bucket => s!"Quota exceeded for {ns}:{bucket}"
  | connection text => s!"Backing store connection error: {text}"
  | retriesExhausted attempts =>
    s!"Couldn't reach the backing store, even after {attempts} attempts"
  | configApply text => s!"Failed to apply configuration: {text}"
  | validation text => s!"Validation error: {text}"
  | noSuchBucket ns bucket => s!"No such bucket {ns}:{bucket}"
  | noSuchNamespace name => s!"No such namespace {name}"
  | alreadyExists what => s!"{what} already exists"
  | persistence text => s!"Persistence error: {text}"
  | serialization fault => s!"Serialization error: {fault.message}"
  | lifecycle text => s!"Lifecycle error: {text}"
  | internal text => s!"Internal error: {text}"

def code : QuotaError → String
  | quotaExceeded .. => "quota_exceeded"
  | connection _ | retriesExhausted _ => "service_unavailable"
  | configApply _ => "configuration_error"
  | validation _ => "validation_error"
  | noSuchBucket .. | noSuchNamespace _ => "not_found"
  | alreadyExists _ | lifecycle _ => "conflict"
  | persistence _ => "persistence_error"
  | serialization _ => "bad_request"
  | internal _ => "internal_error"

def status : QuotaError → Http.Status
  | quotaExceeded .. => .tooManyRequests
  | connection _ | retriesExhausted _ => .serviceUnavailable
  | configApply _ | persistence _ | internal _ => .internalServerError
  | validation _ => .unprocessableEntity
  | noSuchBucket .. | noSuchNamespace _ => .notFound
  | alreadyExists _ | lifecycle _ => .conflict
  | serialization _ => .badRequest

def ofViolation (v : Violation) : QuotaError :=
  validation v.message

def ofFailure (failure : Json.Failure) : QuotaError :=
  serialization failure.fault

def ofEdit : EditError → QuotaError
  | .namespaceExists name => alreadyExists s!"Namespace {name}"
  | .bucketExists ns name => alreadyExists s!"Bucket {ns}:{name}"
  | .noNamespace name => noSuchNamespace name
  | .noBucket ns name => noSuchBucket ns name

end QuotaError

end TokenQuota
