/-! The statuses with which requests are answered. -/

namespace TokenQuota.Http

inductive Status
  | ok
  | accepted
  | badRequest
  | notFound
  | methodNotAllowed
  | conflict
  | payloadTooLarge
  | unsupportedMediaType
  | unprocessableEntity
  | tooManyRequests
  | internalServerError
  | serviceUnavailable
deriving DecidableEq

namespace Status

def code : Status → Nat
  | ok => 200
  | accepted => 202
  | badRequest => 400
  | notFound => 404
  | methodNotAllowed => 405
  | conflict => 409
  | payloadTooLarge => 413
  | unsupportedMediaType => 415
  | unprocessableEntity => 422
  | tooManyRequests => 429
  | internalServerError => 500
  | serviceUnavailable => 503

def reason : Status → String
  | ok => "OK"
  | accepted => "Accepted"
  | badRequest => "Bad Request"
  | notFound => "Not Found"
  | methodNotAllowed => "Method Not Allowed"
  | conflict => "Conflict"
  | payloadTooLarge => "Payload Too Large"
  | unsupportedMediaType => "Unsupported Media Type"
  | unprocessableEntity => "Unprocessable Entity"
  | tooManyRequests => "Too Many Requests"
  | internalServerError => "Internal Server Error"
  | serviceUnavailable => "Service Unavailable"

def text (s : Status) : String :=
  s!"{s.code} {s.reason}"

def isServerFault (s : Status) : Bool :=
  500 ≤ s.code

end Status

end TokenQuota.Http
