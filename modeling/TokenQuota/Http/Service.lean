import TokenQuota.Http.AccessLog

/-! How a request finds its operation, and what every answer has in common. -/

namespace TokenQuota.Http

def anyOrigin : List (String × String) :=
  [("vary", "origin, access-control-request-method, access-control-request-headers"),
    ("access-control-allow-origin", "*")]

def anyUse : List (String × String) :=
  [("access-control-allow-methods", "*"), ("access-control-allow-headers", "*")]

def anyHeader : List (String × String) :=
  [("access-control-expose-headers", "*")]

namespace Request

def allowHeader (r : Resource String) : List (String × String) :=
  [("allow", r.allowedText)]

/-- The answer to a request for a resource. A method that is not allowed is refused before the
names of the path are read. -/
def answerAt (r : Request) (resource : Resource String) : Task Site Response :=
  if r.method ∈ resource.methods then
    match resource.decode with
    | .error fault => return .ofBadSegment fault
    | .ok named =>
      match Operation.of? named r.method with
      | some op => op.answer r
      | none => return .bare .methodNotAllowed
  else return (Response.bare .methodNotAllowed).withHeaders (allowHeader resource)

def answer (r : Request) : Task Site Response := do
  match Resource.ofTarget? r.target with
  | none => return .bare .notFound
  | some resource =>
    let response ← r.answerAt resource
    return if r.method = .head then { response with body := [] } else response

def preflight (r : Request) : Response :=
  let headers := match Resource.ofTarget? r.target with
    | none => []
    | some resource => allowHeader resource
  (Response.bare .ok).withHeaders (headers ++ anyOrigin ++ anyUse)

/-- Answers a request, with the entries that it leaves in the access log. A question for
methods leaves none. -/
def serve (r : Request) : Task Site (Response × List LogEntry) := do
  if r.method = .options then return (r.preflight, [])
  else
    let response ← r.answer
    return (response.withHeaders (anyOrigin ++ anyHeader),
      [r.logEntry, r.outcomeEntry response.status])

end Request

end TokenQuota.Http
