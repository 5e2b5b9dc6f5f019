import TokenQuota.Http.Message
import TokenQuota.Number.Decimal

/-! Requests and answers as they go over a connection. -/

namespace TokenQuota.Http.Wire

def cutLine : Bytes → Option (Bytes × Bytes)
  | [] => none
  | 0x0D :: 0x0A :: rest => some ([], rest)
  | 0x0A :: rest => some ([], rest)
  | b :: rest => (cutLine rest).map fun (line, rest) => (b :: line, rest)

/-- The lines up to an empty one, at most `limit` of them, and what follows. -/
def cutLines : Nat → Bytes → Option (List Bytes × Bytes)
  | 0, _ => none
  | limit + 1, s => do
    let (line, rest) ← cutLine s
    if line.isEmpty then return ([], rest)
    else
      let (lines, rest) ← cutLines limit rest
      return (line :: lines, rest)

def isBlank (b : UInt8) : Bool := b == 0x20 || b == 0x09

def trim (s : Bytes) : Bytes :=
  ((s.dropWhile isBlank).reverse.dropWhile isBlank).reverse

/-- The text of octets of which each one is a character. -/
def textOf (s : Bytes) : String := (Bytes.text? s).getD ""

def header? (line : Bytes) : Option Header :=
  match line.dropWhile (· != 0x3A) with
  | [] => none
  | _ :: value =>
    let name := line.takeWhile (· != 0x3A)
    if name.isEmpty || name.any isBlank then none
    else some ⟨(textOf name).toLower, trim value⟩

/-- The first line of a request: method, target, and whether the connection stays open
unless the request says otherwise. -/
def firstLine? (line : Bytes) : Option (Method × Target × Bool) :=
  match Text.splitOn 0x20 line with
  | [method, target, version] =>
    if method.isEmpty || target.isEmpty then none
    else
      let stays? := match textOf version with
        | "HTTP/1.1" => some true
        | "HTTP/1.0" => some false
        | _ => none
      stays?.map fun stays => (.ofText (textOf method), .ofText (textOf target), stays)
  | _ => none

/-- What the start of a text is. -/
inductive Reading (α : Type)
  /-- The text has not come to its end. -/
  | unfinished
  | malformed
  | read (value : α) (rest : Bytes)

/-- The number that hexadecimal digits write, up to a semicolon. -/
def chunkSize? (line : Bytes) : Option Nat :=
  let digits := trim (line.takeWhile (· != 0x3B))
  if digits.isEmpty then none
  else digits.foldlM (fun n b => (Bytes.hexValue? b).map fun d => 16 * n + d) 0

/-- A body in chunks, each after a line with its size. An empty chunk is the last one. -/
def chunks : Nat → Bytes → Reading Bytes
  | 0, _ => .malformed
  | limit + 1, s =>
    match cutLine s with
    | none => .unfinished
    | some (line, rest) =>
      match chunkSize? line with
      | none => .malformed
      | some 0 =>
        match cutLines (rest.length + 1) rest with
        | none => .unfinished
        | some (_, rest) => .read [] rest
      | some size =>
        if rest.length < size then .unfinished
        else match cutLine (rest.drop size) with
          | none => .unfinished
          | some (_ :: _, _) => .malformed
          | some ([], after) =>
            match chunks limit after with
            | .read body after => .read (rest.take size ++ body) after
            | other => other

/-- A request, and whether the connection stays open after it. -/
structure Incoming where
  request : Request
  staysOpen : Bool

def body (r : Request) (s : Bytes) : Reading Bytes :=
  match r.readableHeader? "transfer-encoding", r.header? "content-length" with
  | some encoding, _ =>
    if encoding.toLower = "chunked" then chunks (s.length + 1) s else .malformed
  | none, none => .read [] s
  | none, some length =>
    match Decimal.digits? length with
    | none => .malformed
    | some length =>
      if s.length < length then .unfinished else .read (s.take length) (s.drop length)

def head? (peer : Option String) (lines : List Bytes) : Option Incoming :=
  match lines with
  | [] => none
  | first :: rest => do
    let (method, target, stays) ← firstLine? first
    let headers ← rest.mapM header?
    let request : Request := ⟨method, target, headers, [], peer⟩
    let connection := ((request.readableHeader? "connection").getD "").toLower
    let staysOpen := if stays then connection != "close" else connection == "keep-alive"
    return ⟨request, staysOpen⟩

def endsLine (b : UInt8) : Bool := b == 0x0D || b == 0x0A

/-- The request at the start of a text. Empty lines before it do not count. -/
def read (peer : Option String) (s : Bytes) : Reading Incoming :=
  let s := s.dropWhile endsLine
  match cutLines (s.length + 1) s with
  | none => .unfinished
  | some (lines, rest) =>
    match head? peer lines with
    | none => .malformed
    | some incoming =>
      match body incoming.request rest with
      | .unfinished => .unfinished
      | .malformed => .malformed
      | .read body rest => .read { incoming with request.body := body } rest

def line (text : String) : Bytes := Bytes.ofString text ++ [0x0D, 0x0A]

def write (r : Response) (staysOpen : Bool) : Bytes :=
  let headers := r.headers ++ [("content-length", Digits.text r.body.length)] ++
    if staysOpen then [] else [("connection", "close")]
  line ("HTTP/1.1 " ++ r.status.text) ++
    headers.flatMap (fun h => line (h.1 ++ ": " ++ h.2)) ++ line "" ++ r.body

def malformed : Response := ⟨.badRequest, [], []⟩

end TokenQuota.Http.Wire
