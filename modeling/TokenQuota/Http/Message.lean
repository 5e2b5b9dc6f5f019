import TokenQuota.Http.Status
import TokenQuota.Http.Target

/-! Requests and answers. -/

namespace TokenQuota.Http

/-- What a request wants to do with its target. -/
inductive Method
  | get
  | head
  | put
  | post
  | delete
  | options
  | other (name : String)
deriving DecidableEq

namespace Method

def text : Method → String
  | get => "GET"
  | head => "HEAD"
  | put => "PUT"
  | post => "POST"
  | delete => "DELETE"
  | options => "OPTIONS"
  | other name => name

def ofText (name : String) : Method :=
  match name with
  | "GET" => get
  | "HEAD" => head
  | "PUT" => put
  | "POST" => post
  | "DELETE" => delete
  | "OPTIONS" => options
  | _ => other name

@[simp] theorem text_ofText (name : String) : (ofText name).text = name := by
  unfold ofText
  split <;> rfl

end Method

/-- A line of the head of a message. The case of its name does not count. -/
structure Header where
  name : String
  value : Bytes
deriving DecidableEq

structure Request where
  method : Method
  target : Target
  headers : List Header
  body : Bytes
  /-- The address that the request comes from, if it is known. -/
  peer : Option String
deriving DecidableEq

structure Response where
  status : Status
  /-- Names, in lower case, and values. -/
  headers : List (String × String)
  body : Bytes
deriving DecidableEq

/-- The octets of a header that can be read: visible ASCII, blanks and tabs. -/
def isReadable (b : UInt8) : Bool :=
  b == 0x09 || (0x20 ≤ b.toNat && b.toNat < 0x7F)

def readable? (value : Bytes) : Option String :=
  if value.all isReadable then some (String.ofList (value.map fun b => Char.ofNat b.toNat))
  else none

namespace Request

/-- The first header of a name, which is in lower case. -/
def header? (r : Request) (name : String) : Option Bytes :=
  (r.headers.find? fun h => h.name.toLower = name).map Header.value

/-- The text of the first header of a name, if there is one that can be read. -/
def readableHeader? (r : Request) (name : String) : Option String :=
  (r.header? name).bind readable?

end Request

def Response.withHeaders (r : Response) (headers : List (String × String)) : Response :=
  { r with headers := r.headers ++ headers }

end TokenQuota.Http
