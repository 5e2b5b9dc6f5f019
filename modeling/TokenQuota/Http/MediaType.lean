import TokenQuota.Http.Message

/-! The media types that announce a JSON body. -/

namespace TokenQuota.Http

structure MediaType where
  kind : Bytes
  /-- The subtype without its suffix. -/
  subtype : Bytes
  /-- The part after the last plus sign. -/
  suffix : Option Bytes
deriving DecidableEq

namespace MediaType

def tokenMarks : List UInt8 :=
  [0x21, 0x23, 0x24, 0x25, 0x26, 0x27, 0x2B, 0x2D, 0x2E, 0x5E, 0x5F, 0x60, 0x7C, 0x7E]

def isToken (b : UInt8) : Bool :=
  let n := b.toNat
  (48 ≤ n && n ≤ 57) || (65 ≤ n && n ≤ 90) || (97 ≤ n && n ≤ 122) || tokenMarks.contains b

def lowerOctet (b : UInt8) : UInt8 :=
  if 65 ≤ b.toNat ∧ b.toNat ≤ 90 then UInt8.ofNat (b.toNat + 32) else b

def isQuotable (b : UInt8) : Bool :=
  31 < b.toNat && b != 0x7F

/-- What is read in a list of parameters. -/
inductive Place
  | beforeName
  | inName
  | beforeValue
  | inValue
  | beforeQuoted
  | inQuoted
  | afterQuoted

def Place.mayEnd : Place → Bool
  | .beforeName | .inValue | .beforeValue | .afterQuoted => true
  | .inName | .beforeQuoted | .inQuoted => false

/-- The place after an octet, if the octet may stand here. -/
def Place.next? (b : UInt8) : Place → Option Place
  | .beforeName =>
    if b = 0x20 then some .beforeName else if isToken b then some .inName else none
  | .inName => if isToken b then some .inName else if b = 0x3D then some .beforeValue else none
  | .beforeValue =>
    if b = 0x22 then some .beforeQuoted else if isToken b then some .inValue else none
  | .inValue =>
    if isToken b then some .inValue else if b = 0x3B then some .beforeName else none
  | .beforeQuoted => if isQuotable b then some .inQuoted else none
  | .inQuoted =>
    if b = 0x22 then some .afterQuoted else if isQuotable b then some .inQuoted else none
  | .afterQuoted =>
    if b = 0x3B then some .beforeName else if b = 0x20 then some .afterQuoted else none

def areParameters : Place → Bytes → Bool
  | place, [] => place.mayEnd
  | place, b :: rest =>
    match place.next? b with
    | some place => areParameters place rest
    | none => false

def endsSubtype (b : UInt8) : Bool :=
  b == 0x3B || b == 0x20

def cutSuffix (name : Bytes) : Bytes × Option Bytes :=
  let reversed := name.reverse
  match reversed.dropWhile (· != 0x2B) with
  | [] => (name, none)
  | [_] => (name, none)
  | _ :: subtype => (subtype.reverse, some (reversed.takeWhile (· != 0x2B)).reverse)

def ofHeader? (value : Bytes) : Option MediaType :=
  match value.dropWhile isToken with
  | 0x2F :: rest =>
    let kind := (value.takeWhile isToken).map lowerOctet
    let name := rest.takeWhile isToken
    let after := rest.dropWhile isToken
    let parametersFollow := (after.head?.map endsSubtype).getD true
    if kind.isEmpty then none
    else if name.isEmpty then if after.isEmpty then some ⟨kind, [], none⟩ else none
    else if parametersFollow && areParameters .beforeName (after.drop 1) then
      let (subtype, suffix) := cutSuffix (name.map lowerOctet)
      some ⟨kind, subtype, suffix⟩
    else none
  | _ => none

def application : Bytes := Bytes.ofString "application"

def json : Bytes := Bytes.ofString "json"

def isJson (t : MediaType) : Bool :=
  t.kind == application && (t.subtype == json || t.suffix == some json)

end MediaType

def Request.announcesJson (r : Request) : Bool :=
  match r.header? "content-type" with
  | none => false
  | some value =>
    value.all isReadable && ((MediaType.ofHeader? value).map MediaType.isJson).getD false

end TokenQuota.Http
