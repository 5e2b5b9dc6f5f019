import TokenQuota.Json.Literal
import TokenQuota.Json.Number

/-! Reading typed values from the start of a JSON text, with the way to the first failure. -/

namespace TokenQuota.Json

/-- Takes a value from the start of a text, and leaves what follows. -/
abbrev Reader := StateT Bytes (Except Failure)

namespace Reader

def fail {α : Type} (fault : Fault) : Reader α := fun _ => .error ⟨[], fault⟩

def ofLeaf {α : Type} (read : Bytes → Except Fault (α × Bytes)) : Reader α := fun s =>
  match read s with
  | .ok result => .ok result
  | .error fault => .error ⟨[], fault⟩

/-- Reads a part: its failures are one step further inside. -/
def within {α : Type} (step : Step) (reader : Reader α) : Reader α := fun s =>
  match reader s with
  | .ok result => .ok result
  | .error failure => .error { failure with path := step :: failure.path }

def isSpace (b : UInt8) : Bool :=
  b == 0x20 || b == 0x0A || b == 0x09 || b == 0x0D

/-- The first octet after white space, which is passed over. -/
def look : Reader (Option UInt8) := fun s =>
  let s := s.dropWhile isSpace
  .ok (s.head?, s)

/-- Passes over an octet. -/
def skipOctet : Reader Unit := fun s => .ok ((), s.drop 1)

def start : Reader UInt8 := do
  match ← look with
  | some b => return b
  | none => fail .endInValue

/-- Passes over the octets of a word. -/
def word (expected : Bytes) : Reader Unit := fun s =>
  match expected, s with
  | [], s => .ok ((), s)
  | _ :: _, [] => .error ⟨[], .endInValue⟩
  | e :: expected, b :: s => if e = b then word expected s else .error ⟨[], .expectedWord⟩

def nullWord : Bytes := [0x6E, 0x75, 0x6C, 0x6C]

def trueWord : Bytes := [0x74, 0x72, 0x75, 0x65]

def falseWord : Bytes := [0x66, 0x61, 0x6C, 0x73, 0x65]

def startsNumber (b : UInt8) : Bool :=
  b == 0x2D || Digits.isDigit b

def string : Reader String := do
  skipOctet
  let octets ← ofLeaf (literal 0)
  match Bytes.text? octets with
  | some text => return text
  | none => fail .malformedText

/-- Something other than expected starts here: reports it if it is a value. -/
def mismatch {α : Type} (expected : String) : Reader α := do
  let b ← start
  if b = 0x6E then
    word nullWord
    fail (.wrongType .null expected)
  else if b = 0x74 then
    word trueWord
    fail (.wrongType (.boolean true) expected)
  else if b = 0x66 then
    word falseWord
    fail (.wrongType (.boolean false) expected)
  else if startsNumber b then
    let n ← ofLeaf number
    fail (.wrongType n.found expected)
  else if b = quoteMark then
    let text ← string
    fail (.wrongType (.string text) expected)
  else if b = 0x5B then fail (.wrongType .list expected)
  else if b = 0x7B then fail (.wrongType .object expected)
  else fail .expectedValue

def integer (expected : String) (least greatest : Int) : Reader Int := do
  let b ← start
  if startsNumber b then
    match ← ofLeaf number with
    | .integer value =>
      if least ≤ value ∧ value ≤ greatest then return value
      else fail (.wrongValue (.integer value) expected)
    | n => fail (.wrongType n.found expected)
  else mismatch expected

def signed : Reader Int64 :=
  Int64.ofInt <$> integer "i64" minSigned maxSigned

def unsigned : Reader UInt64 := do
  let value ← integer "u64" 0 maxUnsigned
  return UInt64.ofNat value.toNat

def count : Reader UInt64 := do
  let value ← integer "usize" 0 maxUnsigned
  return UInt64.ofNat value.toNat

def boolean : Reader Bool := do
  let b ← start
  if b = 0x74 then
    word trueWord
    return true
  else if b = 0x66 then
    word falseWord
    return false
  else mismatch "a boolean"

def text : Reader String := do
  let b ← start
  if b = quoteMark then string else mismatch "a string"

def optional {α : Type} (reader : Reader α) : Reader (Option α) := do
  if (← look) = some 0x6E then
    word nullWord
    return none
  else some <$> reader

/-- Passes to the next item of a list, if there is one. -/
def toItem (first : Bool) : Reader Bool := do
  match ← look with
  | none => fail .endInList
  | some b =>
    if b = 0x5D then return false
    else if first then return true
    else if b = 0x2C then
      skipOctet
      match ← look with
      | none => fail .endInValue
      | some b => if b = 0x5D then fail .trailingComma else return true
    else fail .expectedListEnd

/-- The item of a list with an index, if there are so many. -/
def item? {α : Type} (index : Nat) (reader : Reader α) : Reader (Option α) :=
  within (.item index) do
    if ← toItem (index == 0) then some <$> reader else return none

/-- Passes over the end of a list, after its last expected item. -/
def endList : Reader Unit := do
  match ← look with
  | none => fail .endInList
  | some b =>
    if b = 0x5D then skipOctet
    else if b = 0x2C then
      skipOctet
      if (← look) = some 0x5D then fail .trailingComma else fail .trailingCharacters
    else fail .trailingCharacters

/-- Passes to the next member of an object, if there is one. -/
def toMember (first : Bool) : Reader Bool := do
  match ← look with
  | none => fail .endInObject
  | some b =>
    if b = 0x7D then return false
    else if first then
      if b = quoteMark then return true else fail .expectedKey
    else if b = 0x2C then
      skipOctet
      match ← look with
      | none => fail .endInValue
      | some b =>
        if b = quoteMark then return true
        else if b = 0x7D then fail .trailingComma
        else fail .expectedKey
    else fail .expectedObjectEnd

/-- The name of the next member of an object, if there is one. -/
def name? (first : Bool) : Reader (Option String) :=
  within .unknown do
    if ← toMember first then some <$> string else return none

def value {α : Type} (name : String) (reader : Reader α) : Reader α :=
  within (.member name) do
    match ← look with
    | none => fail .endInObject
    | some b =>
      if b = 0x3A then
        skipOctet
        reader
      else fail .expectedColon

/-- Passes over the end of an object, after its last member. -/
def endObject : Reader Unit := do
  match ← look with
  | none => fail .endInObject
  | some b =>
    if b = 0x7D then skipOctet
    else if b = 0x2C then fail .trailingComma
    else fail .trailingCharacters

/-- Reads members up to the end of an object, at most `limit` of them. -/
def membersUpTo {δ : Type} (member : δ → String → Reader δ) : Nat → Bool → δ → Reader δ
  | 0, _, _ => fail .endInObject
  | limit + 1, first, draft => do
    match ← name? first with
    | none => return draft
    | some name =>
      let draft ← member draft name
      membersUpTo member limit false draft

/-- Reads the members of an object one after the other into a draft. Each takes at least one
octet, so the length of the text bounds their number. -/
def members {δ : Type} (draft : δ) (member : δ → String → Reader δ) : Reader δ := fun s =>
  membersUpTo member (s.length + 1) true draft s

/-- A record: an object, or a list of its fields in order. -/
def record {α : Type} (expected : String) (fromList fromObject : Reader α) : Reader α := do
  let b ← start
  if b = 0x5B then
    skipOctet
    let result ← fromList
    endList
    return result
  else if b = 0x7B then
    skipOctet
    let result ← fromObject
    endObject
    return result
  else mismatch expected

def object {α : Type} (expected : String) (fromObject : Reader α) : Reader α := do
  let b ← start
  if b = 0x7B then
    skipOctet
    let result ← fromObject
    endObject
    return result
  else mismatch expected

/-- A whole text: a value and white space. -/
def whole {α : Type} (reader : Reader α) (s : Bytes) : Except Failure α := do
  let (result, rest) ← reader s
  if rest.all isSpace then return result else .error ⟨[], .trailingCharacters⟩

def leading {α : Type} (reader : Reader α) (s : Bytes) : Except Failure α :=
  (reader s).map Prod.fst

end Reader

end TokenQuota.Json
