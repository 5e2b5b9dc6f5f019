import TokenQuota.Json.Reader

/-! Passing over a JSON value of any depth that nobody asks for. -/

namespace TokenQuota.Json

inductive Bracket
  | list
  | object
deriving DecidableEq

def Bracket.closing : Bracket → UInt8
  | .list => 0x5D
  | .object => 0x7D

def Bracket.atEnd : Bracket → Fault
  | .list => .endInList
  | .object => .endInObject

/-- The fault when neither a comma nor the closing octet follows a value. -/
def Bracket.afterValue : Bracket → Fault
  | .list => .expectedListEnd
  | .object => .expectedObjectEnd

/-- Where in a value the reader stands. -/
inductive Place
  | beforeValue
  | afterOpening
  | afterValue
deriving DecidableEq

/-- Passes over a word. -/
def skipWord (expected s : Bytes) : Except Fault Bytes :=
  match Reader.word expected s with
  | .ok ((), rest) => .ok rest
  | .error failure => .error failure.fault

/-- Passes over the name of a member and the colon after it; the members of a list have
none. -/
def skipName (bracket : Bracket) (s : Bytes) : Except Fault Bytes :=
  match bracket with
  | .list => .ok s
  | .object =>
    match s.dropWhile Reader.isSpace with
    | [] => .error .endInObject
    | b :: rest =>
      if b = quoteMark then
        match skipLiteral 0 rest with
        | .error fault => .error fault
        | .ok rest =>
          match rest.dropWhile Reader.isSpace with
          | [] => .error .endInObject
          | c :: rest => if c = 0x3A then .ok rest else .error .expectedColon
      else .error .expectedKey

/-- Passes over a value without parts, which starts with this octet. -/
def skipLeaf (b : UInt8) (s : Bytes) : Except Fault Bytes :=
  if b = 0x6E then skipWord Reader.nullWord s
  else if b = 0x74 then skipWord Reader.trueWord s
  else if b = 0x66 then skipWord Reader.falseWord s
  else if b = 0x2D then skipNumber (s.drop 1)
  else if Digits.isDigit b then skipNumber s
  else if b = quoteMark then skipLiteral 0 (s.drop 1)
  else .error .expectedValue

/-- Goes on from a place under the open brackets, the innermost first, until they are closed.
Every two steps pass over at least one octet. -/
def skipFrom : Nat → Place → List Bracket → Bytes → Except Fault Bytes
  | 0, _, _, _ => .error .endInValue
  | limit + 1, place, brackets, s =>
    match place, brackets with
    | .beforeValue, brackets =>
      match s.dropWhile Reader.isSpace with
      | [] => .error .endInValue
      | b :: rest =>
        if b = 0x5B then skipFrom limit .afterOpening (.list :: brackets) rest
        else if b = 0x7B then skipFrom limit .afterOpening (.object :: brackets) rest
        else
          match skipLeaf b (b :: rest) with
          | .error fault => .error fault
          | .ok rest => skipFrom limit .afterValue brackets rest
    | _, [] => .ok s
    | place, bracket :: outer =>
      match s.dropWhile Reader.isSpace with
      | [] => .error bracket.atEnd
      | b :: rest =>
        if b = bracket.closing then skipFrom limit .afterValue outer rest
        else if place = .afterOpening then
          match skipName bracket (b :: rest) with
          | .error fault => .error fault
          | .ok rest => skipFrom limit .beforeValue (bracket :: outer) rest
        else if b = 0x2C then
          match skipName bracket rest with
          | .error fault => .error fault
          | .ok rest => skipFrom limit .beforeValue (bracket :: outer) rest
        else .error bracket.afterValue

/-- Passes over a value. -/
def Reader.skip : Reader Unit := Reader.ofLeaf fun s =>
  (skipFrom (2 * s.length + 2) .beforeValue [] s).map fun rest => ((), rest)

end TokenQuota.Json
