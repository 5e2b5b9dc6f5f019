import TokenQuota.Number.Shortest
import TokenQuota.Text.Quoted

/-! What can be wrong with a JSON text, and where. -/

namespace TokenQuota.Json

/-- What stands in a JSON text where something else was expected. -/
inductive Found
  | null
  | boolean (value : Bool)
  | integer (value : Int)
  | fraction (negative : Bool) (value : Binary64)
  | string (value : String)
  | list
  | object
deriving DecidableEq

/-- The reason why a JSON text cannot be read. -/
inductive Fault
  | endInValue
  | endInList
  | endInObject
  | endInString
  | expectedValue
  | expectedWord
  | expectedColon
  | expectedListEnd
  | expectedObjectEnd
  | expectedKey
  | trailingComma
  | trailingCharacters
  | malformedNumber
  | numberOutOfRange
  | controlCharacter
  | malformedEscape
  | loneSurrogate
  | unfinishedSurrogate
  | malformedText
  | tooDeep
  | wrongType (found : Found) (expected : String)
  | wrongValue (found : Found) (expected : String)
  | wrongLength (length : Nat) (expected : String)
  | missingField (name : String)
  | repeatedField (name : String)
deriving DecidableEq

/-- The text is JSON so far, but not of the expected shape. -/
def Fault.isShape : Fault → Bool
  | .wrongType .. | .wrongValue .. | .wrongLength .. | .missingField _ | .repeatedField _ => true
  | _ => false

/-- The description of what was found. -/
def Found.text : Found → String
  | .null => "null"
  | .boolean value => s!"boolean `{value}`"
  | .integer value => s!"integer `{Digits.textInt value}`"
  | .fraction negative value =>
    let digits := String.ofList ((value.text negative).map fun b => Char.ofNat b.toNat)
    s!"floating point `{digits}`"
  | .string value => "string " ++ Text.quoted value
  | .list => "sequence"
  | .object => "map"

def Fault.message : Fault → String
  | .endInValue => "EOF while parsing a value"
  | .endInList => "EOF while parsing a list"
  | .endInObject => "EOF while parsing an object"
  | .endInString => "EOF while parsing a string"
  | .expectedValue => "expected value"
  | .expectedWord => "expected ident"
  | .expectedColon => "expected `:`"
  | .expectedListEnd => "expected `,` or `]`"
  | .expectedObjectEnd => "expected `,` or `\x7d`"
  | .expectedKey => "key must be a string"
  | .trailingComma => "trailing comma"
  | .trailingCharacters => "trailing characters"
  | .malformedNumber => "invalid number"
  | .numberOutOfRange => "number out of range"
  | .controlCharacter => "control character (\\u0000-\\u001F) found while parsing a string"
  | .malformedEscape => "invalid escape"
  | .loneSurrogate => "lone leading surrogate in hex escape"
  | .unfinishedSurrogate => "unexpected end of hex escape"
  | .malformedText => "invalid unicode code point"
  | .tooDeep => "recursion limit exceeded"
  | .wrongType found expected => s!"invalid type: {found.text}, expected {expected}"
  | .wrongValue found expected => s!"invalid value: {found.text}, expected {expected}"
  | .wrongLength length expected => s!"invalid length {length}, expected {expected}"
  | .missingField name => s!"missing field `{name}`"
  | .repeatedField name => s!"duplicate field `{name}`"

inductive Step
  | member (name : String)
  | item (index : Nat)
  /-- A member whose name was not read. -/
  | unknown
deriving DecidableEq

/-- A fault with the way from the whole text to the value that it is found in. -/
structure Failure where
  path : List Step
  fault : Fault
deriving DecidableEq

/-- A way is written with a point between its steps, but none before an index. -/
def pathText : List Step → String
  | [] => ""
  | .member name :: rest => name ++ more rest
  | .item index :: rest => s!"[{index}]" ++ more rest
  | .unknown :: rest => "?" ++ more rest
where
  /-- The steps after the first one. -/
  more : List Step → String
    | [] => ""
    | .member name :: rest => "." ++ name ++ more rest
    | .item index :: rest => s!"[{index}]" ++ more rest
    | .unknown :: rest => ".?" ++ more rest

/-- The wording of a failure, after the way to it unless no step of that is known. -/
def Failure.message (failure : Failure) : String :=
  if failure.path.all (· == .unknown) then failure.fault.message
  else s!"{pathText failure.path}: {failure.fault.message}"

end TokenQuota.Json
