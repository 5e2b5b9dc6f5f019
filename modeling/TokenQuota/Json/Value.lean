import TokenQuota.Json.Reader

/-! JSON values of any shape. -/

namespace TokenQuota.Json

/-- A JSON value; an object keeps all its members in the order of the text. -/
inductive Value
  | null
  | boolean (value : Bool)
  | number (value : Number)
  | string (value : String)
  | list (items : List Value)
  | object (members : List (String × Value))

def Value.found : Value → Found
  | .null => .null
  | .boolean value => .boolean value
  | .number value => value.found
  | .string value => .string value
  | .list _ => .list
  | .object _ => .object

def Value.signed : Value → Except Fault Int64
  | .number (.integer value) =>
    if minSigned ≤ value ∧ value ≤ maxSigned then .ok (Int64.ofInt value)
    else .error (.wrongValue (.integer value) "i64")
  | v => .error (.wrongType v.found "i64")

def Value.boolean? : Value → Except Fault Bool
  | .boolean value => .ok value
  | v => .error (.wrongType v.found "a boolean")

namespace Reader

/-- The number of brackets that a value of any shape may be inside of. -/
def depthLimit : Nat := 128

mutual

def anyUpTo : Nat → Nat → Reader Value
  | 0, _ => fail .endInValue
  | limit + 1, depth => do
    let b ← start
    if b = 0x6E then
      word nullWord
      return .null
    else if b = 0x74 then
      word trueWord
      return .boolean true
    else if b = 0x66 then
      word falseWord
      return .boolean false
    else if startsNumber b then return .number (← ofLeaf number)
    else if b = quoteMark then return .string (← string)
    else if b = 0x5B then
      if depth ≤ 1 then fail .tooDeep
      else
        skipOctet
        let items ← itemsUpTo limit (depth - 1) 0
        endList
        return .list items
    else if b = 0x7B then
      if depth ≤ 1 then fail .tooDeep
      else
        skipOctet
        let members ← anyMembersUpTo limit (depth - 1) true
        endObject
        return .object members
    else fail .expectedValue

def itemsUpTo : Nat → Nat → Nat → Reader (List Value)
  | 0, _, _ => fail .endInList
  | limit + 1, depth, index => do
    match ← item? index (anyUpTo limit depth) with
    | none => return []
    | some v => return v :: (← itemsUpTo limit depth (index + 1))

def anyMembersUpTo : Nat → Nat → Bool → Reader (List (String × Value))
  | 0, _, _ => fail .endInObject
  | limit + 1, depth, first => do
    match ← name? first with
    | none => return []
    | some name =>
      let v ← value name (anyUpTo limit depth)
      return (name, v) :: (← anyMembersUpTo limit depth false)

end

def any : Reader Value := fun s =>
  anyUpTo (2 * s.length + 2) (depthLimit - 1) s

end Reader

end TokenQuota.Json
