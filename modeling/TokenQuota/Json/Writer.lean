import TokenQuota.Json.Literal

/-! Writing JSON without white space. -/

namespace TokenQuota.Json

def commaSeparated : List Bytes → Bytes
  | [] => []
  | [part] => part
  | part :: rest => part ++ 0x2C :: commaSeparated rest

def writeList (items : List Bytes) : Bytes :=
  0x5B :: commaSeparated items ++ [0x5D]

def writeMember (name : String) (value : Bytes) : Bytes :=
  writeString name ++ 0x3A :: value

def writeObject (members : List (String × Bytes)) : Bytes :=
  0x7B :: commaSeparated (members.map fun m => writeMember m.1 m.2) ++ [0x7D]

def writeBoolean : Bool → Bytes
  | true => [0x74, 0x72, 0x75, 0x65]
  | false => [0x66, 0x61, 0x6C, 0x73, 0x65]

def writeNull : Bytes := [0x6E, 0x75, 0x6C, 0x6C]

end TokenQuota.Json
