/-! Octets, and the texts that they encode. -/

namespace TokenQuota

/-- Octets as they are stored, sent and hashed. -/
abbrev Bytes := List UInt8

namespace Bytes

def ofString (text : String) : Bytes :=
  text.toUTF8.data.toList

/-- The text that the octets encode, if they are valid UTF-8. -/
def text? (octets : Bytes) : Option String :=
  String.fromUTF8? ⟨octets.toArray⟩

@[simp] theorem text?_ofString (text : String) : text? (ofString text) = some text := by
  have h : (⟨(ofString text).toArray⟩ : ByteArray) = text.toByteArray := by
    simp [ofString, String.toUTF8]
  simp only [text?, h, String.fromUTF8?, text.isValidUTF8, ↓reduceDIte]
  rfl

def ofChar (c : Char) : UInt8 :=
  UInt8.ofNat c.toNat

def hexDigit (n : Nat) : Char :=
  if n < 10 then Char.ofNat (48 + n) else Char.ofNat (87 + n)

def hexValue? (b : UInt8) : Option Nat :=
  let n := b.toNat
  if 48 ≤ n ∧ n ≤ 57 then some (n - 48)
  else if 97 ≤ n ∧ n ≤ 102 then some (n - 87)
  else if 65 ≤ n ∧ n ≤ 70 then some (n - 55)
  else none

def hex (octets : Bytes) : String :=
  String.ofList (octets.flatMap fun b => [hexDigit (b.toNat / 16), hexDigit (b.toNat % 16)])

end Bytes

end TokenQuota
