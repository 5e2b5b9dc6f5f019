import TokenQuota.Number.Fixed
import TokenQuota.Text.Digits

/-! Integers of 64 bits that are written in decimal digits, as settings and replies have
them. -/

namespace TokenQuota.Decimal

/-- The number that a text of digits writes, if it writes one. -/
def digits? (octets : Bytes) : Option Nat :=
  if octets.isEmpty || !octets.all Digits.isDigit then none else some (Digits.toNat octets)

def integer? : Bytes → Option Int
  | 0x2D :: digits => (digits? digits).map fun n => -(n : Int)
  | 0x2B :: digits => (digits? digits).map fun n => (n : Int)
  | digits => (digits? digits).map fun n => (n : Int)

/-- A signed integer of 64 bits, after an optional sign. -/
def signed? (octets : Bytes) : Option Int :=
  (integer? octets).filter fun n => minSigned ≤ n && n ≤ maxSigned

/-- An unsigned integer of 64 bits, after an optional plus sign. -/
def unsigned? (octets : Bytes) : Option Nat :=
  let digits := if octets.head? = some 0x2B then octets.drop 1 else octets
  (digits? digits).filter fun n => n ≤ maxUnsigned

end TokenQuota.Decimal
