/-! Finite binary fractions of 53 significant bits, computed on natural numbers. -/

namespace TokenQuota

/-- The non-negative number `mantissa * 2 ^ exponent`. -/
structure Binary64 where
  mantissa : Nat
  exponent : Int
deriving DecidableEq

namespace Binary64

def minExponent : Int := -1074

def maxExponent : Int := 971

/-- The quotient `numerator * 2 ^ (-shift) / denominator`, rounded to an integer, a tie to the
even neighbour. -/
def roundScaled (numerator denominator : Nat) (shift : Int) : Nat :=
  let n := numerator * Nat.pow 2 (-shift).toNat
  let d := denominator * Nat.pow 2 shift.toNat
  let q := n / d
  let r := n % d
  if 2 * r < d then q
  else if d < 2 * r then q + 1
  else if q % 2 = 0 then q else q + 1

/-- The exponent at which a positive quotient has 53 bits before the point, or the least
exponent of the format if that is greater. -/
def quotientExponent (numerator denominator : Nat) : Int :=
  let guess : Int := (numerator.log2 : Int) - denominator.log2 - 52
  let small :=
    numerator * Nat.pow 2 (-guess).toNat < denominator * Nat.pow 2 guess.toNat * Nat.pow 2 52
  max minExponent (if small then guess - 1 else guess)

/-- The number of this format nearest to a quotient, if it is not too great. -/
def ofQuotient? (numerator denominator : Nat) : Option Binary64 :=
  if numerator = 0 then some ⟨0, minExponent⟩ else
    let e := quotientExponent numerator denominator
    let m := roundScaled numerator denominator e
    let rounded : Binary64 := if m = Nat.pow 2 53 then ⟨Nat.pow 2 52, e + 1⟩ else ⟨m, e⟩
    if maxExponent < rounded.exponent then none else some rounded

/-- The nearest number to a product, if it is not too great. -/
def mul? (a b : Binary64) : Option Binary64 :=
  let e := a.exponent + b.exponent
  ofQuotient? (a.mantissa * b.mantissa * Nat.pow 2 e.toNat) (Nat.pow 2 (-e).toNat)

/-- The nearest number to a quotient by a positive number, if it is not too great. -/
def div? (a b : Binary64) : Option Binary64 :=
  let e := a.exponent - b.exponent
  ofQuotient? (a.mantissa * Nat.pow 2 e.toNat) (b.mantissa * Nat.pow 2 (-e).toNat)

/-- The nearest number to a natural number, if it is not too great. -/
def ofNat? (n : Nat) : Option Binary64 :=
  ofQuotient? n 1

/-- Division by `10 ^ 308` until the exponent is at least `-308` or nothing is left. -/
def scaleDown (a : Binary64) (power : Nat) : Nat → Option Binary64
  | 0 => (ofNat? (Nat.pow 10 power)).bind a.div?
  | steps + 1 => do
    if a.mantissa = 0 then return a
    let limit ← ofNat? (Nat.pow 10 308)
    let next ← a.div? limit
    scaleDown next power steps

/-- The number `significand * 10 ^ power`, where the significand and the power of ten are
rounded before they are multiplied, if it is not too great. A power beyond `10 ^ 308` only
ever scales zero. -/
def ofScientific? (significand : Nat) (power : Int) : Option Binary64 := do
  let f ← ofNat? significand
  if 0 ≤ power then
    if power ≤ 308 then
      f.mul? (← ofNat? (Nat.pow 10 power.toNat))
    else if f.mantissa = 0 then some f else none
  else
    let n := (-power).toNat
    let steps := (n + 307) / 308 - 1
    f.scaleDown (n - 308 * steps) (min steps 3)

end Binary64

end TokenQuota
