import TokenQuota.Number.Binary64
import TokenQuota.Text.Digits

/-! The decimal text of a binary fraction: the fewest digits that read back. -/

namespace TokenQuota

/-- The positive decimal number `digits * 10 ^ power`. -/
structure Decimal where
  digits : Nat
  power : Int
deriving DecidableEq

/-- How decimals are written: between these exponents of the leading digit with the point in
its place and at least one digit after it, else in scientific form with a signed exponent. -/
structure DecimalForm where
  leastPositional : Int
  greatestPositional : Int

/-- Positional from `1e-5` to just below `1e16`. -/
def DecimalForm.standard : DecimalForm := ⟨-5, 15⟩

def Decimal.text (form : DecimalForm) (d : Decimal) : Bytes :=
  let digits := Digits.ofNat d.digits
  let count : Int := digits.length
  let lead := d.power + count - 1
  let zeros (n : Int) : Bytes := List.replicate n.toNat 0x30
  if d.digits = 0 then [0x30, 0x2E, 0x30]
  else if form.leastPositional ≤ lead ∧ lead ≤ form.greatestPositional then
    if 0 ≤ d.power then digits ++ zeros d.power ++ [0x2E, 0x30]
    else if 0 ≤ lead then
      digits.take (lead + 1).toNat ++ 0x2E :: digits.drop (lead + 1).toNat
    else [0x30, 0x2E] ++ zeros (-lead - 1) ++ digits
  else
    let mark : Bytes := if lead < 0 then [0x65, 0x2D] else [0x65, 0x2B]
    let fraction : Bytes := if 1 < count then 0x2E :: digits.drop 1 else []
    digits.take 1 ++ fraction ++ mark ++ Digits.ofNat lead.natAbs

namespace Binary64

/-- A number with the bounds of the reals that round to it, as fractions `value / scale`,
`low / scale` and `high / scale`. -/
structure Interval where
  value : Nat
  low : Nat
  high : Nat
  scale : Nat
  /-- The bounds themselves round to the number. -/
  closed : Bool

def interval (a : Binary64) : Interval :=
  let e := a.exponent - 2
  let unit := Nat.pow 2 e.toNat
  let below := if a.mantissa = Nat.pow 2 52 ∧ minExponent < a.exponent then 1 else 2
  { value := 4 * a.mantissa * unit
    low := (4 * a.mantissa - below) * unit
    high := (4 * a.mantissa + 2) * unit
    scale := Nat.pow 2 (-e).toNat
    closed := a.mantissa % 2 = 0 }

/-- The decimal `digits * 10 ^ power` lies in the interval. -/
def Interval.holds (i : Interval) (digits : Nat) (power : Int) : Bool :=
  let d := digits * Nat.pow 10 power.toNat * i.scale
  let unit := Nat.pow 10 (-power).toNat
  if i.closed then i.low * unit ≤ d && d ≤ i.high * unit
  else i.low * unit < d && d < i.high * unit

/-- The point of the grid of multiples of `10 ^ power` that rounds to the number and is nearest
to it, if there is one; of two equally near ones the even one. -/
def Interval.onGrid? (i : Interval) (power : Int) : Option Nat :=
  let n := i.value * Nat.pow 10 (-power).toNat
  let d := i.scale * Nat.pow 10 power.toNat
  let below := n / d
  let remainder := n % d
  let belowFirst := 2 * remainder < d || (2 * remainder == d && below % 2 == 0)
  let first := if belowFirst then below else below + 1
  let second := if belowFirst then below + 1 else below
  if i.holds first power then some first
  else if i.holds second power then some second
  else none

/-- The decimal exponent of the leading digit of a positive quotient, found downwards from a
power of ten above it. -/
def leading (numerator denominator : Nat) : Nat → Int → Int
  | 0, p => p
  | fuel + 1, p =>
    if denominator * Nat.pow 10 p.toNat ≤ numerator * Nat.pow 10 (-p).toNat then p
    else leading numerator denominator fuel (p - 1)

/-- The first grid with a hit, of those with one, two, three and more digits. -/
def Interval.shortest (i : Interval) (lead : Int) : Nat → Nat → Decimal
  | 0, count => ⟨i.value * Nat.pow 10 ((count : Int) - 1 - lead).toNat /
      (i.scale * Nat.pow 10 (lead + 1 - count).toNat), lead + 1 - count⟩
  | fuel + 1, count =>
    match i.onGrid? (lead + 1 - count) with
    | some digits => ⟨digits, lead + 1 - count⟩
    | none => i.shortest lead fuel (count + 1)

/-- The same decimal without zeros at its end. -/
def stripZeros : Nat → Decimal → Decimal
  | 0, d => d
  | fuel + 1, d =>
    if d.digits ≠ 0 ∧ d.digits % 10 = 0 then stripZeros fuel ⟨d.digits / 10, d.power + 1⟩ else d

/-- The decimal with the fewest digits that reads back as the number, and of those the nearest
one. -/
def toDecimal (a : Binary64) : Decimal :=
  if a.mantissa = 0 then ⟨0, 0⟩ else
    let i := a.interval
    let lead := leading i.value i.scale 700 309
    stripZeros 20 (i.shortest lead 17 1)

/-- The text of a number, after a minus sign if it is negative. -/
def text (negative : Bool) (a : Binary64) : Bytes :=
  let unsigned := Decimal.text .standard a.toDecimal
  if negative then 0x2D :: unsigned else unsigned

end Binary64

end TokenQuota
