import TokenQuota.Number.Fixed
import TokenQuota.Json.Fault

/-! Numbers of JSON: integers of 64 bits, and fractions for all other numbers. -/

namespace TokenQuota.Json

inductive Number
  | integer (value : Int)
  | fraction (negative : Bool) (value : Binary64)
deriving DecidableEq

def Number.found : Number → Found
  | .integer value => .integer value
  | .fraction negative value => .fraction negative value

/-- Appends digits to a significand as long as it has 64 bits: the significand, and how many
digits were left out. -/
def appendDigits (significand : Nat) : Bytes → Nat × Nat
  | [] => (significand, 0)
  | b :: rest =>
    let next := 10 * significand + Digits.value b
    if maxUnsigned < next then (significand, rest.length + 1) else appendDigits next rest

def scientific (negative : Bool) (significand : Nat) (power : Int) : Except Fault Number :=
  match Binary64.ofScientific? significand power with
  | some value => .ok (.fraction negative value)
  | none => .error .numberOutOfRange

/-- Reads an exponent after its letter. An exponent beyond 31 bits leaves zero unless it makes
a number too great. -/
def exponent (negative : Bool) (significand : Nat) (power : Int) (s : Bytes) :
    Except Fault (Number × Bytes) :=
  let (down, s) := match s with
    | 0x2B :: rest => (false, rest)
    | 0x2D :: rest => (true, rest)
    | _ => (false, s)
  match s with
  | [] => .error .endInValue
  | b :: _ =>
    if Digits.isDigit b then
      let digits := s.takeWhile Digits.isDigit
      let rest := s.dropWhile Digits.isDigit
      let size := Digits.toNat digits
      if 2147483647 < size then
        if significand ≠ 0 ∧ ¬down then .error .numberOutOfRange
        else .ok (.fraction negative ⟨0, Binary64.minExponent⟩, rest)
      else
        let power := if down then power - size else power + size
        (scientific negative significand power).map fun n => (n, rest)
    else .error .malformedNumber

/-- Reads an exponent if there is one. -/
def optionalExponent (negative : Bool) (significand : Nat) (power : Int) (s : Bytes) :
    Except Fault (Number × Bytes) :=
  match s with
  | b :: rest =>
    if b = 0x65 ∨ b = 0x45 then exponent negative significand power rest
    else (scientific negative significand power).map fun n => (n, s)
  | [] => (scientific negative significand power).map fun n => (n, s)

/-- Reads the digits after a point, and an exponent if there is one. -/
def fraction (negative : Bool) (significand : Nat) (power : Int) (s : Bytes) :
    Except Fault (Number × Bytes) :=
  let digits := s.takeWhile Digits.isDigit
  let rest := s.dropWhile Digits.isDigit
  if digits.isEmpty then
    .error (if rest.isEmpty then .endInValue else .malformedNumber)
  else
    let (significand, left) := appendDigits significand digits
    optionalExponent negative significand (power - (digits.length - left : Nat)) rest

/-- Reads what follows the digits before a point, of which `left` were left out. -/
def afterDigits (negative : Bool) (significand left : Nat) (s : Bytes) :
    Except Fault (Number × Bytes) :=
  match s with
  | 0x2E :: rest => fraction negative significand left rest
  | b :: rest =>
    if b = 0x65 ∨ b = 0x45 then exponent negative significand left rest
    else whole s
  | [] => whole s
where
  /-- A number without a point and an exponent. -/
  whole (s : Bytes) : Except Fault (Number × Bytes) :=
    if left ≠ 0 then (scientific negative significand left).map fun n => (n, s)
    else if ¬negative then .ok (.integer significand, s)
    else if significand ≠ 0 ∧ minSigned ≤ -(significand : Int) then
      .ok (.integer (-(significand : Int)), s)
    else (scientific true significand 0).map fun n => (n, s)

def unsignedNumber (negative : Bool) (s : Bytes) : Except Fault (Number × Bytes) :=
  match s with
  | [] => .error .endInValue
  | b :: rest =>
    if b = 0x30 then
      if (rest.head?.map Digits.isDigit).getD false then .error .malformedNumber
      else afterDigits negative 0 0 rest
    else if Digits.isDigit b then
      let (significand, left) := appendDigits 0 (s.takeWhile Digits.isDigit)
      afterDigits negative significand left (s.dropWhile Digits.isDigit)
    else .error .malformedNumber

def number (s : Bytes) : Except Fault (Number × Bytes) :=
  match s with
  | 0x2D :: rest => unsignedNumber true rest
  | _ => unsignedNumber false s

/-- Passes over at least one digit. -/
def skipDigits (s : Bytes) : Except Fault Bytes :=
  if (s.head?.map Digits.isDigit).getD false then .ok (s.dropWhile Digits.isDigit)
  else .error .malformedNumber

/-- Passes over an exponent if there is one. -/
def skipExponent (s : Bytes) : Except Fault Bytes :=
  match s with
  | b :: rest =>
    if b = 0x65 ∨ b = 0x45 then
      match rest with
      | 0x2B :: rest => skipDigits rest
      | 0x2D :: rest => skipDigits rest
      | _ => skipDigits rest
    else .ok s
  | [] => .ok s

/-- Passes over a number after its sign, whatever its size. -/
def skipNumber (s : Bytes) : Except Fault Bytes :=
  match s with
  | [] => .error .malformedNumber
  | b :: rest =>
    if b = 0x30 then
      if (rest.head?.map Digits.isDigit).getD false then .error .malformedNumber
      else skipFraction rest
    else if Digits.isDigit b then skipFraction (s.dropWhile Digits.isDigit)
    else .error .malformedNumber
where
  /-- Passes over a fraction and an exponent if there are any. -/
  skipFraction (s : Bytes) : Except Fault Bytes :=
    match s with
    | 0x2E :: rest => (skipDigits rest).bind skipExponent
    | _ => skipExponent s

end TokenQuota.Json
