import TokenQuota.Json.Fault

/-! String literals of JSON: the octets between the quotation marks. -/

namespace TokenQuota.Json

def quoteMark : UInt8 := 0x22

def backslash : UInt8 := 0x5C

def hexQuad? (a b c d : UInt8) : Option Nat := do
  let a ← Bytes.hexValue? a
  let b ← Bytes.hexValue? b
  let c ← Bytes.hexValue? c
  let d ← Bytes.hexValue? d
  return ((a * 16 + b) * 16 + c) * 16 + d

/-- The unit is the first half of a pair of UTF-16 units. -/
def isLeading (unit : Nat) : Bool :=
  0xD800 ≤ unit && unit ≤ 0xDBFF

/-- The unit is the second half of a pair of UTF-16 units. -/
def isTrailing (unit : Nat) : Bool :=
  0xDC00 ≤ unit && unit ≤ 0xDFFF

def encodePoint (n : Nat) : Bytes :=
  let tail (shift : Nat) : UInt8 := UInt8.ofNat (0x80 + n / Nat.pow 2 shift % 64)
  if n < 0x80 then [UInt8.ofNat n]
  else if n < 0x800 then [UInt8.ofNat (0xC0 + n / 64), tail 0]
  else if n < 0x10000 then [UInt8.ofNat (0xE0 + n / 4096), tail 6, tail 0]
  else [UInt8.ofNat (0xF0 + n / 262144), tail 12, tail 6, tail 0]

/-- The second half of a pair of escapes, after the first one: its code point. The six octets
of the second half are the next ones of the text. -/
def trailingHalf (leading : Nat) : Bytes → Except Fault Bytes
  | [] => .error .endInString
  | b :: rest =>
    if b ≠ backslash then .error .unfinishedSurrogate else
      match rest with
      | [] => .error .endInString
      | u :: rest =>
        if u ≠ 0x75 then .error .unfinishedSurrogate else
          match rest with
          | a :: b :: c :: d :: _ =>
            match hexQuad? a b c d with
            | none => .error .malformedEscape
            | some trailing =>
              if isTrailing trailing then
                .ok (encodePoint (0x10000 + (leading - 0xD800) * 1024 + (trailing - 0xDC00)))
              else .error .loneSurrogate
          | _ => .error .endInString

def shortEscape? (b : UInt8) : Option UInt8 :=
  if b = quoteMark ∨ b = backslash ∨ b = 0x2F then some b
  else if b = 0x62 then some 0x08
  else if b = 0x66 then some 0x0C
  else if b = 0x6E then some 0x0A
  else if b = 0x72 then some 0x0D
  else if b = 0x74 then some 0x09
  else none

/-- An escape, after its backslash: the octets that it stands for and its own length. -/
def escape : Bytes → Except Fault (Bytes × Nat)
  | [] => .error .endInString
  | e :: rest =>
    if e = 0x75 then
      match rest with
      | a :: b :: c :: d :: rest =>
        match hexQuad? a b c d with
        | none => .error .malformedEscape
        | some unit =>
          if isTrailing unit then .error .loneSurrogate
          else if isLeading unit then (trailingHalf unit rest).map fun octets => (octets, 11)
          else .ok (encodePoint unit, 5)
      | _ => .error .endInString
    else
      match shortEscape? e with
      | some b => .ok ([b], 1)
      | none => .error .malformedEscape

/-- Reads a string after its opening quotation mark, when `skipped` octets of it are read
already: the octets that it stands for and what follows the closing mark. -/
def literal : Nat → Bytes → Except Fault (Bytes × Bytes)
  | _, [] => .error .endInString
  | skipped + 1, _ :: rest => literal skipped rest
  | 0, b :: rest =>
    if b = quoteMark then .ok ([], rest)
    else if b = backslash then
      match escape rest with
      | .error fault => .error fault
      | .ok (octets, length) =>
        (literal length rest).map fun (tail, after) => (octets ++ tail, after)
    else if b < 0x20 then .error .controlCharacter
    else (literal 0 rest).map fun (tail, after) => (b :: tail, after)

/-- The length of an escape, after its backslash, whatever it stands for. -/
def escapeLength : Bytes → Except Fault Nat
  | [] => .error .endInString
  | e :: rest =>
    if e = 0x75 then
      match rest with
      | a :: b :: c :: d :: _ => if (hexQuad? a b c d).isSome then .ok 5 else .error .malformedEscape
      | _ => .error .endInString
    else if (shortEscape? e).isSome then .ok 1
    else .error .malformedEscape

/-- Passes over a string after its opening quotation mark, without regard to what it stands
for. -/
def skipLiteral : Nat → Bytes → Except Fault Bytes
  | _, [] => .error .endInString
  | skipped + 1, _ :: rest => skipLiteral skipped rest
  | 0, b :: rest =>
    if b = quoteMark then .ok rest
    else if b = backslash then
      match escapeLength rest with
      | .error fault => .error fault
      | .ok length => skipLiteral length rest
    else if b < 0x20 then .error .controlCharacter
    else skipLiteral 0 rest

/-- An octet inside a written string: the marks, the backslash and the control characters are
escaped. -/
def writeOctet (b : UInt8) : Bytes :=
  if b = quoteMark ∨ b = backslash then [backslash, b]
  else if b = 0x08 then [backslash, 0x62]
  else if b = 0x09 then [backslash, 0x74]
  else if b = 0x0A then [backslash, 0x6E]
  else if b = 0x0C then [backslash, 0x66]
  else if b = 0x0D then [backslash, 0x72]
  else if b < 0x20 then
    [backslash, 0x75, 0x30, 0x30, Bytes.ofChar (Bytes.hexDigit (b.toNat / 16)),
      Bytes.ofChar (Bytes.hexDigit (b.toNat % 16))]
  else [b]

def writeString (s : String) : Bytes :=
  quoteMark :: (Bytes.ofString s).flatMap writeOctet ++ [quoteMark]

end TokenQuota.Json
