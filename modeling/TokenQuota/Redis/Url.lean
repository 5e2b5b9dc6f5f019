import TokenQuota.Number.Decimal
import TokenQuota.Text.Blank

/-! The URLs of stores in their parts. -/

namespace TokenQuota.Redis

/-- The schemes of the URLs of stores. -/
inductive Scheme
  | plain
  | encrypted
  | local_
deriving DecidableEq

def Scheme.ofText? : String → Option Scheme
  | "redis" => some .plain
  | "rediss" => some .encrypted
  | "unix" | "redis+unix" => some .local_
  | _ => none

structure Url where
  scheme : Scheme
  user : List Char
  password : Option (List Char)
  host : List Char
  number : Option Nat
  /-- The parts of a path that starts with a slash. -/
  segments : Option (List (List Char))
  query : List Char
deriving DecidableEq

namespace Url

/-- A URL has no control characters or blanks at its ends, and no line breaks or tabs. -/
def tidy (cs : List Char) : List Char :=
  let isOuter := fun (c : Char) => c.toNat ≤ 0x20
  let cs := ((cs.dropWhile isOuter).reverse.dropWhile isOuter).reverse
  cs.filter fun c => c ≠ '\t' ∧ c ≠ '\n' ∧ c ≠ '\r'

def isSchemeChar (c : Char) : Bool :=
  c.isAlphanum || c == '+' || c == '-' || c == '.'

/-- The scheme in lower case, and what follows its colon. -/
def cutScheme (cs : List Char) : Option (String × List Char) :=
  match cs.dropWhile isSchemeChar with
  | ':' :: rest =>
    if (cs.head?.map Char.isAlpha).getD false then
      some (String.ofList ((cs.takeWhile isSchemeChar).map Char.toLower), rest)
    else none
  | _ => none

def endsAuthority (c : Char) : Bool :=
  c == '/' || c == '?' || c == '#'

/-- What stands before and after the last at-sign, if there is one. -/
def cutUser (cs : List Char) : Option (List Char) × List Char :=
  let reversed := cs.reverse
  match reversed.dropWhile (· != '@') with
  | [] => (none, cs)
  | _ :: before => (some before.reverse, (reversed.takeWhile (· != '@')).reverse)

def isForbidden (c : Char) : Bool :=
  ['\x00', '\t', '\n', '\r', ' ', '#', '/', ':', '<', '>', '?', '@', '[', '\\', ']', '^',
    '|'].contains c

/-- The number of 16-bit groups that the text of a part of an address writes. A part with
points writes two. -/
def groupsOf (isLast : Bool) (part : List Char) : Option Nat :=
  if part.contains '.' then
    let octets := (Text.splitOn '.' part).map fun o =>
      Decimal.digits? (Bytes.ofString (String.ofList o))
    let areOctets := octets.all fun o => match o with
      | some n => n < 256
      | none => false
    if isLast && octets.length == 4 && areOctets then some 2 else none
  else if !part.isEmpty && part.length ≤ 4 &&
      part.all fun c => (Bytes.hexValue? (Bytes.ofChar c)).isSome && c.toNat < 128 then some 1
  else none

def countGroups : List (List Char) → Option Nat
  | [] => some 0
  | [part] => groupsOf true part
  | part :: rest => do return (← groupsOf false part) + (← countGroups rest)

/-- The parts of a text with colons; an empty text has none. -/
def colonParts (cs : List Char) : List (List Char) :=
  if cs.isEmpty then [] else Text.splitOn ':' cs

def cutDoubleColon : List Char → Option (List Char × List Char)
  | [] => none
  | ':' :: ':' :: rest => some ([], rest)
  | c :: rest => (cutDoubleColon rest).map fun (before, rest) => (c :: before, rest)

/-- The text writes an address of eight groups, some of which may be left out. -/
def isAddress (cs : List Char) : Bool :=
  match cutDoubleColon cs with
  | none => countGroups (colonParts cs) == some 8
  | some (before, after) =>
    match countGroups (colonParts before), countGroups (colonParts after) with
    | some before, some after => before + after < 8
    | _, _ => false

/-- The host of a text: an address in brackets, or a name. -/
def hostOf (cs : List Char) : Option (List Char) :=
  match cs with
  | '[' :: rest =>
    if rest.getLast? = some ']' ∧ isAddress rest.dropLast then some rest.dropLast else none
  | _ => if cs.any isForbidden then none else some cs

/-- What stands before the first colon outside of brackets, and what follows the colon. -/
def cutNumber : Bool → List Char → List Char × Option (List Char)
  | _, [] => ([], none)
  | inside, c :: rest =>
    if c = ':' ∧ !inside then ([], some rest)
    else
      let inside := if c = '[' then true else if c = ']' then false else inside
      let (host, number) := cutNumber inside rest
      (c :: host, number)

/-- The number after a host: none, or one of 16 bits. -/
def numberOf (cs : List Char) : Option (Option Nat) :=
  if cs.isEmpty then some none
  else match Decimal.digits? (Bytes.ofString (String.ofList cs)) with
    | some n => if n < 65536 then some (some n) else none
    | none => none

/-- A part of a path that stands for its own place. -/
def isHere (segment : List Char) : Bool :=
  segment == ['.'] || segment.map Char.toLower == ['%', '2', 'e']

/-- A part of a path that stands for the place above. -/
def isAbove (segment : List Char) : Bool :=
  ["..", ".%2e", "%2e.", "%2e%2e"].contains (String.ofList (segment.map Char.toLower))

/-- The parts of a path without those that only move in it. The latest parts come first in
the accumulated ones. -/
def resolve (done : List (List Char)) : List (List Char) → List (List Char)
  | [] => done.reverse
  | [segment] =>
    if isAbove segment then ([] :: done.drop 1).reverse
    else if isHere segment then ([] :: done).reverse
    else (segment :: done).reverse
  | segment :: rest =>
    if isAbove segment then resolve (done.drop 1) rest
    else if isHere segment then resolve done rest
    else resolve (segment :: done) rest

/-- The parts of a path, if it starts with a slash. -/
def segmentsOf : List Char → Option (List (List Char))
  | '/' :: path => some (resolve [] (Text.splitOn '/' path))
  | _ => none

def cutPath (cs : List Char) : Option (List (List Char)) × List Char :=
  let cs := cs.takeWhile (· != '#')
  (segmentsOf (cs.takeWhile (· != '?')), (cs.dropWhile (· != '?')).drop 1)

def cutPassword (cs : List Char) : List Char × Option (List Char) :=
  let password := (cs.dropWhile (· != ':')).drop 1
  (cs.takeWhile (· != ':'), if password.isEmpty then none else some password)

def withAuthority (scheme : Scheme) (cs : List Char) : Option Url := do
  let authority := cs.takeWhile fun c => !endsAuthority c
  let (segments, query) := cutPath (cs.dropWhile fun c => !endsAuthority c)
  let (login, rest) := cutUser authority
  let (user, password) := cutPassword (login.getD [])
  let (host, number) := cutNumber false rest
  let host ← hostOf host
  let number ← match number with
    | none => some none
    | some number => numberOf number
  let isEmptyLogin := login = some [] ∧ rest.isEmpty ∧ authority.length < cs.length
  if host.isEmpty ∧ (rest.length ≠ host.length ∨ !user.isEmpty ∨ password.isSome ∨ isEmptyLogin)
    then none
  else return { scheme, user, password, host, number, segments, query }

/-- The URL that a text writes, if it names a store. -/
def ofText? (text : String) : Option Url := do
  let (scheme, rest) ← cutScheme (tidy text.toList)
  let scheme ← Scheme.ofText? scheme
  match rest with
  | '/' :: '/' :: rest => withAuthority scheme rest
  | _ =>
    let (segments, query) := cutPath rest
    return ⟨scheme, [], none, [], none, segments, query⟩

end Url

end TokenQuota.Redis
