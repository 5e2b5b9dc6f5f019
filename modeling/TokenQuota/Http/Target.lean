import TokenQuota.Text.Blank
import TokenQuota.Text.Bytes

/-! The targets of requests: what stands before the path, the path, and the query. -/

namespace TokenQuota.Http

structure Target where
  /-- A scheme and an authority, or an authority alone, or nothing. -/
  origin : String
  path : String
  query : Option String
deriving DecidableEq

namespace Target

/-- The first part of a list up to a separator, and what follows the separator if there is
one. -/
def cutAt (separator : Char) (cs : List Char) : List Char × Option (List Char) :=
  match cs.dropWhile (· != separator) with
  | [] => (cs, none)
  | _ :: rest => (cs.takeWhile (· != separator), some rest)

/-- The scheme before a colon and two slashes, and what follows them. -/
def cutScheme : List Char → Option (List Char × List Char)
  | [] => none
  | ':' :: '/' :: '/' :: rest => some ([], rest)
  | c :: rest => (cutScheme rest).map fun (scheme, rest) => (c :: scheme, rest)

/-- The written form of a scheme: the schemes of the web are in lower case. -/
def normalScheme (scheme : List Char) : List Char :=
  let lower := scheme.map Char.toLower
  if lower = ['h', 't', 't', 'p'] ∨ lower = ['h', 't', 't', 'p', 's'] then lower else scheme

/-- The path and the query after an origin; what follows a number sign is dropped. -/
def ofPath (origin : String) (cs : List Char) : Target :=
  let (path, query) := cutAt '?' (cs.takeWhile (· != '#'))
  ⟨origin, if path.isEmpty then "/" else String.ofList path, query.map String.ofList⟩

def endsAuthority (c : Char) : Bool :=
  c == '/' || c == '?' || c == '#'

def ofText (text : String) : Target :=
  let cs := text.toList
  if cs.head? = some '/' then ofPath "" cs
  else if cs = ['*'] then ⟨"", "*", none⟩
  else match cutScheme cs with
    | none => ⟨text, "", none⟩
    | some (scheme, rest) =>
      let authority := rest.takeWhile fun c => !endsAuthority c
      ofPath (String.ofList (normalScheme scheme ++ [':', '/', '/'] ++ authority))
        (rest.dropWhile fun c => !endsAuthority c)

def text (t : Target) : String :=
  match t.query with
  | none => t.origin ++ t.path
  | some query => t.origin ++ t.path ++ "?" ++ query

/-- The parts of the path after its first slash, if it starts with one. -/
def segments? (t : Target) : Option (List String) :=
  match Text.splitOn '/' t.path.toList with
  | [] :: segments => some (segments.map String.ofList)
  | _ => none

end Target

/-- The octets that a segment writes: a percent sign with two hexadecimal digits is one octet,
any other percent sign is itself. -/
def percentDecode : Bytes → Bytes
  | 0x25 :: high :: low :: rest =>
    match Bytes.hexValue? high, Bytes.hexValue? low with
    | some high, some low => UInt8.ofNat (16 * high + low) :: percentDecode rest
    | _, _ => 0x25 :: percentDecode (high :: low :: rest)
  | b :: rest => b :: percentDecode rest
  | [] => []

/-- The name that a segment writes, if it is valid UTF-8. -/
def decodeSegment (segment : String) : Option String :=
  Bytes.text? (percentDecode (Bytes.ofString segment))

end TokenQuota.Http
