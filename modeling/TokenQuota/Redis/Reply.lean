import TokenQuota.Number.Decimal
import TokenQuota.Text.Quoted

/-! The replies of a Redis store, and the values that are expected in them. -/

namespace TokenQuota.Redis

inductive Reply
  | absent
  | integer (value : Int)
  | octets (value : Bytes)
  | list (items : List Reply)
  | status (text : String)
  | error (text : String)
deriving Inhabited

namespace Reply

def cutLine : Bytes → Option (Bytes × Bytes)
  | [] => none
  | 0x0D :: 0x0A :: rest => some ([], rest)
  | b :: rest => (cutLine rest).map fun (line, rest) => (b :: line, rest)

/-- The text of a line; octets that are no text are dropped. -/
def textOf (line : Bytes) : String := (Bytes.text? line).getD ""

/-- A number of octets after a line, and the end of line after them. -/
def cutOctets (size : Nat) (s : Bytes) : Option (Bytes × Bytes) :=
  if s.length < size + 2 then none
  else match s.drop size with
    | 0x0D :: 0x0A :: rest => some (s.take size, rest)
    | _ => none

def readItems (read : Bytes → Option (Reply × Bytes)) : Nat → Bytes → Option (List Reply × Bytes)
  | 0, s => some ([], s)
  | count + 1, s => do
    let (item, s) ← read s
    let (items, s) ← readItems read count s
    return (item :: items, s)

/-- The reply at the start of a text, with a limit on its depth. -/
def readUpTo : Nat → Bytes → Option (Reply × Bytes)
  | 0, _ => none
  | limit + 1, s => do
    let (line, rest) ← cutLine s
    let mark ← line.head?
    let content := line.drop 1
    if mark = 0x2B then return (.status (textOf content), rest)
    else if mark = 0x2D then return (.error (textOf content), rest)
    else
      let n ← Decimal.signed? content
      if mark = 0x3A then return (.integer n, rest)
      else if mark = 0x24 then
        if n < 0 then return (.absent, rest)
        else
          let (value, rest) ← cutOctets n.toNat rest
          return (.octets value, rest)
      else if mark = 0x2A then
        if n < 0 then return (.absent, rest)
        else
          let (items, rest) ← readItems (readUpTo limit) n.toNat rest
          return (.list items, rest)
      else none

def read? (s : Bytes) : Option Reply :=
  (readUpTo (s.length + 1) s).map Prod.fst

mutual

def shown : Reply → String
  | absent => "nil"
  | integer value => s!"int({Digits.textInt value})"
  | octets value =>
    match Bytes.text? value with
    | some text => "string-data('" ++ Text.quoted text ++ "')"
    | none =>
      let numbers := ", ".intercalate (value.map fun b => Digits.text b.toNat)
      s!"binary-data([{numbers}])"
  | list items => "bulk(" ++ shownItems items ++ ")"
  | status "OK" => "ok"
  | status text => "status(" ++ Text.quoted text ++ ")"
  | error text => "error(" ++ Text.quoted text ++ ")"

def shownItems : List Reply → String
  | [] => ""
  | [item] => shown item
  | item :: rest => shown item ++ ", " ++ shownItems rest

end

/-- A value was expected, and the reply is another one: the words for that. -/
abbrev Expected (α : Type) := Except String α

def mismatch {α : Type} (r : Reply) (detail : String) : Expected α :=
  .error ("Response was of incompatible type - TypeError: " ++ Text.quoted detail ++
    " (response was " ++ r.shown ++ ")")

def noText {α : Type} : Expected α := .error "Invalid UTF-8- TypeError"

def number (r : Reply) (ofInteger : Int → Int) (ofText : Bytes → Option Int) : Expected Int :=
  match r with
  | integer value => .ok (ofInteger value)
  | status text => parsed (Bytes.ofString text)
  | octets value => if (Bytes.text? value).isSome then parsed value else noText
  | _ => r.mismatch "Response type not convertible to numeric."
where
  /-- The number that a text writes. -/
  parsed (s : Bytes) : Expected Int :=
    match ofText s with
    | some n => .ok n
    | none => r.mismatch "Could not convert from string."

def signed (r : Reply) : Expected Int :=
  r.number id Decimal.signed?

/-- An unsigned integer of 64 bits; negative integers wrap around. -/
def unsigned (r : Reply) : Expected Nat :=
  (r.number (· % Int.pow 2 64) fun s => (Decimal.unsigned? s).map Int.ofNat).map Int.toNat

def text (r : Reply) : Expected String :=
  match r with
  | octets value =>
    match Bytes.text? value with
    | some text => .ok text
    | none => noText
  | status text => .ok text
  | _ => r.mismatch "Response type not string compatible."

def texts (r : Reply) : Expected (List String) :=
  match r with
  | list items => items.mapM text
  | absent => .ok []
  | octets value =>
    match Bytes.text? value with
    | some text => .ok [text]
    | none => noText
  | _ => r.mismatch "Response type not vector compatible."

def both {α β : Type} (first : Reply → Expected α) (second : Reply → Expected β) (r : Reply) :
    Expected (α × β) :=
  match r with
  | list [a, b] => return (← first a, ← second b)
  | list _ => r.mismatch "Bulk response of wrong dimension"
  | _ => r.mismatch "Not a bulk response"

def errorKind? : String → Option String
  | "ERR" => some "ResponseError"
  | "EXECABORT" => some "ExecAbortError"
  | "LOADING" => some "BusyLoadingError"
  | "NOSCRIPT" => some "NoScriptError"
  | "MOVED" => some "Moved"
  | "ASK" => some "Ask"
  | "TRYAGAIN" => some "TryAgain"
  | "CLUSTERDOWN" => some "ClusterDown"
  | "CROSSSLOT" => some "CrossSlot"
  | "MASTERDOWN" => some "MasterDown"
  | "READONLY" => some "ReadOnly"
  | "NOTBUSY" => some "NotBusy"
  | _ => none

/-- The words for an error that a store signals: its kind, and the rest after a blank. -/
def errorText (signalled : String) : String :=
  let cs := signalled.toList
  let code := String.ofList (cs.takeWhile (· != ' '))
  let detail := match cs.dropWhile (· != ' ') with
    | [] => none
    | _ :: rest => some (String.ofList rest)
  match errorKind? code, detail with
  | some kind, some detail => s!"An error was signalled by the server - {kind}: {detail}"
  | some kind, none => s!"An error was signalled by the server- {kind}"
  | none, some detail => s!"{code}: {detail}"
  | none, none => s!"{code}: Unknown extension error encountered"

end Reply

end TokenQuota.Redis
