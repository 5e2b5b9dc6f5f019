import TokenQuota.Text.Blank
import TokenQuota.Text.Bytes

/-! Files that set variables: one to a line, with quotation marks, escapes, comments, and values
that refer to other variables. -/

namespace TokenQuota.CommandLine.EnvFile

/-- How the characters of a value are read. -/
inductive Mode
  | bare
  | inQuotes
  /-- Between single quotation marks nothing is special. -/
  | inSingleQuotes
  /-- After a backslash outside of single quotation marks. -/
  | escaped (quoted : Bool)
  /-- In the name of a variable after a dollar sign. The characters of the name are in reverse
  order. -/
  | inName (quoted : Bool) (name : List Char)
  /-- In the name of a variable between braces. -/
  | inBraces (quoted : Bool) (name : List Char)
  /-- Only blanks and a comment may follow. -/
  | finished

def Mode.outside (quoted : Bool) : Mode :=
  if quoted then .inQuotes else .bare

def escape? (c : Char) : Option Char :=
  if c = 'n' then some '\n'
  else if ['\\', '\'', '"', '$', ' '].contains c then some c
  else none

/-- The mode after a character of a value outside of names and escapes, and what it adds. -/
def plain (quoted : Bool) (c : Char) : Mode × List Char :=
  if c = '$' then (.inName quoted [], [])
  else if c = '\\' then (.escaped quoted, [])
  else if quoted then if c = '"' then (.bare, []) else (.inQuotes, [c])
  else if c = '\'' then (.inSingleQuotes, [])
  else if c = '"' then (.inQuotes, [])
  else if c = ' ' ∨ c = '\t' then (.finished, [])
  else (.bare, [c])

/-- The characters of the variable with a name in reverse order. -/
def valueOf (vars : String → Option String) (name : List Char) : List Char :=
  ((vars (String.ofList name.reverse)).getD "").toList

def readValue (vars : String → Option String) : Mode → List Char → Option (List Char)
  | .bare, [] | .finished, [] | .escaped false, [] => some []
  | .inName false name, [] => some (valueOf vars name)
  | _, [] => none
  | .finished, c :: rest =>
    if c = ' ' ∨ c = '\t' then readValue vars .finished rest
    else if c = '#' then some []
    else none
  | .escaped quoted, c :: rest => do
    return (← escape? c) :: (← readValue vars (.outside quoted) rest)
  | .inSingleQuotes, c :: rest =>
    if c = '\'' then readValue vars .bare rest
    else (readValue vars .inSingleQuotes rest).map (c :: ·)
  | .inName quoted name, c :: rest =>
    if c.isAlphanum then readValue vars (.inName quoted (c :: name)) rest
    else if c = '\x7b' ∧ name.isEmpty then readValue vars (.inBraces quoted []) rest
    else
      let after := if c = '$' then (Mode.inName quoted [], []) else (Mode.outside quoted, [c])
      (readValue vars after.1 rest).map fun cs => valueOf vars name ++ after.2 ++ cs
  | .inBraces quoted name, c :: rest =>
    if c = '\x7d' then
      (readValue vars (.outside quoted) rest).map fun cs => valueOf vars name ++ cs
    else readValue vars (.inBraces quoted (c :: name)) rest
  | .bare, c :: rest =>
    let (mode, added) := plain false c
    (readValue vars mode rest).map (added ++ ·)
  | .inQuotes, c :: rest =>
    let (mode, added) := plain true c
    (readValue vars mode rest).map (added ++ ·)

def startsName (c : Char) : Bool := c.isAlpha || c == '_'

def isNameChar (c : Char) : Bool := c.isAlphanum || c == '_' || c == '.'

/-- The name at the start of a line, and what follows it and white space. -/
def cutName (cs : List Char) : Option (String × List Char) :=
  if (cs.head?.map startsName).getD false then
    some (String.ofList (cs.takeWhile isNameChar),
      (cs.dropWhile isNameChar).dropWhile Text.isBlank)
  else none

def cutEquals : List Char → Option (List Char)
  | '=' :: rest => some (rest.dropWhile Text.isBlank)
  | _ => none

/-- The name and the text of the value of a line. A word may stand before the name. -/
def cutLine (cs : List Char) : Option (String × List Char) := do
  let (name, rest) ← cutName cs
  match cutEquals rest with
  | some value => return (name, value)
  | none =>
    if name = "export" then
      let (name, rest) ← cutName rest
      return (name, ← cutEquals rest)
    else none

def isEmpty (cs : List Char) : Bool :=
  cs.isEmpty || cs.head? == some '#'

/-- Variables with their values; the first value of a name counts. -/
abbrev Variables := List (String × String)

/-- The variables that lines set, until one cannot be read. A variable that is set already keeps
its value, but `own` has the latest value that a line gave it. -/
def setLines (vars : String → Option String) (set own : Variables) : List String → Variables
  | [] => set
  | line :: rest =>
    let cs := Text.trimChars line.toList
    if isEmpty cs then setLines vars set own rest
    else match cutLine cs with
      | none => set
      | some (name, text) =>
        let current := fun (name : String) => (vars name).or (set.lookup name)
        let value := if isEmpty text then some []
          else readValue (fun name => (current name).or (own.lookup name)) .bare text
        match value with
        | none => set
        | some value =>
          let value := String.ofList value
          let set := if (current name).isSome then set else set ++ [(name, value)]
          setLines vars set ((name, value) :: own) rest

def load (vars : String → Option String) (file : Option Bytes) : String → Option String :=
  match file.bind Bytes.text? with
  | none => vars
  | some text =>
    let set := setLines vars [] [] (Text.lines text)
    fun name => (vars name).or (set.lookup name)

end TokenQuota.CommandLine.EnvFile
