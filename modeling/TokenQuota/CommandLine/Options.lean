import TokenQuota.CommandLine.Similarity

/-! The options of the command line. -/

namespace TokenQuota.CommandLine

def programName : String := "quotaservice"

def programVersion : String := "0.1.0"

inductive Flag
  | bindAddress
  | redisUrl
  | configDir
  | logLevel
  | initialConfig
deriving DecidableEq

namespace Flag

def all : List Flag := [bindAddress, redisUrl, configDir, logLevel, initialConfig]

def name : Flag → String
  | bindAddress => "bind-address"
  | redisUrl => "redis-url"
  | configDir => "config-dir"
  | logLevel => "log-level"
  | initialConfig => "initial-config"

def valueName : Flag → String
  | bindAddress => "BIND_ADDRESS"
  | redisUrl => "REDIS_URL"
  | configDir => "CONFIG_DIR"
  | logLevel => "LOG_LEVEL"
  | initialConfig => "INITIAL_CONFIG"

def purpose : Flag → String
  | bindAddress => "Address to listen on (BIND_ADDRESS)"
  | redisUrl => "Redis URL; empty selects the in-memory store (REDIS_URL)"
  | configDir => "Directory holding configuration history (CONFIG_DIR)"
  | logLevel => "Log level for this crate (LOG_LEVEL)"
  | initialConfig => "JSON configuration used when nothing has been persisted yet"

def text (f : Flag) : String :=
  s!"--{f.name} <{f.valueName}>"

def mayBeEmpty (f : Flag) : Bool :=
  f != initialConfig

end Flag

/-- What a word with two dashes names. -/
inductive Name
  | flag (f : Flag)
  | help
  | version
deriving DecidableEq

namespace Name

def all : List Name := Flag.all.map flag ++ [help, version]

def word : Name → String
  | flag f => f.name
  | help => "help"
  | version => "version"

def text : Name → String
  | flag f => f.text
  | help => "--help"
  | version => "--version"

def ofWord? (word : String) : Option Name :=
  all.find? fun n => n.word = word

end Name

/-- The reason why a line cannot be read. -/
inductive UsageFault
  | missingValue (f : Flag)
  | repeated (f : Flag)
  /-- A word that is no option, with the option that may be meant, and the options that were
  read before it. -/
  | unexpectedArgument (word : String) (similar : Option Name) (used : List Flag)
  | unexpectedValue (value : String) (n : Name) (used : List Flag)
deriving DecidableEq

/-- The options that were given, in their order. -/
abbrev Given := List (Flag × String)

inductive Wish
  | help
  | version
  | run (given : Given)
deriving DecidableEq

structure Progress where
  given : Given
  /-- The latest option, with its value if that is read. -/
  pending : Option (Flag × Option String)
  /-- Options have ended. -/
  ended : Bool

namespace Progress

def add (given : Given) (f : Flag) (value : String) : Except UsageFault Given :=
  if given.any fun g => g.1 == f then .error (.repeated f)
  else if value.isEmpty && !f.mayBeEmpty then .error (.missingValue f)
  else .ok (given ++ [(f, value)])

def settled (p : Progress) : Except UsageFault Given :=
  match p.pending with
  | none => .ok p.given
  | some (f, none) => .error (.missingValue f)
  | some (f, some value) => add p.given f value

/-- The options with the latest one, unless that cannot be added. -/
def used (p : Progress) : List Flag :=
  let given := match p.settled with
    | .ok given => given
    | .error _ => p.given
  given.map Prod.fst

end Progress

/-- Either a wish is known, or reading goes on. -/
abbrev Outlook := Except UsageFault (Wish ⊕ Progress)

/-- The options that were given so far are put aside for a wish. -/
def instead (p : Progress) (wish : Wish) : Outlook := do
  let _ ← p.settled
  return .inl wish

/-- The part of a word before an equals sign, and what follows the sign if there is one. -/
def cutValue (cs : List Char) : String × Option String :=
  match cs.dropWhile (· != '=') with
  | [] => (String.ofList cs, none)
  | _ :: value => (String.ofList (cs.takeWhile (· != '=')), some (String.ofList value))

def readLong (p : Progress) (cs : List Char) : Outlook :=
  let (word, value) := cutValue cs
  match Name.ofWord? word, value with
  | none, _ =>
    let similar := (Similarity.best? word (Name.all.map Name.word)).bind Name.ofWord?
    .error (.unexpectedArgument ("--" ++ word) similar p.used)
  | some (.flag f), none => do return .inr ⟨← p.settled, some (f, none), false⟩
  | some (.flag f), some value => do
    return .inr ⟨← Progress.add (← p.settled) f value, none, false⟩
  | some name, some value => .error (.unexpectedValue value name (p.given.map Prod.fst))
  | some .help, none => instead p .help
  | some .version, none => instead p .version

def readWord (p : Progress) (word : String) : Outlook :=
  let unexpected := fun (word : String) => Except.error (.unexpectedArgument word none [])
  if p.ended then unexpected word
  else match word.toList with
    | ['-', '-'] => .ok (.inr { p with ended := true })
    | '-' :: '-' :: cs => readLong p cs
    | '-' :: 'h' :: _ => instead p .help
    | '-' :: 'V' :: _ => instead p .version
    | '-' :: c :: _ => unexpected (String.ofList ['-', c])
    | _ =>
      match p.pending with
      | some (f, none) => .ok (.inr { p with pending := some (f, some word) })
      | _ => unexpected word

def readWords (p : Progress) : List String → Except UsageFault Wish
  | [] => do return .run (← p.settled)
  | word :: rest =>
    match readWord p word with
    | .error fault => .error fault
    | .ok (.inl wish) => .ok wish
    | .ok (.inr p) => readWords p rest

def Wish.ofWords (words : List String) : Except UsageFault Wish :=
  readWords ⟨[], none, false⟩ words

def usage (used : List String) : String :=
  let options := if used.isEmpty then "[OPTIONS]" else " ".intercalate used
  s!"Usage: {programName} {options}"

def UsageFault.text : UsageFault → String
  | missingValue f => s!"a value is required for '{f.text}' but none was supplied"
  | repeated f => s!"the argument '{f.text}' cannot be used multiple times"
  | unexpectedArgument word _ _ => s!"unexpected argument '{word}' found"
  | unexpectedValue value n _ =>
    s!"unexpected value '{value}' for '{n.text}' found; no more were expected"

def UsageFault.advice : UsageFault → List String
  | missingValue _ => []
  | repeated _ => [usage []]
  | unexpectedArgument _ none used => [usage (used.map Flag.text)]
  | unexpectedArgument _ (some similar) used =>
    let used := used.map Flag.text
    [s!"  tip: a similar argument exists: '--{similar.word}'",
      usage (if used.contains similar.text then used else used ++ [similar.text])]
  | unexpectedValue _ _ used => [usage (used.map Flag.text)]

def UsageFault.message (fault : UsageFault) : String :=
  "\n\n".intercalate
    (s!"error: {fault.text}" :: fault.advice ++ ["For more information, try '--help'."])

def versionText : String := s!"{programName} {programVersion}"

def helpText : String :=
  let explained := Flag.all.map fun f => s!"      {f.text}\n          {f.purpose}"
  let options := explained ++
    ["  -h, --help\n          Print help", "  -V, --version\n          Print version"]
  "\n\n".intercalate [
    "Distributed quota service. Flags override the matching environment variables",
    usage [],
    "Options:\n" ++ "\n".intercalate options]

end TokenQuota.CommandLine
