import TokenQuota.Config.Basic
import TokenQuota.Number.Fixed

/-! Which configurations are well formed, and the first thing that is wrong with the others. -/

namespace TokenQuota

/-- What a name is the name of. -/
inductive NameKind
  | ns
  | bucket
  | other (text : String)
deriving DecidableEq

def NameKind.text : NameKind → String
  | .ns => "namespace"
  | .bucket => "bucket"
  | .other text => text

/-- A range that a number of a bucket is out of. -/
inductive RangeError
  | fillRate
  | maxDebt
  | maxIdle
  | size
deriving DecidableEq

def RangeError.message : RangeError → String
  | .fillRate => "fill_rate: fill_rate must be between 1 and 1e9"
  | .maxDebt => "max_debt_millis: max_debt_millis out of range"
  | .maxIdle => "max_idle_millis: max_idle_millis cannot be negative"
  | .size => "size: size must be positive"

inductive Violation
  | malformedName (kind : NameKind) (name : String)
  | reservedName (kind : NameKind) (name : String)
  | markedDynamic (location : String)
  | outOfRange (location : String) (errors : List RangeError)
  | otherKey (key name : String)
  | redisScheme
  | noAddress
  | addressWithoutColon
  | noRetries
deriving DecidableEq

def Violation.message : Violation → String
  | .malformedName kind name =>
    s!"Invalid {kind.text} name '{name}': only alphanumerics, '.', '-' and '_' are allowed"
  | .reservedName kind name => s!"{kind.text} name '{name}' is reserved"
  | .markedDynamic location =>
    s!"{location}: only dynamic bucket templates may be marked dynamic"
  | .outOfRange location errors =>
    s!"{location}: " ++ "\n".intercalate (errors.map RangeError.message)
  | .otherKey key name => s!"Namespace keyed as '{key}' is named '{name}'"
  | .redisScheme => "Redis URL must start with 'redis://' or 'rediss://'"
  | .noAddress => "Bind address cannot be empty"
  | .addressWithoutColon => "Bind address must be in host:port format"
  | .noRetries => "Connection retries must be greater than 0"

/-- The character may stand in a name: an ASCII letter or digit, a point, a hyphen or an
underscore, and so never the separator of state keys. -/
def isNameChar (c : Char) : Bool :=
  c.isAlphanum || c == '.' || c == '-' || c == '_'

/-- A name of a namespace or a bucket is not empty, consists of such characters, and is not
reserved. -/
def checkName (kind : NameKind) (name : String) : Except Violation Unit :=
  if name.isEmpty || !name.toList.all isNameChar then .error (.malformedName kind name)
  else if name = globalNamespace ∨ name = defaultBucketName then .error (.reservedName kind name)
  else .ok ()

/-- The greatest number of milliseconds whose nanoseconds have 64 bits. -/
def greatestDebtMillis : Int := 9223372036854

namespace BucketConfig

/-- The ranges that the numbers of a bucket are out of, in the order of their names. -/
def rangeErrors (b : BucketConfig) : List RangeError :=
  (if 1 ≤ b.fillRate.toInt ∧ b.fillRate.toInt ≤ 1000000000 then [] else [.fillRate]) ++
  (if 0 ≤ b.maxDebtMillis.toInt ∧ b.maxDebtMillis.toInt ≤ greatestDebtMillis then []
    else [.maxDebt]) ++
  (if 0 ≤ b.maxIdleMillis.toInt then [] else [.maxIdle]) ++
  (if 1 ≤ b.size.toInt then [] else [.size])

def checkRanges (location : String) (b : BucketConfig) : Except Violation Unit :=
  if b.rangeErrors.isEmpty then .ok () else .error (.outOfRange location b.rangeErrors)

/-- A bucket that is no template is not marked as one, and its numbers are in their ranges. -/
def checkStatic (location : String) (b : BucketConfig) : Except Violation Unit :=
  if b.dynamic then .error (.markedDynamic location) else b.checkRanges location

end BucketConfig

def checkOptional (check : BucketConfig → Except Violation Unit) :
    Option BucketConfig → Except Violation Unit
  | none => .ok ()
  | some b => check b

/-- A namespace is kept under its name, and its parts are well formed. -/
def NamespaceConfig.check (key : String) (ns : NamespaceConfig) : Except Violation Unit := do
  if key ≠ ns.name then throw (.otherKey key ns.name)
  checkName .ns key
  checkOptional (BucketConfig.checkStatic s!"{key} default bucket") ns.defaultBucket
  checkOptional (BucketConfig.checkRanges s!"{key} dynamic bucket template") ns.template
  ns.buckets.entries.forM fun (name, bucket) => do
    checkName .bucket name
    bucket.checkStatic s!"{key}:{name}"

/-- Reports the first violation: the global default bucket, then the namespaces in the order of
their keys. -/
def ServiceConfig.check (c : ServiceConfig) : Except Violation Unit := do
  checkOptional (BucketConfig.checkStatic "global default bucket") c.globalDefault
  c.namespaces.entries.forM fun (key, ns) => ns.check key

end TokenQuota
