import TokenQuota.Config.Basic
import TokenQuota.Json.Skip
import TokenQuota.Json.Value
import TokenQuota.Json.Writer

/-! The JSON form of a configuration. Every field is written, absent buckets excepted; when
reading, fields with a default may be missing and other fields are passed over. -/

namespace TokenQuota

open Json

namespace BucketConfig

def write (b : BucketConfig) : Bytes :=
  writeObject [
    ("fill_rate", Digits.ofInt b.fillRate.toInt),
    ("size", Digits.ofInt b.size.toInt),
    ("max_idle_millis", Digits.ofInt b.maxIdleMillis.toInt),
    ("max_debt_millis", Digits.ofInt b.maxDebtMillis.toInt),
    ("dynamic", writeBoolean b.dynamic)]

/-- The fields of a bucket that are read so far. -/
structure Draft where
  fillRate : Option Int64 := none
  size : Option Int64 := none
  maxIdleMillis : Option Int64 := none
  maxDebtMillis : Option Int64 := none
  dynamic : Option Bool := none

/-- The bucket, if no field without a default is missing. -/
def Draft.finish (d : Draft) : Except Fault BucketConfig :=
  match d.fillRate, d.size with
  | none, _ => .error (.missingField "fill_rate")
  | some _, none => .error (.missingField "size")
  | some fillRate, some size =>
    .ok ⟨fillRate, size, d.maxIdleMillis.getD 0, d.maxDebtMillis.getD 0, d.dynamic.getD false⟩

end BucketConfig

namespace Json.Reader

def field {α : Type} (name : String) (before : Option α) (reader : Reader α) : Reader α :=
  if before.isSome then fail (.repeatedField name) else value name reader

def ofExcept {α : Type} : Except Fault α → Reader α
  | .ok result => pure result
  | .error fault => fail fault

def bucketMember (d : BucketConfig.Draft) (name : String) : Reader BucketConfig.Draft :=
  match name with
  | "fill_rate" => do return { d with fillRate := ← field name d.fillRate signed }
  | "size" => do return { d with size := ← field name d.size signed }
  | "max_idle_millis" => do
    return { d with maxIdleMillis := ← field name d.maxIdleMillis signed }
  | "max_debt_millis" => do
    return { d with maxDebtMillis := ← field name d.maxDebtMillis signed }
  | "dynamic" => do return { d with dynamic := ← field name d.dynamic boolean }
  | _ => do
    value name skip
    return d

def itemOf {α : Type} (expected : String) (index : Nat) (reader : Reader α) : Reader α := do
  match ← item? index reader with
  | some v => return v
  | none => fail (.wrongLength index expected)

def bucketConfig : Reader BucketConfig :=
  record "struct BucketConfig"
    (do
      let expected := "struct BucketConfig with 5 elements"
      let fillRate ← itemOf expected 0 signed
      let size ← itemOf expected 1 signed
      let maxIdleMillis ← item? 2 signed
      let maxDebtMillis ← item? 3 signed
      let dynamic ← item? 4 boolean
      return ⟨fillRate, size, maxIdleMillis.getD 0, maxDebtMillis.getD 0, dynamic.getD false⟩)
    (do
      let draft ← members {} bucketMember
      ofExcept draft.finish)

/-- A map from names; of two values of one name the later one counts. -/
def nameMap {α : Type} (reader : Reader α) : Reader (NameMap α) :=
  object "a map" (members ∅ fun m name => do return m.insert name (← value name reader))

end Json.Reader

namespace NamespaceConfig

def write (ns : NamespaceConfig) : Bytes :=
  writeObject (
    [("name", writeString ns.name)] ++
    (ns.defaultBucket.map fun b => ("default_bucket", b.write)).toList ++
    (ns.template.map fun b => ("dynamic_bucket_template", b.write)).toList ++
    [("max_dynamic_buckets", Digits.ofNat ns.maxDynamic.toNat),
     ("buckets", writeObject (ns.buckets.entries.map fun e => (e.1, e.2.write)))])

/-- The fields of a namespace that are read so far. -/
structure Draft where
  name : Option String := none
  defaultBucket : Option (Option BucketConfig) := none
  template : Option (Option BucketConfig) := none
  maxDynamic : Option UInt64 := none
  buckets : Option (NameMap BucketConfig) := none

/-- The namespace, if its name is not missing. -/
def Draft.finish (d : Draft) : Except Fault NamespaceConfig :=
  match d.name with
  | none => .error (.missingField "name")
  | some name =>
    .ok ⟨name, d.defaultBucket.join, d.template.join, d.maxDynamic.getD 0, d.buckets.getD ∅⟩

end NamespaceConfig

namespace Json.Reader

def namespaceMember (d : NamespaceConfig.Draft) (name : String) :
    Reader NamespaceConfig.Draft :=
  match name with
  | "name" => do return { d with name := ← field name d.name text }
  | "default_bucket" => do
    return { d with defaultBucket := some (← field name d.defaultBucket (optional bucketConfig)) }
  | "dynamic_bucket_template" => do
    return { d with template := some (← field name d.template (optional bucketConfig)) }
  | "max_dynamic_buckets" => do
    return { d with maxDynamic := ← field name d.maxDynamic count }
  | "buckets" => do return { d with buckets := ← field name d.buckets (nameMap bucketConfig) }
  | _ => do
    value name skip
    return d

def namespaceConfig : Reader NamespaceConfig :=
  record "struct NamespaceConfig"
    (do
      let name ← itemOf "struct NamespaceConfig with 5 elements" 0 text
      let defaultBucket ← item? 1 (optional bucketConfig)
      let template ← item? 2 (optional bucketConfig)
      let maxDynamic ← item? 3 count
      let buckets ← item? 4 (nameMap bucketConfig)
      return ⟨name, defaultBucket.join, template.join, maxDynamic.getD 0, buckets.getD ∅⟩)
    (do
      let draft ← members {} namespaceMember
      ofExcept draft.finish)

end Json.Reader

namespace ServiceConfig

def write (c : ServiceConfig) : Bytes :=
  writeObject (
    [("version", Digits.ofNat c.version.toNat),
     ("date", Digits.ofNat c.date.toNat),
     ("user", writeString c.user)] ++
    (c.globalDefault.map fun b => ("global_default_bucket", b.write)).toList ++
    [("namespaces", writeObject (c.namespaces.entries.map fun e => (e.1, e.2.write)))])

/-- The fields of a configuration that are read so far. -/
structure Draft where
  version : Option UInt64 := none
  date : Option UInt64 := none
  user : Option String := none
  globalDefault : Option (Option BucketConfig) := none
  namespaces : Option (NameMap NamespaceConfig) := none

/-- The configuration; every field has a default. -/
def Draft.finish (d : Draft) : ServiceConfig :=
  ⟨d.version.getD 0, d.date.getD 0, d.user.getD "", d.globalDefault.join, d.namespaces.getD ∅⟩

end ServiceConfig

namespace Json.Reader

def serviceMember (d : ServiceConfig.Draft) (name : String) : Reader ServiceConfig.Draft :=
  match name with
  | "version" => do return { d with version := ← field name d.version unsigned }
  | "date" => do return { d with date := ← field name d.date unsigned }
  | "user" => do return { d with user := ← field name d.user text }
  | "global_default_bucket" => do
    return { d with globalDefault := some (← field name d.globalDefault (optional bucketConfig)) }
  | "namespaces" => do
    return { d with namespaces := ← field name d.namespaces (nameMap namespaceConfig) }
  | _ => do
    value name skip
    return d

def serviceConfig : Reader ServiceConfig :=
  record "struct ServiceConfig"
    (do
      let version ← item? 0 unsigned
      let date ← item? 1 unsigned
      let user ← item? 2 text
      let globalDefault ← item? 3 (optional bucketConfig)
      let namespaces ← item? 4 (nameMap namespaceConfig)
      return ⟨version.getD 0, date.getD 0, user.getD "", globalDefault.join,
        namespaces.getD ∅⟩)
    (do
      let draft ← members {} serviceMember
      return draft.finish)

end Json.Reader

def ServiceConfig.read (s : Bytes) : Except Failure ServiceConfig :=
  Reader.whole Reader.serviceConfig s

end TokenQuota
