import TokenQuota.NameMap

/-! The configuration of the quotas: buckets, namespaces and the whole. -/

namespace TokenQuota

/-- The reserved namespace of the global default bucket. -/
def globalNamespace : String := "___GLOBAL___"

/-- The reserved name of a namespace's default bucket. -/
def defaultBucketName : String := "___default_bucket___"

structure BucketConfig where
  /-- Tokens added per second. -/
  fillRate : Int64
  /-- The most tokens that the bucket accumulates. -/
  size : Int64
  /-- How long the state of an idle bucket is kept; zero keeps it for ever. -/
  maxIdleMillis : Int64
  /-- How far into the future tokens may be borrowed. -/
  maxDebtMillis : Int64
  /-- The mark of a template of dynamic buckets. -/
  dynamic : Bool
deriving DecidableEq, Inhabited

structure NamespaceConfig where
  name : String
  /-- The bucket for all names without a bucket of their own. -/
  defaultBucket : Option BucketConfig
  /-- The quota of buckets that are made when they are first asked for. -/
  template : Option BucketConfig
  /-- The most dynamic buckets that live at a time; zero sets no limit. -/
  maxDynamic : UInt64
  buckets : NameMap BucketConfig
deriving DecidableEq

structure ServiceConfig where
  version : UInt64
  /-- Seconds since 1970 of the last change. -/
  date : UInt64
  user : String
  globalDefault : Option BucketConfig
  namespaces : NameMap NamespaceConfig
deriving DecidableEq

/-- A bucket that is neither dynamic nor expires nor lends. -/
def BucketConfig.ofRate (fillRate size : Int64) : BucketConfig :=
  ⟨fillRate, size, 0, 0, false⟩

def NamespaceConfig.ofName (name : String) : NamespaceConfig :=
  ⟨name, none, none, 0, ∅⟩

def NamespaceConfig.withBucket (ns : NamespaceConfig) (name : String) (bucket : BucketConfig) :
    NamespaceConfig :=
  { ns with buckets := ns.buckets.insert name bucket }

/-- The namespace with a default bucket. -/
def NamespaceConfig.withDefault (ns : NamespaceConfig) (bucket : BucketConfig) :
    NamespaceConfig :=
  { ns with defaultBucket := some bucket }

/-- The namespace with a template, which is marked as one, and a limit on its buckets. -/
def NamespaceConfig.withTemplate (ns : NamespaceConfig) (template : BucketConfig)
    (maxDynamic : UInt64) : NamespaceConfig :=
  { ns with template := some { template with dynamic := true }, maxDynamic }

def ServiceConfig.empty : ServiceConfig :=
  ⟨0, 0, "", none, ∅⟩

instance : Inhabited NamespaceConfig := ⟨.ofName ""⟩

instance : Inhabited ServiceConfig := ⟨.empty⟩

end TokenQuota
