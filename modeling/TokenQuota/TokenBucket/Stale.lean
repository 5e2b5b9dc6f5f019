import TokenQuota.TokenBucket.StateKey

/-! The cells that a configuration no longer accounts for. -/

namespace TokenQuota

namespace ServiceConfig

/-- Any bucket of the namespace may be a dynamic one that is alive. -/
def mayBeDynamic (c : ServiceConfig) (ns : String) : Bool :=
  match c.namespaces.get? ns with
  | some nc => nc.template.isSome
  | none => false

/-- The bucket is configured: by its name, as the default of its namespace, or as the global
default. -/
def accountsFor (c : ServiceConfig) (ns bucket : String) : Bool :=
  (c.globalDefault.isSome && ns == globalNamespace && bucket == defaultBucketName) ||
    match c.namespaces.get? ns with
    | some nc => nc.buckets.contains bucket ||
      (nc.defaultBucket.isSome && bucket == defaultBucketName)
    | none => false

/-- The key belongs to a bucket that the configuration does not account for. The state of a
namespace with a template is kept, and so are keys that are not of this form. -/
def isStale (c : ServiceConfig) (key : String) : Bool :=
  match StateKey.owner? key with
  | some (ns, bucket) => !c.mayBeDynamic ns && !c.accountsFor ns bucket
  | none => false

def staleKeys (c : ServiceConfig) (keys : List String) : List String :=
  keys.filter c.isStale

/-- Deletes the stale ones among the cells of a store: how many there were. -/
def clean {m : Type → Type} [Monad m] (c : ServiceConfig) (scan : m (List String))
    (delete : List String → m Nat) : m Nat := do
  let stale := c.staleKeys (← scan)
  if stale.isEmpty then return 0 else delete stale

end ServiceConfig

end TokenQuota
