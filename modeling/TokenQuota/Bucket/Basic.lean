import TokenQuota.Config.Basic
import TokenQuota.TokenBucket.Basic
import TokenQuota.TokenBucket.StateKey

/-! Buckets in service, and the marks that tell which of them are in use. -/

namespace TokenQuota

structure Bucket where
  /-- The number by which the bucket is told from others of the same name. -/
  id : Nat
  ns : String
  name : String
  config : BucketConfig
  /-- The bucket was made when it was first asked for. -/
  dynamic : Bool
deriving DecidableEq

def Bucket.keys (b : Bucket) : CellKeys := CellKeys.of b.ns b.name

def Bucket.limits (b : Bucket) : Limits := b.config.limits

/-- The marks of all buckets that were made so far. -/
structure Roster where
  /-- The number of buckets made so far. -/
  size : Nat
  /-- The buckets that were used since they were last asked about. -/
  active : List Nat
  /-- The buckets that were taken out of service. -/
  destroyed : List Nat
deriving DecidableEq

namespace Roster

def empty : Roster := ⟨0, [], []⟩

def make (ns name : String) (config : BucketConfig) (dynamic : Bool) (r : Roster) :
    Bucket × Roster :=
  (⟨r.size, ns, name, config, dynamic⟩, { r with size := r.size + 1 })

def report (r : Roster) (id : Nat) : Roster :=
  if r.active.contains id then r else { r with active := id :: r.active }

/-- The bucket was used since it was last asked about. -/
def isActive (r : Roster) (id : Nat) : Bool := r.active.contains id

def rest (r : Roster) (id : Nat) : Roster :=
  { r with active := r.active.filter fun i => i != id }

def destroy (r : Roster) (id : Nat) : Roster :=
  if r.destroyed.contains id then r else { r with destroyed := id :: r.destroyed }

def isDestroyed (r : Roster) (id : Nat) : Bool := r.destroyed.contains id

end Roster

end TokenQuota
