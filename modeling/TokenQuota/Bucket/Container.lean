import TokenQuota.Bucket.Basic
import TokenQuota.Config.Validity

/-! The buckets of one configuration: how they are found, made and taken out of service. -/

namespace TokenQuota

structure NamespaceBuckets where
  config : NamespaceConfig
  named : NameMap Bucket
  fallback : Option Bucket
  dynamic : NameMap Bucket

structure Container where
  namespaces : NameMap NamespaceBuckets
  globalDefault : Option Bucket

namespace Container

def empty : Container := ⟨∅, none⟩

def makeOptional (ns name : String) (config : Option BucketConfig) (r : Roster) :
    Option Bucket × Roster :=
  match config with
  | none => (none, r)
  | some c =>
    let (b, r) := r.make ns name c false
    (some b, r)

def makeNamed (ns : String) :
    List (String × BucketConfig) → NameMap Bucket → Roster → NameMap Bucket × Roster
  | [], made, r => (made, r)
  | (name, config) :: rest, made, r =>
    let (b, r) := r.make ns name config false
    makeNamed ns rest (made.insert name b) r

/-- Makes the buckets of a namespace; dynamic ones only come when they are asked for. -/
def makeNamespace (key : String) (ns : NamespaceConfig) (r : Roster) :
    NamespaceBuckets × Roster :=
  let (named, r) := makeNamed key ns.buckets.entries ∅ r
  let (fallback, r) := makeOptional key defaultBucketName ns.defaultBucket r
  (⟨ns, named, fallback, ∅⟩, r)

def makeNamespaces :
    List (String × NamespaceConfig) → NameMap NamespaceBuckets → Roster →
      NameMap NamespaceBuckets × Roster
  | [], made, r => (made, r)
  | (key, ns) :: rest, made, r =>
    let (b, r) := makeNamespace key ns r
    makeNamespaces rest (made.insert key b) r

def make (c : ServiceConfig) (r : Roster) : Container × Roster :=
  let (globalDefault, r) := makeOptional globalNamespace defaultBucketName c.globalDefault r
  let (namespaces, r) := makeNamespaces c.namespaces.entries ∅ r
  (⟨namespaces, globalDefault⟩, r)

end Container

namespace NamespaceBuckets

def hasRoom (ns : NamespaceBuckets) : Bool :=
  ns.config.maxDynamic == 0 || ns.dynamic.size < ns.config.maxDynamic.toNat

/-- The template of the dynamic buckets, if one of this name may be made. -/
def templateFor? (ns : NamespaceBuckets) (name : String) : Option BucketConfig :=
  match ns.config.template with
  | none => none
  | some template =>
    match checkName .bucket name with
    | .error _ => none
    | .ok () => if ns.hasRoom then some template else none

/-- The dynamic bucket of a name, which is made if there is none yet. -/
def putDynamic (ns : NamespaceBuckets) (key name : String) (template : BucketConfig)
    (r : Roster) : Bucket × NamespaceBuckets × Roster :=
  match ns.dynamic.get? name with
  | some b => (b, ns, r)
  | none =>
    let (b, r) := r.make key name template true
    (b, { ns with dynamic := ns.dynamic.insert name b }, r)

/-- The dynamic bucket of a name: the one that lives, or a new one if there may be one. -/
def findDynamic (ns : NamespaceBuckets) (key name : String) (r : Roster) :
    Option Bucket × NamespaceBuckets × Roster :=
  if ns.config.template.isNone then (none, ns, r)
  else match ns.dynamic.get? name with
    | some b => (some b, ns, r)
    | none =>
      match ns.templateFor? name with
      | none => (none, ns, r)
      | some template =>
        let (b, ns, r) := ns.putDynamic key name template r
        (some b, ns, r)

/-- Keeps the dynamic buckets that were used since the last sweep, and takes the others out of
service: those that stay, the marks, and how many went. -/
def sweepEntries : List (String × Bucket) → Roster → List String × Roster
  | [], r => ([], r)
  | (name, b) :: rest, r =>
    if r.isActive b.id then sweepEntries rest (r.rest b.id)
    else
      let (gone, r) := sweepEntries rest (r.destroy b.id)
      (name :: gone, r)

/-- Takes the idle dynamic buckets out of service: how many there were. -/
def sweep (ns : NamespaceBuckets) (r : Roster) : Nat × NamespaceBuckets × Roster :=
  let (gone, r) := sweepEntries ns.dynamic.entries r
  (gone.length,
    { ns with dynamic := ns.dynamic.filter fun name _ => !gone.contains name }, r)

end NamespaceBuckets

namespace Container

/-- Finds a bucket: the one of this name, then a dynamic one, then the default of the
namespace, then the global default. -/
def find (c : Container) (key name : String) (r : Roster) :
    Option Bucket × Container × Roster :=
  match c.namespaces.get? key with
  | none => (c.globalDefault, c, r)
  | some ns =>
    match ns.named.get? name with
    | some b => (some b, c, r)
    | none =>
      match ns.findDynamic key name r with
      | (some b, ns, r) => (some b, { c with namespaces := c.namespaces.insert key ns }, r)
      | (none, _, r) => (ns.fallback.or c.globalDefault, c, r)

def dynamicCount (c : Container) (key : String) : Nat :=
  match c.namespaces.get? key with
  | none => 0
  | some ns => ns.dynamic.size

def sweepAll : List (String × NamespaceBuckets) → Container → Roster → Nat × Container × Roster
  | [], c, r => (0, c, r)
  | (key, ns) :: rest, c, r =>
    let (count, ns, r) := ns.sweep r
    let (counts, c, r) := sweepAll rest { c with namespaces := c.namespaces.insert key ns } r
    (count + counts, c, r)

/-- Takes the dynamic buckets out of service that were not used since the last sweep: how many
there were. -/
def sweep (c : Container) (r : Roster) : Nat × Container × Roster :=
  sweepAll c.namespaces.entries c r

end Container

end TokenQuota
