import TokenQuota.Config.Basic

/-! Editing a configuration: a finite map of namespaces, each a finite map of buckets. -/

namespace TokenQuota

/-- The reason why an edit is not possible. -/
inductive EditError
  | namespaceExists (name : String)
  | bucketExists (ns name : String)
  | noNamespace (name : String)
  | noBucket (ns name : String)
deriving DecidableEq

inductive Edit
  | addNamespace (ns : NamespaceConfig)
  | updateNamespace (ns : NamespaceConfig)
  | deleteNamespace (name : String)
  | addBucket (ns name : String) (bucket : BucketConfig)
  | updateBucket (ns name : String) (bucket : BucketConfig)
  | deleteBucket (ns name : String)
deriving DecidableEq

namespace ServiceConfig

def addNamespace (c : ServiceConfig) (ns : NamespaceConfig) : Except EditError ServiceConfig :=
  if c.namespaces.contains ns.name then .error (.namespaceExists ns.name)
  else .ok { c with namespaces := c.namespaces.insert ns.name ns }

def updateNamespace (c : ServiceConfig) (ns : NamespaceConfig) :
    Except EditError ServiceConfig :=
  if c.namespaces.contains ns.name then
    .ok { c with namespaces := c.namespaces.insert ns.name ns }
  else .error (.noNamespace ns.name)

/-- Takes a namespace out: the namespace, and the rest. -/
def deleteNamespace (c : ServiceConfig) (name : String) :
    Except EditError (NamespaceConfig × ServiceConfig) :=
  match c.namespaces.get? name with
  | some ns => .ok (ns, { c with namespaces := c.namespaces.erase name })
  | none => .error (.noNamespace name)

def setNamespace (c : ServiceConfig) (name : String) (ns : NamespaceConfig) : ServiceConfig :=
  { c with namespaces := c.namespaces.insert name ns }

def addBucket (c : ServiceConfig) (name bucketName : String) (bucket : BucketConfig) :
    Except EditError ServiceConfig :=
  match c.namespaces.get? name with
  | none => .error (.noNamespace name)
  | some ns =>
    if ns.buckets.contains bucketName then .error (.bucketExists name bucketName)
    else .ok (c.setNamespace name (ns.withBucket bucketName bucket))

def updateBucket (c : ServiceConfig) (name bucketName : String) (bucket : BucketConfig) :
    Except EditError ServiceConfig :=
  match c.namespaces.get? name with
  | none => .error (.noNamespace name)
  | some ns =>
    if ns.buckets.contains bucketName then
      .ok (c.setNamespace name (ns.withBucket bucketName bucket))
    else .error (.noBucket name bucketName)

/-- Takes a bucket out of a namespace: the bucket, and the rest. -/
def deleteBucket (c : ServiceConfig) (name bucketName : String) :
    Except EditError (BucketConfig × ServiceConfig) :=
  match c.namespaces.get? name with
  | none => .error (.noNamespace name)
  | some ns =>
    match ns.buckets.get? bucketName with
    | none => .error (.noBucket name bucketName)
    | some bucket =>
      .ok (bucket, c.setNamespace name { ns with buckets := ns.buckets.erase bucketName })

def edit (c : ServiceConfig) : Edit → Except EditError ServiceConfig
  | .addNamespace ns => c.addNamespace ns
  | .updateNamespace ns => c.updateNamespace ns
  | .deleteNamespace name => (c.deleteNamespace name).map Prod.snd
  | .addBucket ns name bucket => c.addBucket ns name bucket
  | .updateBucket ns name bucket => c.updateBucket ns name bucket
  | .deleteBucket ns name => (c.deleteBucket ns name).map Prod.snd

end ServiceConfig

end TokenQuota
