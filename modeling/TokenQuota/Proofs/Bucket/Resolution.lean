import TokenQuota.Proofs.Bucket.Finding

/-!
What a name stands for is a matter of the configuration alone, unless it limits the number of
dynamic buckets: which of them live at the time does not count.
-/

namespace TokenQuota

namespace ServiceConfig

variable (c : ServiceConfig)

/-- The terms of the default bucket for the names of a namespace. -/
def defaultTerms (key : String) : Option (String × String × BucketConfig × Bool) :=
  (((c.namespaces.get? key).bind NamespaceConfig.defaultBucket).map fun b =>
      (key, defaultBucketName, b, false)).or
    (c.globalDefault.map fun g => (globalNamespace, defaultBucketName, g, false))

/-- The terms of a dynamic bucket of a name, if there may be one. -/
def dynamicTerms (key name : String) : Option (String × String × BucketConfig × Bool) :=
  match checkName .bucket name with
  | .error _ => none
  | .ok () => ((c.namespaces.get? key).bind NamespaceConfig.template).map fun t =>
      (key, name, t, true)

/-- The terms of the bucket that a name stands for: the one of this name, then one from the
template, then the default of the namespace, then the global default. -/
def termsOf (key name : String) : Option (String × String × BucketConfig × Bool) :=
  (((c.namespaces.get? key).bind fun nc => nc.buckets.get? name).map fun b =>
      (key, name, b, false)).or
    ((c.dynamicTerms key name).or (c.defaultTerms key))

end ServiceConfig

/-- Where there is always room, a dynamic bucket is found if the name may be that of one. -/
theorem NamespaceBuckets.terms_findDynamic {nb : NamespaceBuckets} {nc : NamespaceConfig}
    {key name : String} (hserves : nb.Serves key nc) (hlawful : nb.Lawful)
    (hroom : nc.template ≠ none → nc.maxDynamic = 0) (r : Roster) :
    (nb.findDynamic key name r).1.map Bucket.terms =
      match checkName .bucket name with
      | .error _ => none
      | .ok () => nc.template.map fun t => (key, name, t, true) := by
  unfold findDynamic
  rw [hserves.config]
  cases htemplate : nc.template with
  | none =>
      cases checkName .bucket name with
      | error e => rfl
      | ok u => rfl
  | some t =>
      rw [if_neg (by simp)]
      cases hlives : nb.dynamic.get? name with
      | some x =>
          have hterms := hserves.dynamic name x hlives
          rw [(hlawful name x hlives).1, ← htemplate, hterms]
          rfl
      | none =>
          have hspace : nb.hasRoom = true := by
            rw [hasRoom, hserves.config, hroom (by rw [htemplate]; exact Option.some_ne_none t)]
            rfl
          cases hname : checkName .bucket name with
          | error e =>
              have hfor : nb.templateFor? name = none := by
                simp only [templateFor?, hserves.config, htemplate, hname]
              rw [hfor]
              rfl
          | ok u =>
              have hfor : nb.templateFor? name = some t := by
                simp only [templateFor?, hserves.config, htemplate, hname, hspace, if_true]
              rw [hfor]
              dsimp only
              rw [putDynamic, hlives]
              rfl

namespace Container

variable {c : ServiceConfig} {b : Container} {key name : String}

theorem terms_of_static (hserves : b.Serves c) {nb : NamespaceBuckets}
    (hnb : b.namespaces.get? key = some nb) :
    (nb.fallback.or b.globalDefault).map Bucket.terms = c.defaultTerms key := by
  obtain ⟨nc, hns, hserved⟩ := hserves.namespace hnb
  rw [ServiceConfig.defaultTerms, hns, Option.bind_some, ← hserved.fallback,
    ← hserves.globalDefault]
  cases nb.fallback with
  | none => rfl
  | some x => rfl

/-- What is found is what the configuration says, whichever dynamic buckets live. -/
theorem terms_of_find (hserves : b.Serves c) (hlawful : b.Lawful) (hunlimited : c.Unlimited)
    (key name : String) (r : Roster) :
    (b.find key name r).1.map Bucket.terms = c.termsOf key name := by
  unfold find ServiceConfig.termsOf
  cases hnb : b.namespaces.get? key with
  | none =>
      have hns : c.namespaces.get? key = none := by
        cases hns : c.namespaces.get? key with
        | none => rfl
        | some nc =>
            obtain ⟨nb, hnb', -⟩ := hserves.namespaces key nc hns
            rw [hnb] at hnb'
            cases hnb'
      have hdynamic : c.dynamicTerms key name = none := by
        unfold ServiceConfig.dynamicTerms
        rw [hns]
        split
        · rfl
        · rfl
      rw [hns, hdynamic, ServiceConfig.defaultTerms, hns, ← hserves.globalDefault]
      rfl
  | some nb =>
      obtain ⟨nc, hns, hserved⟩ := hserves.namespace hnb
      have hnames := hserved.named name
      rw [hns, Option.bind_some, ← hnames]
      dsimp only
      cases hnamed : nb.named.get? name with
      | some x => rfl
      | none =>
          have hdynamic : (nb.findDynamic key name r).1.map Bucket.terms =
              c.dynamicTerms key name := by
            rw [NamespaceBuckets.terms_findDynamic hserved (hlawful key nb hnb)
              (hunlimited key nc hns) r, ServiceConfig.dynamicTerms, hns]
            rfl
          rw [← hdynamic, ← terms_of_static hserves hnb]
          dsimp only
          rcases hfind : nb.findDynamic key name r with ⟨found, nb', r'⟩
          cases found with
          | none => rfl
          | some x => rfl

end Container

end TokenQuota
