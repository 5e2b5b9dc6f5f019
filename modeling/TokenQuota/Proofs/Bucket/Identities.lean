import TokenQuota.Proofs.Bucket.Cleaning
import TokenQuota.Proofs.TokenBucket.Separation

/-!
Which buckets a configuration offers: at most one under each namespace and name, since the reserved
names are no names of other buckets. Whatever is found is offered, and different buckets have
different keys.
-/

namespace TokenQuota

/-- The configuration offers a bucket with these terms: by its name, from a template, as the default
of a namespace, or as the global default. -/
inductive ServiceConfig.Offers (c : ServiceConfig) : String × String × BucketConfig × Bool → Prop
  | named {ns name : String} {nc : NamespaceConfig} {b : BucketConfig}
      (hns : c.namespaces.get? ns = some nc) (hbucket : nc.buckets.get? name = some b) :
      Offers c (ns, name, b, false)
  | dynamic {ns name : String} {nc : NamespaceConfig} {t : BucketConfig}
      (hns : c.namespaces.get? ns = some nc) (htemplate : nc.template = some t)
      (hname : checkName .bucket name = .ok ()) (hnamed : nc.buckets.get? name = none) :
      Offers c (ns, name, t, true)
  | fallback {ns : String} {nc : NamespaceConfig} {b : BucketConfig}
      (hns : c.namespaces.get? ns = some nc) (hdefault : nc.defaultBucket = some b) :
      Offers c (ns, defaultBucketName, b, false)
  | globalDefault {g : BucketConfig} (hdefault : c.globalDefault = some g) :
      Offers c (globalNamespace, defaultBucketName, g, false)

namespace ServiceConfig

variable {c : ServiceConfig} {ns name : String} {config config' : BucketConfig}
  {dynamic dynamic' : Bool}

theorem separator_notMem_of_offers (hcheck : c.check = .ok ())
    (h : c.Offers (ns, name, config, dynamic)) : ':' ∉ ns.toList := by
  cases h with
  | named hns hbucket => exact separator_notMem_of_checkName (checkName_namespace hcheck hns)
  | dynamic hns htemplate hname hnamed =>
      exact separator_notMem_of_checkName (checkName_namespace hcheck hns)
  | fallback hns hdefault => exact separator_notMem_of_checkName (checkName_namespace hcheck hns)
  | globalDefault hdefault => decide

/-- The state of a bucket that is offered is accounted for. -/
theorem accounts_of_offers (h : c.Offers (ns, name, config, dynamic)) : c.Accounts ns name := by
  cases h with
  | named hns hbucket => exact .named hns hbucket
  | dynamic hns htemplate hname hnamed => exact .template hns htemplate
  | fallback hns hdefault => exact .fallback hns hdefault
  | globalDefault hdefault => exact .globalDefault hdefault

/-- A bucket of the default name is the default of its namespace or the global default. -/
theorem offers_default_iff (hcheck : c.check = .ok ()) :
    c.Offers (ns, defaultBucketName, config, dynamic) ↔ dynamic = false ∧
      ((∃ nc, c.namespaces.get? ns = some nc ∧ nc.defaultBucket = some config) ∨
        ns = globalNamespace ∧ c.globalDefault = some config) := by
  constructor
  · intro h
    cases h with
    | named hns hbucket =>
        exact absurd rfl (not_reserved_of_checkName (checkName_bucket hcheck hns hbucket)).2
    | dynamic hns htemplate hname hnamed =>
        exact absurd rfl (not_reserved_of_checkName hname).2
    | fallback hns hdefault => exact ⟨rfl, .inl ⟨_, hns, hdefault⟩⟩
    | globalDefault hdefault => exact ⟨rfl, .inr ⟨rfl, hdefault⟩⟩
  · rintro ⟨rfl, ⟨nc, hns, hdefault⟩ | ⟨rfl, hdefault⟩⟩
    · exact .fallback hns hdefault
    · exact .globalDefault hdefault

/-- A bucket of any other name is a named one of its namespace, or is made from the template. -/
theorem offers_iff_of_ne_default (hname : name ≠ defaultBucketName) :
    c.Offers (ns, name, config, dynamic) ↔ ∃ nc, c.namespaces.get? ns = some nc ∧
      ((nc.buckets.get? name = some config ∧ dynamic = false) ∨
        (nc.buckets.get? name = none ∧ nc.template = some config ∧
          checkName .bucket name = .ok () ∧ dynamic = true)) := by
  constructor
  · intro h
    cases h with
    | named hns hbucket => exact ⟨_, hns, .inl ⟨hbucket, rfl⟩⟩
    | dynamic hns htemplate hvalid hnamed =>
        exact ⟨_, hns, .inr ⟨hnamed, htemplate, hvalid, rfl⟩⟩
    | fallback hns hdefault => exact absurd rfl hname
    | globalDefault hdefault => exact absurd rfl hname
  · rintro ⟨nc, hns, ⟨hbucket, rfl⟩ | ⟨hnamed, htemplate, hvalid, rfl⟩⟩
    · exact .named hns hbucket
    · exact .dynamic hns htemplate hvalid hnamed

/-- Under a namespace and a name there is one bucket at most. -/
theorem offers_unique (hcheck : c.check = .ok ()) (h : c.Offers (ns, name, config, dynamic))
    (h' : c.Offers (ns, name, config', dynamic')) : config = config' ∧ dynamic = dynamic' := by
  by_cases hname : name = defaultBucketName
  · subst hname
    obtain ⟨rfl, hfirst⟩ := (offers_default_iff hcheck).mp h
    obtain ⟨rfl, hsecond⟩ := (offers_default_iff hcheck).mp h'
    have hglobal : ∀ nc, c.namespaces.get? globalNamespace ≠ some nc := fun nc hns =>
      (not_reserved_of_checkName (checkName_namespace hcheck hns)).1 rfl
    rcases hfirst with ⟨nc, hns, hdefault⟩ | ⟨rfl, hdefault⟩ <;>
      rcases hsecond with ⟨nc', hns', hdefault'⟩ | ⟨hglobalNs, hdefault'⟩
    · obtain rfl := Option.some.inj (hns.symm.trans hns')
      exact ⟨Option.some.inj (hdefault.symm.trans hdefault'), rfl⟩
    · subst hglobalNs
      exact absurd hns (hglobal nc)
    · exact absurd hns' (hglobal nc')
    · exact ⟨Option.some.inj (hdefault.symm.trans hdefault'), rfl⟩
  · obtain ⟨nc, hns, hfirst⟩ := (offers_iff_of_ne_default hname).mp h
    obtain ⟨nc', hns', hsecond⟩ := (offers_iff_of_ne_default hname).mp h'
    obtain rfl := Option.some.inj (hns.symm.trans hns')
    rcases hfirst with ⟨hbucket, rfl⟩ | ⟨hnamed, htemplate, -, rfl⟩ <;>
      rcases hsecond with ⟨hbucket', rfl⟩ | ⟨hnamed', htemplate', -, rfl⟩
    · exact ⟨Option.some.inj (hbucket.symm.trans hbucket'), rfl⟩
    · cases hbucket.symm.trans hnamed'
    · cases hbucket'.symm.trans hnamed
    · exact ⟨Option.some.inj (htemplate.symm.trans htemplate'), rfl⟩

/-- Different buckets that a configuration offers have no key in common. -/
theorem apart_of_offers (hcheck : c.check = .ok ()) (h : c.Offers (ns, name, config, dynamic))
    {ns' name' : String} (h' : c.Offers (ns', name', config', dynamic'))
    (hne : (ns, name) ≠ (ns', name')) : (CellKeys.of ns name).Apart (CellKeys.of ns' name') :=
  CellKeys.apart_of_ne (separator_notMem_of_offers hcheck h)
    (separator_notMem_of_offers hcheck h') hne

end ServiceConfig

/-- Dynamic buckets have well-formed names that no other bucket of the namespace has. -/
def NamespaceBuckets.Lawful (nb : NamespaceBuckets) : Prop :=
  ∀ name b, nb.dynamic.get? name = some b →
    checkName .bucket name = .ok () ∧ nb.named.get? name = none

def Container.Lawful (b : Container) : Prop :=
  ∀ key nb, b.namespaces.get? key = some nb → nb.Lawful

namespace NamespaceBuckets

variable {nb : NamespaceBuckets} {key name : String} {r : Roster}

theorem checkName_of_templateFor? {template : BucketConfig}
    (h : nb.templateFor? name = some template) : checkName .bucket name = .ok () := by
  unfold templateFor? at h
  split at h
  · cases h
  · split at h
    · cases h
    · assumption

theorem lawful_findDynamic (h : nb.Lawful) (hnamed : nb.named.get? name = none) (key : String)
    (r : Roster) : (nb.findDynamic key name r).2.1.Lawful := by
  unfold findDynamic
  split
  · exact h
  · split
    · exact h
    · rename_i hnone
      split
      · exact h
      · rename_i template htemplate
        simp only [putDynamic, hnone]
        intro other b hb
        change (nb.dynamic.insert name _).get? other = some b at hb
        rw [NameMap.get?_insert] at hb
        split at hb
        · rename_i heq
          subst heq
          exact ⟨checkName_of_templateFor? htemplate, hnamed⟩
        · exact h other b hb

theorem lawful_sweep (h : nb.Lawful) (r : Roster) : (nb.sweep r).2.1.Lawful := by
  intro name b hb
  refine h name b ?_
  rw [NameMap.get?_eq_some_iff] at hb ⊢
  exact (List.mem_filter.mp hb).1

/-- A dynamic bucket that is found is one from the template. -/
theorem terms_of_findDynamic {ns : NamespaceConfig} {b : Bucket} (hserves : nb.Serves key ns)
    (hlawful : nb.Lawful) (hfind : (nb.findDynamic key name r).1 = some b) :
    checkName .bucket name = .ok () ∧
      ∃ t, ns.template = some t ∧ b.terms = (key, name, t, true) := by
  unfold findDynamic at hfind
  split at hfind
  · cases hfind
  · split at hfind
    · rename_i b' hlives
      cases hfind
      obtain ⟨t, htemplate, hterms⟩ := Option.map_eq_some_iff.mp (hserves.dynamic name b hlives)
      exact ⟨(hlawful name b hlives).1, t, htemplate, hterms.symm⟩
    · rename_i hnone
      split at hfind
      · cases hfind
      · rename_i t htemplate
        have hconfig := template_of_templateFor? htemplate
        rw [hserves.config] at hconfig
        unfold putDynamic at hfind
        rw [hnone] at hfind
        cases hfind
        exact ⟨checkName_of_templateFor? htemplate, t, hconfig, rfl⟩

end NamespaceBuckets

namespace Container

variable {c : ServiceConfig} {b : Container} {key name : String} {r : Roster}

theorem lawful_insert (h : b.Lawful) {nb : NamespaceBuckets} (hnb : nb.Lawful) :
    Lawful { b with namespaces := b.namespaces.insert key nb } := by
  intro other nb' hnb'
  change (b.namespaces.insert key nb).get? other = some nb' at hnb'
  rw [NameMap.get?_insert] at hnb'
  split at hnb'
  · cases hnb'
    exact hnb
  · exact h other nb' hnb'

/-- No bucket is dynamic before one is asked for. -/
theorem dynamic_makeNamespaces {entries : List (String × NamespaceConfig)}
    {made : NameMap NamespaceBuckets} (h : ∀ key nb, made.get? key = some nb → nb.dynamic = ∅)
    (r : Roster) {nb : NamespaceBuckets}
    (hnb : (makeNamespaces entries made r).1.get? key = some nb) : nb.dynamic = ∅ := by
  induction entries generalizing made r with
  | nil => exact h key nb hnb
  | cons e rest ih =>
      refine ih (fun other nb' hnb' => ?_) _ hnb
      rw [NameMap.get?_insert] at hnb'
      split at hnb'
      · cases hnb'
        rfl
      · exact h other nb' hnb'

theorem dynamic_make (c : ServiceConfig) (r : Roster) {nb : NamespaceBuckets}
    (hnb : (make c r).1.namespaces.get? key = some nb) : nb.dynamic = ∅ := by
  have hnone : ∀ key nb, (∅ : NameMap NamespaceBuckets).get? key = some nb → nb.dynamic = ∅ := nofun
  exact dynamic_makeNamespaces hnone _ hnb

theorem lawful_make (c : ServiceConfig) (r : Roster) : (make c r).1.Lawful := by
  intro key nb hnb name b hb
  rw [dynamic_make c r hnb] at hb
  cases hb

theorem lawful_find (h : b.Lawful) (key name : String) (r : Roster) :
    (b.find key name r).2.1.Lawful := by
  unfold find
  split
  · exact h
  · rename_i nb hnb
    split
    · exact h
    · rename_i hnamed
      split
      · rename_i found nb' r' hfound
        have hlawful := NamespaceBuckets.lawful_findDynamic (h key nb hnb) hnamed key r
        rw [hfound] at hlawful
        exact lawful_insert h hlawful
      · exact h

theorem lawful_sweep (h : b.Lawful) (r : Roster) : (b.sweep r).2.1.Lawful := by
  intro key nb hnb
  obtain ⟨r', hkey⟩ := get?_sweep b r key
  rw [hkey] at hnb
  obtain ⟨nb', hnb', rfl⟩ := Option.map_eq_some_iff.mp hnb
  exact NamespaceBuckets.lawful_sweep (h key nb' hnb') r'

theorem Serves.namespace (h : b.Serves c) {nb : NamespaceBuckets}
    (hnb : b.namespaces.get? key = some nb) :
    ∃ nc, c.namespaces.get? key = some nc ∧ nb.Serves key nc := by
  cases hns : c.namespaces.get? key with
  | none =>
      rw [h.noOthers key hns] at hnb
      cases hnb
  | some nc =>
      obtain ⟨nb', hnb', hserved⟩ := h.namespaces key nc hns
      rw [hnb, Option.some.injEq] at hnb'
      subst hnb'
      exact ⟨nc, rfl, hserved⟩

/-- Whatever bucket is found is one that the configuration offers. -/
theorem offers_of_find {found : Bucket} (hserves : b.Serves c) (hlawful : b.Lawful)
    (hfind : (b.find key name r).1 = some found) : c.Offers found.terms := by
  have hglobal : b.globalDefault = some found → c.Offers found.terms := by
    intro hfound
    have hterms := hserves.globalDefault
    rw [hfound] at hterms
    obtain ⟨g, hg, heq⟩ := Option.map_eq_some_iff.mp hterms.symm
    rw [← heq]
    exact .globalDefault hg
  unfold find at hfind
  split at hfind
  · exact hglobal hfind
  · rename_i nb hnb
    obtain ⟨nc, hns, hserved⟩ := hserves.namespace hnb
    have hnames := hserved.named name
    split at hfind
    · rename_i b' hnamed
      cases hfind
      rw [hnamed] at hnames
      obtain ⟨config, hconfig, heq⟩ := Option.map_eq_some_iff.mp hnames.symm
      rw [← heq]
      exact .named hns hconfig
    · rename_i hnamed
      split at hfind
      · rename_i b' nb' r' hdynamic
        cases hfind
        obtain ⟨hname, t, htemplate, heq⟩ := NamespaceBuckets.terms_of_findDynamic hserved
          (hlawful key nb hnb) (congrArg Prod.fst hdynamic)
        rw [hnamed] at hnames
        rw [heq]
        exact .dynamic hns htemplate hname (Option.map_eq_none_iff.mp hnames.symm)
      · rcases Option.or_eq_some_iff.mp hfind with hfallback | ⟨-, hdefault⟩
        · have hterms := hserved.fallback
          rw [hfallback] at hterms
          obtain ⟨config, hconfig, heq⟩ := Option.map_eq_some_iff.mp hterms.symm
          rw [← heq]
          exact .fallback hns hconfig
        · exact hglobal hdefault

end Container

end TokenQuota
