import TokenQuota.Bucket.Container
import TokenQuota.Proofs.NameMap

/-!
The buckets that are made for a configuration are those of exactly that configuration, and they
stay so while buckets are looked up and idle ones are taken out of service.
-/

namespace TokenQuota

/-- What a bucket stands for: all but its number. -/
def Bucket.terms (b : Bucket) : String × String × BucketConfig × Bool :=
  (b.ns, b.name, b.config, b.dynamic)

/-- The buckets of a namespace are those of its configuration; dynamic ones come from the
template. -/
structure NamespaceBuckets.Serves (nb : NamespaceBuckets) (key : String) (ns : NamespaceConfig) :
    Prop where
  config : nb.config = ns
  named : ∀ name, (nb.named.get? name).map Bucket.terms =
    (ns.buckets.get? name).map fun c => (key, name, c, false)
  fallback : nb.fallback.map Bucket.terms =
    ns.defaultBucket.map fun c => (key, defaultBucketName, c, false)
  dynamic : ∀ name b, nb.dynamic.get? name = some b →
    ns.template.map (fun c => (key, name, c, true)) = some b.terms

/-- The namespaces and the global default are those of the configuration. -/
structure Container.Serves (b : Container) (c : ServiceConfig) : Prop where
  namespaces : ∀ key ns, c.namespaces.get? key = some ns →
    ∃ nb, b.namespaces.get? key = some nb ∧ nb.Serves key ns
  noOthers : ∀ key, c.namespaces.get? key = none → b.namespaces.get? key = none
  globalDefault : b.globalDefault.map Bucket.terms =
    c.globalDefault.map fun g => (globalNamespace, defaultBucketName, g, false)

/-- What of the buckets of a namespace never changes. -/
def NamespaceBuckets.static (nb : NamespaceBuckets) :
    NamespaceConfig × NameMap Bucket × Option Bucket :=
  (nb.config, nb.named, nb.fallback)

/-- The buckets are the same but for dynamic ones. -/
structure Container.SameStatic (b b' : Container) : Prop where
  namespaces : ∀ key, (b'.namespaces.get? key).map NamespaceBuckets.static =
    (b.namespaces.get? key).map NamespaceBuckets.static
  globalDefault : b'.globalDefault = b.globalDefault

/-- Only dynamic buckets came or went, in accordance with every configuration that the buckets
are those of. -/
structure Container.Follows (b b' : Container) : Prop where
  static : b.SameStatic b'
  serves : ∀ c, b.Serves c → b'.Serves c

namespace Container

theorem SameStatic.refl (b : Container) : b.SameStatic b := ⟨fun _ => rfl, rfl⟩

theorem SameStatic.trans {b b' b'' : Container} (h : b.SameStatic b') (h' : b'.SameStatic b'') :
    b.SameStatic b'' := by
  constructor
  · intro key
    rw [h'.namespaces, h.namespaces]
  · rw [h'.globalDefault, h.globalDefault]

theorem Follows.refl (b : Container) : b.Follows b := ⟨.refl b, fun _ h => h⟩

theorem Follows.trans {b b' b'' : Container} (h : b.Follows b') (h' : b'.Follows b'') :
    b.Follows b'' :=
  ⟨h.static.trans h'.static, fun c hc => h'.serves c (h.serves c hc)⟩

theorem follows_insert {b : Container} {key : String} {nb nb' : NamespaceBuckets}
    (hnb : b.namespaces.get? key = some nb) (hstatic : nb'.static = nb.static)
    (hserves : ∀ ns, nb.Serves key ns → nb'.Serves key ns) :
    b.Follows { b with namespaces := b.namespaces.insert key nb' } := by
  constructor
  · constructor
    · intro other
      rw [NameMap.get?_insert]
      split
      · rename_i heq
        rw [heq, hnb, Option.map_some, Option.map_some, hstatic]
      · rfl
    · rfl
  · intro c hc
    constructor
    · intro other ns hns
      obtain ⟨old, hold, hserved⟩ := hc.namespaces other ns hns
      rw [NameMap.get?_insert]
      split
      · rename_i heq
        subst heq
        rw [hnb, Option.some.injEq] at hold
        subst hold
        exact ⟨nb', rfl, hserves ns hserved⟩
      · exact ⟨old, hold, hserved⟩
    · intro other hnone
      have hother := hc.noOthers other hnone
      rw [NameMap.get?_insert, if_neg]
      · exact hother
      · rintro rfl
        rw [hnb] at hother
        cases hother
    · exact hc.globalDefault

end Container

namespace NamespaceBuckets

theorem serves_putDynamic {nb : NamespaceBuckets} {key name : String} {template : BucketConfig}
    (htemplate : nb.config.template = some template) (r : Roster) {ns : NamespaceConfig}
    (h : nb.Serves key ns) : (nb.putDynamic key name template r).2.1.Serves key ns := by
  unfold putDynamic
  split
  · exact h
  · refine ⟨h.config, h.named, h.fallback, ?_⟩
    intro other b hb
    change (nb.dynamic.insert name _).get? other = some b at hb
    rw [NameMap.get?_insert] at hb
    split at hb
    · rename_i heq
      cases hb
      subst heq
      rw [← h.config, htemplate]
      rfl
    · exact h.dynamic other b hb

theorem static_putDynamic (nb : NamespaceBuckets) (key name : String) (template : BucketConfig)
    (r : Roster) : (nb.putDynamic key name template r).2.1.static = nb.static := by
  unfold putDynamic
  split
  · rfl
  · rfl

theorem template_of_templateFor? {nb : NamespaceBuckets} {name : String} {template : BucketConfig}
    (h : nb.templateFor? name = some template) : nb.config.template = some template := by
  unfold templateFor? at h
  split at h
  · cases h
  · rename_i c htemplate
    split at h
    · cases h
    · split at h
      · rw [htemplate, h]
      · cases h

theorem findDynamic_spec (nb : NamespaceBuckets) (key name : String) (r : Roster) :
    (nb.findDynamic key name r).2.1.static = nb.static ∧
      ∀ ns, nb.Serves key ns → (nb.findDynamic key name r).2.1.Serves key ns := by
  unfold findDynamic
  split
  · exact ⟨rfl, fun _ h => h⟩
  · split
    · exact ⟨rfl, fun _ h => h⟩
    · split
      · exact ⟨rfl, fun _ h => h⟩
      · rename_i template htemplate
        have hconfig := template_of_templateFor? htemplate
        exact ⟨static_putDynamic nb key name template r, fun ns h =>
          serves_putDynamic hconfig r h⟩

theorem serves_sweep {nb : NamespaceBuckets} {key : String} {ns : NamespaceConfig}
    (h : nb.Serves key ns) (r : Roster) : (nb.sweep r).2.1.Serves key ns := by
  refine ⟨h.config, h.named, h.fallback, ?_⟩
  intro name b hb
  refine h.dynamic name b ?_
  rw [NameMap.get?_eq_some_iff] at hb ⊢
  exact (List.mem_filter.mp hb).1

end NamespaceBuckets

namespace Container

theorem follows_find (b : Container) (key name : String) (r : Roster) :
    b.Follows (b.find key name r).2.1 := by
  unfold find
  split
  · exact .refl b
  · rename_i nb hnb
    split
    · exact .refl b
    · obtain ⟨hstatic, hserves⟩ := nb.findDynamic_spec key name r
      split
      · rename_i found nb' r' hfound
        rw [hfound] at hstatic hserves
        exact follows_insert hnb hstatic hserves
      · exact .refl b

theorem follows_sweepAll {entries : List (String × NamespaceBuckets)} (b : Container)
    (hsorted : entries.Pairwise fun e f => e.1 < f.1)
    (hentries : ∀ e ∈ entries, b.namespaces.get? e.1 = some e.2) (r : Roster) :
    b.Follows (sweepAll entries b r).2.1 := by
  induction entries generalizing b r with
  | nil => exact .refl b
  | cons e rest ih =>
      obtain ⟨key, nb⟩ := e
      obtain ⟨hkey, hrest⟩ := List.pairwise_cons.mp hsorted
      have hfirst : b.Follows
          { b with namespaces := b.namespaces.insert key (nb.sweep r).2.1 } :=
        follows_insert (hentries (key, nb) List.mem_cons_self) rfl
          fun ns h => NamespaceBuckets.serves_sweep h r
      refine hfirst.trans (ih _ hrest ?_ _)
      intro e he
      have hne : e.1 ≠ key := fun heq => String.lt_irrefl key (heq ▸ hkey e he)
      rw [NameMap.get?_insert, if_neg hne]
      exact hentries e (List.mem_cons_of_mem _ he)

theorem follows_sweep (b : Container) (r : Roster) : b.Follows (b.sweep r).2.1 := by
  refine follows_sweepAll b b.namespaces.sorted ?_ r
  intro e he
  exact NameMap.get?_eq_some_iff.mpr he

theorem terms_makeOptional (ns name : String) (config : Option BucketConfig) (r : Roster) :
    (makeOptional ns name config r).1.map Bucket.terms =
      config.map fun c => (ns, name, c, false) := by
  cases config with
  | none => rfl
  | some c => rfl

theorem findEntry_eq_none {α : Type} {name : String} {entries : List (String × α)}
    (h : ∀ e ∈ entries, name < e.1) : NameMap.findEntry name entries = none := by
  induction entries with
  | nil => rfl
  | cons e rest ih =>
      have hne : e.1 ≠ name := fun heq => String.lt_irrefl name (heq ▸ h e List.mem_cons_self)
      rw [NameMap.findEntry, if_neg hne]
      exact ih fun f hf => h f (List.mem_cons_of_mem _ hf)

/-- A sweep leaves every namespace swept at some time. -/
theorem get?_sweepAll {entries : List (String × NamespaceBuckets)}
    (hsorted : entries.Pairwise fun e f => e.1 < f.1) (b : Container) (r : Roster)
    (key : String) :
    (∀ nb, NameMap.findEntry key entries = some nb → ∃ r',
      (sweepAll entries b r).2.1.namespaces.get? key = some (nb.sweep r').2.1) ∧
    (NameMap.findEntry key entries = none →
      (sweepAll entries b r).2.1.namespaces.get? key = b.namespaces.get? key) := by
  induction entries generalizing b r with
  | nil =>
      refine ⟨?_, fun _ => rfl⟩
      rintro nb ⟨⟩
  | cons e rest ih =>
      obtain ⟨first, nb⟩ := e
      obtain ⟨hfirst, hrest⟩ := List.pairwise_cons.mp hsorted
      obtain ⟨hfound, hother⟩ := ih hrest
        { b with namespaces := b.namespaces.insert first (nb.sweep r).2.1 } (nb.sweep r).2.2
      rw [NameMap.findEntry]
      by_cases heq : first = key
      · subst heq
        rw [if_pos rfl]
        constructor
        · rintro _ ⟨⟩
          refine ⟨r, (hother (findEntry_eq_none hfirst)).trans ?_⟩
          rw [NameMap.get?_insert, if_pos rfl]
        · rintro ⟨⟩
      · rw [if_neg heq]
        refine ⟨hfound, fun hnone => (hother hnone).trans ?_⟩
        rw [NameMap.get?_insert, if_neg (Ne.symm heq)]

theorem get?_sweep (b : Container) (r : Roster) (key : String) : ∃ r',
    (b.sweep r).2.1.namespaces.get? key =
      (b.namespaces.get? key).map fun nb => (nb.sweep r').2.1 := by
  obtain ⟨hfound, hother⟩ := get?_sweepAll b.namespaces.sorted b r key
  cases hnb : b.namespaces.get? key with
  | none => exact ⟨r, (hother hnb).trans hnb⟩
  | some nb => exact hfound nb hnb

theorem terms_makeNamed (ns : String) {entries : List (String × BucketConfig)}
    (hsorted : entries.Pairwise fun e f => e.1 < f.1) (made : NameMap Bucket) (r : Roster)
    (name : String) :
    ((makeNamed ns entries made r).1.get? name).map Bucket.terms =
      ((NameMap.findEntry name entries).map fun c => (ns, name, c, false)).or
        ((made.get? name).map Bucket.terms) := by
  induction entries generalizing made r with
  | nil => rfl
  | cons e rest ih =>
      obtain ⟨first, config⟩ := e
      obtain ⟨hfirst, hrest⟩ := List.pairwise_cons.mp hsorted
      change ((makeNamed ns rest (made.insert first _) _).1.get? name).map Bucket.terms = _
      rw [ih hrest, NameMap.get?_insert, NameMap.findEntry]
      by_cases heq : first = name
      · subst heq
        rw [if_pos rfl, if_pos rfl, findEntry_eq_none hfirst]
        rfl
      · rw [if_neg heq, if_neg (Ne.symm heq)]

theorem serves_makeNamespace (key : String) (ns : NamespaceConfig) (r : Roster) :
    (makeNamespace key ns r).1.Serves key ns := by
  constructor
  · rfl
  · intro name
    refine (terms_makeNamed key ns.buckets.sorted ∅ r name).trans ?_
    exact Option.or_none
  · exact terms_makeOptional key defaultBucketName ns.defaultBucket _
  · intro name b hb
    cases hb

theorem makeNamespaces_spec {entries : List (String × NamespaceConfig)}
    (hsorted : entries.Pairwise fun e f => e.1 < f.1) (made : NameMap NamespaceBuckets)
    (r : Roster) (key : String) :
    (∀ ns, NameMap.findEntry key entries = some ns →
      ∃ nb, (makeNamespaces entries made r).1.get? key = some nb ∧ nb.Serves key ns) ∧
    (NameMap.findEntry key entries = none →
      (makeNamespaces entries made r).1.get? key = made.get? key) := by
  induction entries generalizing made r with
  | nil => exact ⟨fun ns hns => (by cases hns), fun _ => rfl⟩
  | cons e rest ih =>
      obtain ⟨first, ns⟩ := e
      obtain ⟨hfirst, hrest⟩ := List.pairwise_cons.mp hsorted
      obtain ⟨hfound, hother⟩ := ih hrest (made.insert first (makeNamespace first ns r).1)
        (makeNamespace first ns r).2
      rw [NameMap.findEntry]
      by_cases heq : first = key
      · subst heq
        rw [if_pos rfl]
        refine ⟨?_, fun hnone => (by cases hnone)⟩
        rintro _ ⟨⟩
        refine ⟨_, (hother (findEntry_eq_none hfirst)).trans ?_, serves_makeNamespace first ns r⟩
        rw [NameMap.get?_insert, if_pos rfl]
      · rw [if_neg heq]
        refine ⟨hfound, fun hnone => (hother hnone).trans ?_⟩
        rw [NameMap.get?_insert, if_neg (Ne.symm heq)]

/-- The buckets that are made for a configuration are those of exactly that configuration. -/
theorem serves_make (c : ServiceConfig) (r : Roster) : (make c r).1.Serves c := by
  have hspec := makeNamespaces_spec c.namespaces.sorted ∅
    (makeOptional globalNamespace defaultBucketName c.globalDefault r).2
  constructor
  · intro key ns hns
    exact (hspec key).1 ns hns
  · intro key hnone
    exact (hspec key).2 hnone
  · exact terms_makeOptional globalNamespace defaultBucketName c.globalDefault r

end Container

end TokenQuota
