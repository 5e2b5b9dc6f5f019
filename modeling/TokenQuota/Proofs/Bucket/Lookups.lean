import TokenQuota.Proofs.Bucket.Resolution

/-!
Looking up buckets, whatever was looked up and swept before. A name is resolved at the first level
that has a bucket for it, and only there a bucket may be made. No namespace has more dynamic buckets
than its limit allows.
-/

namespace TokenQuota

theorem Bucket.dynamic_of_terms {o : Option Bucket} {p : Option BucketConfig} {ns name : String}
    {dynamic : Bool} {x : Bucket}
    (h : o.map terms = p.map fun config => (ns, name, config, dynamic)) (ho : o = some x) :
    x.dynamic = dynamic := by
  rw [ho] at h
  obtain ⟨config, -, hterms⟩ := Option.map_eq_some_iff.mp h.symm
  exact (congrArg (fun t => t.2.2.2) hterms).symm

namespace Container

/-- Puts a dynamic bucket into a namespace. -/
def add (b : Container) (key name : String) (x : Bucket) : Container :=
  match b.namespaces.get? key with
  | none => b
  | some nb =>
    { b with namespaces :=
        b.namespaces.insert key { nb with dynamic := nb.dynamic.insert name x } }

/-- What looking up a bucket comes to: the bucket that is found, and the state afterwards. Apart
from dynamic buckets there is one that the name stands for, if any. -/
inductive Finds (c : ServiceConfig) (apart : Option Bucket) (b : Container) (r : Roster)
    (key name : String) : Option Bucket → Container × Roster → Prop
  | unknown (hns : c.namespaces.get? key = none)
      (hterms : apart.map Bucket.terms =
        c.globalDefault.map fun g => (globalNamespace, defaultBucketName, g, false)) :
      Finds c apart b r key name apart (b, r)
  | named {ns : NamespaceConfig} {config : BucketConfig}
      (hns : c.namespaces.get? key = some ns) (hbucket : ns.buckets.get? name = some config)
      (hterms : apart.map Bucket.terms = some (key, name, config, false)) :
      Finds c apart b r key name apart (b, r)
  | live {ns : NamespaceConfig} {template : BucketConfig} {x : Bucket}
      (hns : c.namespaces.get? key = some ns) (hbucket : ns.buckets.get? name = none)
      (htemplate : ns.template = some template) (hlives : b.dynamicOf key name = some x)
      (hterms : x.terms = (key, name, template, true)) :
      Finds c apart b r key name (some x) (b, r)
  | made {ns : NamespaceConfig} {template : BucketConfig}
      (hns : c.namespaces.get? key = some ns) (hbucket : ns.buckets.get? name = none)
      (htemplate : ns.template = some template) (hnone : b.dynamicOf key name = none)
      (hname : checkName .bucket name = .ok ())
      (hroom : ns.maxDynamic = 0 ∨ b.dynamicCount key < ns.maxDynamic.toNat) :
      Finds c apart b r key name (some ⟨r.size, key, name, template, true⟩)
        (b.add key name ⟨r.size, key, name, template, true⟩, { r with size := r.size + 1 })
  | fallback {ns : NamespaceConfig}
      (hns : c.namespaces.get? key = some ns) (hbucket : ns.buckets.get? name = none)
      (hrefused : ns.template = none ∨ b.dynamicOf key name = none ∧
        (checkName .bucket name ≠ .ok () ∨
          ns.maxDynamic ≠ 0 ∧ ns.maxDynamic.toNat ≤ b.dynamicCount key))
      (hterms : apart.map Bucket.terms = c.defaultTerms key) :
      Finds c apart b r key name apart (b, r)

variable {c : ServiceConfig} {b : Container} {key name : String} {r : Roster}

theorem dynamicOf_of_namespace {nb : NamespaceBuckets} (h : b.namespaces.get? key = some nb)
    (name : String) : b.dynamicOf key name = nb.dynamic.get? name := by
  rw [dynamicOf, h, Option.bind_some]

theorem dynamicCount_of_namespace {nb : NamespaceBuckets}
    (h : b.namespaces.get? key = some nb) : b.dynamicCount key = nb.dynamic.size := by
  rw [dynamicCount, h]

/-- There is no room for a dynamic bucket if there are as many as the limit allows. -/
theorem hasRoom_iff {nb : NamespaceBuckets} (h : b.namespaces.get? key = some nb) :
    nb.hasRoom = true ↔
      nb.config.maxDynamic = 0 ∨ b.dynamicCount key < nb.config.maxDynamic.toNat := by
  rw [NamespaceBuckets.hasRoom, dynamicCount_of_namespace h, Bool.or_eq_true, beq_iff_eq,
    decide_eq_true_eq]

/-- Where there is no bucket of a name of its own, a dynamic one is looked for. -/
theorem finds_dynamic (h : b.Serves c) {nb : NamespaceBuckets} {ns : NamespaceConfig}
    (hnb : b.namespaces.get? key = some nb) (hns : c.namespaces.get? key = some ns)
    (hserved : nb.Serves key ns) (hnamed : nb.named.get? name = none) (r : Roster) :
    Finds c (b.staticOf key name) b r key name (b.find key name r).1 (b.find key name r).2 := by
  have hbucket : ns.buckets.get? name = none := by
    have hnames := hserved.named name
    rw [hnamed] at hnames
    exact Option.map_eq_none_iff.mp hnames.symm
  have hstatic : b.staticOf key name = nb.fallback.or b.globalDefault := by
    rw [staticOf, hnb]
    dsimp only
    rw [hnamed, Option.none_or]
  have hterms : (b.staticOf key name).map Bucket.terms = c.defaultTerms key := by
    rw [hstatic]
    exact terms_of_static h hnb
  have hdynamic := dynamicOf_of_namespace hnb name
  have hroom := hasRoom_iff hnb
  rw [hserved.config] at hroom
  rw [find, hnb]
  dsimp only
  rw [hnamed]
  dsimp only
  rw [NamespaceBuckets.findDynamic, hserved.config]
  cases htemplate : ns.template with
  | none =>
      rw [← hstatic]
      exact .fallback hns hbucket (.inl htemplate) hterms
  | some t =>
      rw [if_neg (by simp)]
      cases hlives : nb.dynamic.get? name with
      | some x =>
          have hsame := NameMap.insert_of_get? hnb
          have hmade := hserved.dynamic name x hlives
          rw [htemplate, Option.map_some, Option.some.injEq] at hmade
          dsimp only
          rw [hsame]
          exact .live hns hbucket htemplate (hdynamic.trans hlives) hmade.symm
      | none =>
          dsimp only
          cases hfor : nb.templateFor? name with
          | none =>
              have hrefused : checkName .bucket name ≠ .ok () ∨
                  ns.maxDynamic ≠ 0 ∧ ns.maxDynamic.toNat ≤ b.dynamicCount key := by
                by_contra hpossible
                obtain ⟨hname, hspace⟩ := not_or.mp hpossible
                refine NamespaceBuckets.templateFor?_ne_none_iff.mpr
                  ⟨?_, not_not.mp hname, hroom.mpr ?_⟩ hfor
                · rw [hserved.config, htemplate]
                  exact Option.some_ne_none t
                · rwa [not_and_or, not_not, not_le] at hspace
              rw [← hstatic]
              exact .fallback hns hbucket (.inr ⟨hdynamic.trans hlives, hrefused⟩) hterms
          | some t' =>
              obtain ⟨-, hname, hspace⟩ := NamespaceBuckets.templateFor?_ne_none_iff.mp
                (hfor ▸ Option.some_ne_none t' : nb.templateFor? name ≠ none)
              have ht := NamespaceBuckets.template_of_templateFor? hfor
              rw [hserved.config, htemplate, Option.some.injEq] at ht
              subst ht
              have hmade : Finds c (b.staticOf key name) b r key name _ _ :=
                .made hns hbucket htemplate (hdynamic.trans hlives) hname (hroom.mp hspace)
              rw [add, hnb] at hmade
              simp only [NamespaceBuckets.putDynamic, hlives]
              exact hmade

theorem find_spec (h : b.Serves c) (key name : String) (r : Roster) :
    Finds c (b.staticOf key name) b r key name (b.find key name r).1 (b.find key name r).2 := by
  cases hnb : b.namespaces.get? key with
  | none =>
      have hns : c.namespaces.get? key = none := by
        cases hns : c.namespaces.get? key with
        | none => rfl
        | some nc =>
            obtain ⟨nb, hnb', -⟩ := h.namespaces key nc hns
            cases hnb.symm.trans hnb'
      have hstatic : b.staticOf key name = b.globalDefault := by rw [staticOf, hnb]
      rw [find, hnb]
      dsimp only
      rw [← hstatic]
      exact .unknown hns (by rw [hstatic, h.globalDefault])
  | some nb =>
      obtain ⟨ns, hns, hserved⟩ := h.namespace hnb
      cases hnamed : nb.named.get? name with
      | none => exact finds_dynamic h hnb hns hserved hnamed r
      | some x =>
          have hnames := hserved.named name
          rw [hnamed, Option.map_some] at hnames
          obtain ⟨config, hbucket, hterms⟩ := Option.map_eq_some_iff.mp hnames.symm
          have hstatic : b.staticOf key name = some x := by
            rw [staticOf, hnb]
            dsimp only
            rw [hnamed, Option.some_or]
          rw [find, hnb]
          dsimp only
          rw [hnamed]
          dsimp only
          rw [← hstatic]
          exact .named hns hbucket (by rw [hstatic, Option.map_some, hterms])

/-! ### Sweeping -/

theorem size_sweepEntries (entries : List (String × Bucket)) (r : Roster) :
    (NamespaceBuckets.sweepEntries entries r).2.size = r.size := by
  induction entries generalizing r with
  | nil => rfl
  | cons e rest ih =>
      rw [NamespaceBuckets.sweepEntries]
      split
      · exact ih _
      · refine (ih _).trans ?_
        unfold Roster.destroy
        split
        · rfl
        · rfl

theorem size_sweepAll (entries : List (String × NamespaceBuckets)) (b : Container)
    (r : Roster) : (sweepAll entries b r).2.2.size = r.size := by
  induction entries generalizing b r with
  | nil => rfl
  | cons e rest ih =>
      exact (ih _ (e.2.sweep r).2.2).trans (size_sweepEntries e.2.dynamic.entries r)

/-- A sweep makes no dynamic buckets. -/
theorem dynamicOf_of_sweep {x : Bucket} (h : (b.sweep r).2.1.dynamicOf key name = some x) :
    b.dynamicOf key name = some x := by
  obtain ⟨r', hkey⟩ := get?_sweep b r key
  unfold dynamicOf at h ⊢
  rw [hkey] at h
  cases hnb : b.namespaces.get? key with
  | none =>
      rw [hnb] at h
      cases h
  | some nb =>
      rw [hnb] at h
      change (nb.dynamic.filter _).get? name = some x at h
      rw [NameMap.get?_filter] at h
      exact (Option.filter_eq_some_iff.mp h).1

theorem dynamicCount_sweep_le (b : Container) (r : Roster) (key : String) :
    (b.sweep r).2.1.dynamicCount key ≤ b.dynamicCount key := by
  obtain ⟨r', hkey⟩ := get?_sweep b r key
  unfold dynamicCount
  rw [hkey]
  cases b.namespaces.get? key with
  | none => exact Nat.le_refl _
  | some nb => exact NameMap.size_filter_le _ _

/-! ### Adding a dynamic bucket -/

theorem dynamicOf_add {nb : NamespaceBuckets} (hnb : b.namespaces.get? key = some nb)
    (name : String) (x : Bucket) (k n : String) :
    (b.add key name x).dynamicOf k n =
      if k = key ∧ n = name then some x else b.dynamicOf k n := by
  rw [add, hnb]
  dsimp only
  rw [dynamicOf_insert]
  by_cases hk : k = key
  · subst hk
    rw [if_pos rfl, NameMap.get?_insert, dynamicOf_of_namespace hnb]
    simp
  · rw [if_neg hk, if_neg fun h => hk h.1]

theorem dynamicCount_add_le (b : Container) (key name : String) (x : Bucket) (k : String) :
    (b.add key name x).dynamicCount k ≤
      if k = key then b.dynamicCount key + 1 else b.dynamicCount k := by
  rw [add]
  cases hnb : b.namespaces.get? key with
  | none =>
      dsimp only
      split
      · rename_i heq
        rw [heq]
        exact Nat.le_succ _
      · exact Nat.le_refl _
  | some nb =>
      rw [dynamicCount_of_namespace hnb]
      unfold dynamicCount
      dsimp only
      rw [NameMap.get?_insert]
      by_cases hk : k = key
      · rw [if_pos hk, if_pos hk]
        exact NameMap.size_insert_le _ _ _
      · rw [if_neg hk, if_neg hk]

/-! ### The numbers of the buckets -/

/-- The bucket can be found in the container. -/
def Has (b : Container) (x : Bucket) : Prop :=
  ∃ key name, b.staticOf key name = some x ∨ b.dynamicOf key name = some x

end Container

/-- The numbers of the buckets that a namespace has from the beginning are below a bound. -/
def NamespaceBuckets.Below (n : Nat) (nb : NamespaceBuckets) : Prop :=
  (∀ name x, nb.named.get? name = some x → x.id < n) ∧ ∀ x, nb.fallback = some x → x.id < n

theorem NamespaceBuckets.Below.mono {n m : Nat} {nb : NamespaceBuckets} (h : nb.Below n)
    (hle : n ≤ m) : nb.Below m :=
  ⟨fun name x hx => Nat.lt_of_lt_of_le (h.1 name x hx) hle,
    fun x hx => Nat.lt_of_lt_of_le (h.2 x hx) hle⟩

namespace Container

variable {c : ServiceConfig} {b : Container} {key name : String} {r : Roster}

theorem makeOptional_spec (ns name : String) (config : Option BucketConfig) (r : Roster) :
    r.size ≤ (makeOptional ns name config r).2.size ∧
      ∀ x, (makeOptional ns name config r).1 = some x →
        x.id < (makeOptional ns name config r).2.size := by
  cases config with
  | none => exact ⟨Nat.le_refl _, nofun⟩
  | some config =>
      refine ⟨Nat.le_succ _, ?_⟩
      rintro _ ⟨⟩
      exact Nat.lt_succ_self _

theorem makeNamed_spec (ns : String) (entries : List (String × BucketConfig))
    (made : NameMap Bucket) (r : Roster)
    (hmade : ∀ name x, made.get? name = some x → x.id < r.size) :
    r.size ≤ (makeNamed ns entries made r).2.size ∧
      ∀ name x, (makeNamed ns entries made r).1.get? name = some x →
        x.id < (makeNamed ns entries made r).2.size := by
  induction entries generalizing made r with
  | nil => exact ⟨Nat.le_refl _, hmade⟩
  | cons e rest ih =>
      obtain ⟨hgrows, hbelow⟩ := ih (made.insert e.1 ⟨r.size, ns, e.1, e.2, false⟩)
        { r with size := r.size + 1 } fun name x hx => by
          rw [NameMap.get?_insert] at hx
          split at hx
          · cases hx
            exact Nat.lt_succ_self _
          · exact Nat.lt_succ_of_lt (hmade name x hx)
      exact ⟨Nat.le_of_succ_le hgrows, hbelow⟩

theorem makeNamespace_spec (key : String) (ns : NamespaceConfig) (r : Roster) :
    r.size ≤ (makeNamespace key ns r).2.size ∧
      (makeNamespace key ns r).1.Below (makeNamespace key ns r).2.size := by
  obtain ⟨hnamed, hbelow⟩ := makeNamed_spec key ns.buckets.entries ∅ r nofun
  obtain ⟨hfallback, hbelow'⟩ := makeOptional_spec key defaultBucketName ns.defaultBucket
    (makeNamed key ns.buckets.entries ∅ r).2
  refine ⟨Nat.le_trans hnamed hfallback, fun name x hx => ?_, hbelow'⟩
  exact Nat.lt_of_lt_of_le (hbelow name x hx) hfallback

theorem below_makeNamespaces (entries : List (String × NamespaceConfig))
    (made : NameMap NamespaceBuckets) (r : Roster)
    (hmade : ∀ key nb, made.get? key = some nb → nb.Below r.size) :
    r.size ≤ (makeNamespaces entries made r).2.size ∧
      ∀ key nb, (makeNamespaces entries made r).1.get? key = some nb →
        nb.Below (makeNamespaces entries made r).2.size := by
  induction entries generalizing made r with
  | nil => exact ⟨Nat.le_refl _, hmade⟩
  | cons e rest ih =>
      obtain ⟨hfirst, hbelow⟩ := makeNamespace_spec e.1 e.2 r
      obtain ⟨hgrows, hrest⟩ := ih (made.insert e.1 (makeNamespace e.1 e.2 r).1)
        (makeNamespace e.1 e.2 r).2 fun key nb hnb => by
          rw [NameMap.get?_insert] at hnb
          split at hnb
          · cases hnb
            exact hbelow
          · exact (hmade key nb hnb).mono hfirst
      exact ⟨Nat.le_trans hfirst hgrows, hrest⟩

theorem numbered_make (c : ServiceConfig) (r : Roster) {x : Bucket} (h : (make c r).1.Has x) :
    x.id < (make c r).2.size := by
  obtain ⟨-, hglobal⟩ := makeOptional_spec globalNamespace defaultBucketName c.globalDefault r
  obtain ⟨hgrows, hbelow⟩ := below_makeNamespaces c.namespaces.entries ∅
    (makeOptional globalNamespace defaultBucketName c.globalDefault r).2 nofun
  have hdefault (hx : (make c r).1.globalDefault = some x) : x.id < (make c r).2.size :=
    Nat.lt_of_lt_of_le (hglobal x hx) hgrows
  obtain ⟨key, name, hstatic | hdynamic⟩ := h
  · unfold staticOf at hstatic
    split at hstatic
    · exact hdefault hstatic
    · rename_i nb hnb
      obtain ⟨hnamed, hfallback⟩ := hbelow key nb hnb
      rcases Option.or_eq_some_iff.mp hstatic with hx | ⟨-, hx⟩
      · exact hnamed name x hx
      · rcases Option.or_eq_some_iff.mp hx with hx | ⟨-, hx⟩
        · exact hfallback x hx
        · exact hdefault hx
  · obtain ⟨nb, hnb, hx⟩ := Option.bind_eq_some_iff.mp hdynamic
    rw [dynamic_make c r hnb] at hx
    cases hx

/-! ### Runs -/

/-- What happens to the buckets of a configuration. -/
inductive Operation
  | find (key name : String)
  | sweep
  /-- A bucket is used, and is not idle at the next sweep. -/
  | use (id : Nat)

def Operation.perform : Operation → Container × Roster → Container × Roster
  | .find key name, s => (s.1.find key name s.2).2
  | .sweep, s => (s.1.sweep s.2).2
  | .use id, s => (s.1, s.2.report id)

/-- The buckets after operations, one after the other. -/
def after (operations : List Operation) (s : Container × Roster) : Container × Roster :=
  operations.foldl (fun s o => o.perform s) s

/-- What holds of the buckets of a configuration at any time. -/
structure Sound (c : ServiceConfig) (b₀ : Container) (s : Container × Roster) : Prop where
  static : b₀.SameStatic s.1
  serves : s.1.Serves c
  lawful : s.1.Lawful
  numbered : ∀ x, s.1.Has x → x.id < s.2.size
  capped : ∀ key ns, c.namespaces.get? key = some ns → ns.maxDynamic ≠ 0 →
    s.1.dynamicCount key ≤ ns.maxDynamic.toNat

theorem sound_make (c : ServiceConfig) (r : Roster) : Sound c (make c r).1 (make c r) := by
  refine ⟨.refl _, serves_make c r, lawful_make c r, fun x hx => numbered_make c r hx, ?_⟩
  intro key ns hns hlimit
  obtain ⟨nb, hnb, -⟩ := (serves_make c r).namespaces key ns hns
  rw [dynamicCount_of_namespace hnb, dynamic_make c r hnb]
  exact Nat.zero_le _

theorem dynamic_of_staticOf {x : Bucket} (h : b.Serves c) (hx : b.staticOf key name = some x) :
    x.dynamic = false := by
  have hglobal (hx : b.globalDefault = some x) : x.dynamic = false :=
    Bucket.dynamic_of_terms h.globalDefault hx
  unfold staticOf at hx
  split at hx
  · exact hglobal hx
  · rename_i nb hnb
    obtain ⟨ns, -, hserved⟩ := h.namespace hnb
    rcases Option.or_eq_some_iff.mp hx with hx | ⟨-, hx⟩
    · exact Bucket.dynamic_of_terms (hserved.named name) hx
    · rcases Option.or_eq_some_iff.mp hx with hx | ⟨-, hx⟩
      · exact Bucket.dynamic_of_terms hserved.fallback hx
      · exact hglobal hx

section Steps

variable {b₀ : Container} {s : Container × Roster}

theorem sound_find (h : Sound c b₀ s) (key name : String) :
    Sound c b₀ (s.1.find key name s.2).2 := by
  have hfollows := follows_find s.1 key name s.2
  have hserves := hfollows.serves c h.serves
  have hlawful := lawful_find h.lawful key name s.2
  have hfinds := find_spec h.serves key name s.2
  generalize s.1.find key name s.2 = result at hfollows hserves hlawful hfinds ⊢
  obtain ⟨found, s'⟩ := result
  cases hfinds with
  | unknown => exact h
  | named => exact h
  | live => exact h
  | fallback => exact h
  | @made ns template hns hbucket htemplate hnone hname hroom =>
      obtain ⟨nb, hnb, -⟩ := h.serves.namespaces key ns hns
      refine ⟨h.static.trans hfollows.static, hserves, hlawful, ?_, ?_⟩
      · rintro x ⟨k, n, hstatic | hdynamic⟩
        · rw [hfollows.static.staticOf_eq] at hstatic
          exact Nat.lt_succ_of_lt (h.numbered x ⟨k, n, .inl hstatic⟩)
        · rw [dynamicOf_add hnb] at hdynamic
          split at hdynamic
          · cases hdynamic
            exact Nat.lt_succ_self _
          · exact Nat.lt_succ_of_lt (h.numbered x ⟨k, n, .inr hdynamic⟩)
      · intro k ns' hns' hlimit
        refine Nat.le_trans (dynamicCount_add_le _ _ _ _ _) ?_
        split
        · rename_i heq
          subst heq
          obtain rfl := Option.some.inj (hns.symm.trans hns')
          exact hroom.resolve_left hlimit
        · exact h.capped k ns' hns' hlimit

theorem sound_sweep (h : Sound c b₀ s) : Sound c b₀ (s.1.sweep s.2).2 := by
  have hfollows := follows_sweep s.1 s.2
  refine ⟨h.static.trans hfollows.static, hfollows.serves c h.serves,
    lawful_sweep h.lawful s.2, ?_, ?_⟩
  · intro x hx
    rw [show (s.1.sweep s.2).2.2.size = s.2.size from size_sweepAll _ _ _]
    refine h.numbered x ?_
    obtain ⟨k, n, hstatic | hdynamic⟩ := hx
    · exact ⟨k, n, .inl (hfollows.static.staticOf_eq k n ▸ hstatic)⟩
    · exact ⟨k, n, .inr (dynamicOf_of_sweep hdynamic)⟩
  · intro k ns hns hlimit
    exact Nat.le_trans (dynamicCount_sweep_le _ _ _) (h.capped k ns hns hlimit)

theorem sound_use (h : Sound c b₀ s) (id : Nat) : Sound c b₀ (s.1, s.2.report id) := by
  refine ⟨h.static, h.serves, h.lawful, fun x hx => ?_, h.capped⟩
  have hsize : (s.2.report id).size = s.2.size := by
    unfold Roster.report
    split
    · rfl
    · rfl
  rw [hsize]
  exact h.numbered x hx

theorem Sound.perform (h : Sound c b₀ s) (o : Operation) : Sound c b₀ (o.perform s) := by
  cases o with
  | find key name => exact sound_find h key name
  | sweep => exact sound_sweep h
  | use id => exact sound_use h id

theorem Sound.after (h : Sound c b₀ s) (operations : List Operation) :
    Sound c b₀ (after operations s) := by
  induction operations generalizing s with
  | nil => exact h
  | cons o rest ih => exact ih (h.perform o)

/-- A dynamic bucket is found for as long as it lives. -/
theorem Sound.find_dynamic (h : Sound c b₀ s) {x : Bucket}
    (hx : s.1.dynamicOf key name = some x) : (s.1.find key name s.2).1 = some x := by
  have hfinds := find_spec h.serves key name s.2
  obtain ⟨nb, hnb, hlives⟩ := Option.bind_eq_some_iff.mp hx
  obtain ⟨ns, hns, hserved⟩ := h.serves.namespace hnb
  obtain ⟨t, ht, -⟩ := Option.map_eq_some_iff.mp (hserved.dynamic name x hlives)
  have hbucket : ns.buckets.get? name = none := by
    have hnames := hserved.named name
    rw [(h.lawful key nb hnb name x hlives).2] at hnames
    exact Option.map_eq_none_iff.mp hnames.symm
  generalize s.1.find key name s.2 = result at hfinds ⊢
  obtain ⟨found, s'⟩ := result
  cases hfinds with
  | unknown hnone => cases hns.symm.trans hnone
  | named hns' hbucket' =>
      obtain rfl := Option.some.inj (hns.symm.trans hns')
      cases hbucket.symm.trans hbucket'
  | live hns' hbucket' htemplate hlives' => exact hlives'.symm.trans hx
  | made hns' hbucket' htemplate hnone => cases hx.symm.trans hnone
  | fallback hns' hbucket' hrefused =>
      obtain rfl := Option.some.inj (hns.symm.trans hns')
      rcases hrefused with hnone | ⟨hnone, -⟩
      · cases ht.symm.trans hnone
      · cases hx.symm.trans hnone

/-- What is found and dynamic lives afterwards. -/
theorem Sound.lives_of_find (h : Sound c b₀ s) {x : Bucket}
    (hx : (s.1.find key name s.2).1 = some x) (hdynamic : x.dynamic = true) :
    (s.1.find key name s.2).2.1.dynamicOf key name = some x := by
  have hfinds := find_spec h.serves key name s.2
  have hstatic : s.1.staticOf key name ≠ some x := fun hsame =>
    absurd (dynamic_of_staticOf h.serves hsame) (by simp [hdynamic])
  generalize s.1.find key name s.2 = result at hx hfinds ⊢
  obtain ⟨found, s'⟩ := result
  cases hfinds with
  | unknown => exact absurd hx hstatic
  | named => exact absurd hx hstatic
  | fallback => exact absurd hx hstatic
  | live hns hbucket htemplate hlives => exact hlives.trans hx
  | made hns =>
      obtain ⟨nb, hnb, -⟩ := h.serves.namespaces key _ hns
      rw [dynamicOf_add hnb, if_pos ⟨rfl, rfl⟩]
      exact hx

theorem Sound.lives_perform (h : Sound c b₀ s) {x : Bucket}
    (hx : s.1.dynamicOf key name = some x) (o : Operation)
    (hlives : o = .sweep → (o.perform s).1.dynamicOf key name ≠ none) :
    (o.perform s).1.dynamicOf key name = some x := by
  cases o with
  | use id => exact hx
  | sweep =>
      obtain ⟨y, hy⟩ := Option.ne_none_iff_exists'.mp (hlives rfl)
      rw [hy, ← dynamicOf_of_sweep hy, hx]
  | find k n =>
      change (s.1.find k n s.2).2.1.dynamicOf key name = some x
      have hfinds := find_spec h.serves k n s.2
      generalize s.1.find k n s.2 = result at hfinds ⊢
      obtain ⟨found, s'⟩ := result
      cases hfinds with
      | unknown => exact hx
      | named => exact hx
      | live => exact hx
      | fallback => exact hx
      | made hns hbucket htemplate hnone =>
          obtain ⟨nb, hnb, -⟩ := h.serves.namespaces k _ hns
          rw [dynamicOf_add hnb, if_neg]
          · exact hx
          · rintro ⟨rfl, rfl⟩
            cases hx.symm.trans hnone

/-- No dynamic bucket goes but in a sweep. -/
theorem Sound.lives_after (h : Sound c b₀ s) {x : Bucket}
    (hx : s.1.dynamicOf key name = some x) {operations : List Operation}
    (hlives : ∀ before, before ++ [.sweep] <+: operations →
      (Container.after (before ++ [.sweep]) s).1.dynamicOf key name ≠ none) :
    (Container.after operations s).1.dynamicOf key name = some x := by
  induction operations generalizing s with
  | nil => exact hx
  | cons o rest ih =>
      refine ih (h.perform o) (h.lives_perform hx o ?_) fun before hbefore => ?_
      · rintro rfl
        exact hlives [] (List.prefix_append _ _)
      · exact hlives (o :: before) ((List.prefix_cons_inj o).mpr hbefore)

end Steps

/-- After any lookups and sweeps, a name is resolved at the first level that has a bucket for it,
every dynamic bucket has a number of its own, no namespace has more of them than its limit allows,
and one that was found is found again for as long as it lives. -/
theorem lookups_spec (c : ServiceConfig) (r : Roster) (operations : List Operation) :
    let s := after operations (make c r)
    (∀ key name, Finds c ((make c r).1.staticOf key name) s.1 s.2 key name
      (s.1.find key name s.2).1 (s.1.find key name s.2).2) ∧
    (∀ x, s.1.Has x → x.id < s.2.size) ∧
    (∀ key ns, c.namespaces.get? key = some ns → ns.maxDynamic ≠ 0 →
      s.1.dynamicCount key ≤ ns.maxDynamic.toNat) ∧
    ∀ key name x, (s.1.find key name s.2).1 = some x → x.dynamic = true → ∀ later,
      (∀ before, before ++ [.sweep] <+: later →
        (after (.find key name :: before ++ [.sweep]) s).1.dynamicOf key name ≠ none) →
      let s' := after (.find key name :: later) s
      (s'.1.find key name s'.2).1 = some x := by
  intro s
  have hs : Sound c (make c r).1 s := (sound_make c r).after operations
  refine ⟨fun key name => ?_, hs.numbered, hs.capped, ?_⟩
  · rw [← hs.static.staticOf_eq key name]
    exact find_spec hs.serves key name s.2
  · intro key name x hx hdynamic later hlives s'
    have hs' : Sound c (make c r).1 s' := hs.after (.find key name :: later)
    have hfirst := hs.lives_of_find hx hdynamic
    exact hs'.find_dynamic ((hs.perform (.find key name)).lives_after hfirst hlives)

/-- With a limit of one, another name finds nothing while the first bucket is in use. -/
theorem lookups_spec_limited :
    let template : BucketConfig := ⟨5, 5, 0, 0, true⟩
    let users : NamespaceConfig := ⟨"users", none, some template, 1, ∅⟩
    let c := { ServiceConfig.empty with namespaces := .ofList [("users", users)] }
    let s := after [.find "users" "ann", .sweep, .find "users" "bob", .use 1, .sweep]
      (make c .empty)
    let s' := after (.find "users" "bob" :: [.use 1, .find "users" "ann", .sweep]) s
    (s.1.find "users" "ann" s.2).1 = none ∧ s.1.dynamicCount "users" ≤ 1 ∧
      (s'.1.find "users" "bob" s'.2).1 = some ⟨1, "users", "bob", template, true⟩ := by
  intro template users c s s'
  obtain ⟨-, -, hcapped, hfound⟩ := lookups_spec c .empty
    [.find "users" "ann", .sweep, .find "users" "bob", .use 1, .sweep]
  refine ⟨by decide +kernel, hcapped "users" users (by decide +kernel) (by decide), ?_⟩
  refine hfound "users" "bob" _ (by decide +kernel) rfl [.use 1, .find "users" "ann", .sweep] ?_
  intro before hbefore
  have hlives : ∀ n ≤ 3, (after (.find "users" "bob" ::
      [.use 1, .find "users" "ann", .sweep].take n) s).1.dynamicOf "users" "bob" ≠ none := by
    decide +kernel
  rw [List.cons_append, List.prefix_iff_eq_take.mp hbefore]
  exact hlives _ hbefore.length_le

end Container

end TokenQuota
