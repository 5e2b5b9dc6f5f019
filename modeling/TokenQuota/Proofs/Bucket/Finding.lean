import TokenQuota.Proofs.Bucket.Identities

/-!
Buckets are found alike in two containers of one configuration when the second one was only asked
for the bucket in question. What could tell them apart is a limit on dynamic buckets: a name for
which there was no room any more falls to the default bucket in one of them only.
-/

namespace TokenQuota

namespace NamespaceBuckets

/-- The name stands for a dynamic bucket: there is none of its own, and a dynamic one lives or may
be made. -/
def GivesDynamic (nb : NamespaceBuckets) (name : String) : Prop :=
  nb.named.get? name = none ∧ nb.config.template ≠ none ∧
    (nb.dynamic.get? name ≠ none ∨ nb.templateFor? name ≠ none)

theorem templateFor?_ne_none_iff {nb : NamespaceBuckets} {name : String} :
    nb.templateFor? name ≠ none ↔ nb.config.template ≠ none ∧ checkName .bucket name = .ok () ∧
      nb.hasRoom = true := by
  unfold templateFor?
  cases htemplate : nb.config.template with
  | none => simp
  | some template =>
      cases hname : checkName .bucket name with
      | error e => simp
      | ok u => cases hroom : nb.hasRoom <;> simp

/-- What is looked for among the dynamic buckets is one of them afterwards, if the name stands for
one at all. -/
theorem findDynamic_cases (nb : NamespaceBuckets) (key name : String) (r : Roster)
    (hnamed : nb.named.get? name = none) :
    (¬nb.GivesDynamic name ∧ nb.findDynamic key name r = (none, nb, r)) ∨
      nb.GivesDynamic name ∧ ∃ x nb' r', nb.findDynamic key name r = (some x, nb', r') ∧
        nb'.dynamic.get? name = some x ∧
        ∀ other, other ≠ name → nb'.dynamic.get? other = nb.dynamic.get? other := by
  unfold findDynamic GivesDynamic
  cases htemplate : nb.config.template with
  | none => exact .inl ⟨by simp, rfl⟩
  | some t =>
      cases hlives : nb.dynamic.get? name with
      | some x =>
          refine .inr ⟨⟨hnamed, by simp, .inl (by simp)⟩, x, nb, r, rfl, hlives, ?_⟩
          exact fun _ _ => rfl
      | none =>
          cases hfor : nb.templateFor? name with
          | none => exact .inl ⟨by simp, rfl⟩
          | some t' =>
              refine .inr ⟨⟨hnamed, by simp, .inr (by simp)⟩, ⟨r.size, key, name, t', true⟩, _,
                (r.make key name t' true).2, by simp [putDynamic, hlives, Roster.make]; rfl, ?_, ?_⟩
              · exact (NameMap.get?_insert _ _ _ _).trans (if_pos rfl)
              · intro other hne
                exact (NameMap.get?_insert _ _ _ _).trans (if_neg hne)

end NamespaceBuckets

namespace Container

variable {c : ServiceConfig} {b b' : Container} {key name : String} {r r' : Roster}

def dynamicOf (b : Container) (key name : String) : Option Bucket :=
  (b.namespaces.get? key).bind fun nb => nb.dynamic.get? name

/-- The bucket of a name apart from dynamic ones. -/
def staticOf (b : Container) (key name : String) : Option Bucket :=
  match b.namespaces.get? key with
  | none => b.globalDefault
  | some nb => (nb.named.get? name).or (nb.fallback.or b.globalDefault)

def GivesDynamic (b : Container) (key name : String) : Prop :=
  ∃ nb, b.namespaces.get? key = some nb ∧ nb.GivesDynamic name

theorem dynamicOf_insert (nb' : NamespaceBuckets) (other otherName : String) :
    dynamicOf { b with namespaces := b.namespaces.insert key nb' } other otherName =
      if other = key then nb'.dynamic.get? otherName else b.dynamicOf other otherName := by
  unfold dynamicOf
  dsimp only
  rw [NameMap.get?_insert]
  split
  · rfl
  · rfl

/-- What finding a bucket comes to: a bucket that was there, and no change, or a dynamic bucket
that lives afterwards. -/
theorem find_cases (b : Container) (key name : String) (r : Roster) :
    (¬b.GivesDynamic key name ∧ (b.find key name r).1 = b.staticOf key name ∧
      (b.find key name r).2.1 = b) ∨
    (b.GivesDynamic key name ∧ ∃ x, (b.find key name r).1 = some x ∧
      (b.find key name r).2.1.dynamicOf key name = some x ∧
      ∀ k n, (k, n) ≠ (key, name) → (b.find key name r).2.1.dynamicOf k n = b.dynamicOf k n) := by
  unfold find
  cases hnb : b.namespaces.get? key with
  | none =>
      refine .inl ⟨?_, ?_, rfl⟩
      · rintro ⟨nb, hnb', -⟩
        rw [hnb] at hnb'
        cases hnb'
      · rw [staticOf, hnb]
  | some nb =>
      have hgives : b.GivesDynamic key name ↔ nb.GivesDynamic name := by
        simp [GivesDynamic, hnb]
      have hstatic : b.staticOf key name =
          (nb.named.get? name).or (nb.fallback.or b.globalDefault) := by
        rw [staticOf, hnb]
      dsimp only
      cases hnamed : nb.named.get? name with
      | some x =>
          refine .inl ⟨fun h => ?_, ?_, rfl⟩
          · have hnone := (hgives.mp h).1
            rw [hnamed] at hnone
            cases hnone
          · rw [hstatic, hnamed]
            rfl
      | none =>
          dsimp only
          rcases nb.findDynamic_cases key name r hnamed with ⟨hnot, hfind⟩ |
            ⟨hdynamic, x, nb', r', hfind, hlives, hothers⟩
          · rw [hfind]
            refine .inl ⟨fun h => hnot (hgives.mp h), ?_, rfl⟩
            rw [hstatic, hnamed]
            rfl
          · rw [hfind]
            refine .inr ⟨hgives.mpr hdynamic, x, rfl, ?_, ?_⟩
            · rw [dynamicOf_insert, if_pos rfl, hlives]
            · intro k n hne
              rw [dynamicOf_insert]
              split
              · rename_i heq
                subst heq
                rw [hothers n fun heq => hne (by rw [heq]), dynamicOf, hnb]
                rfl
              · rfl

theorem SameStatic.symm (h : b.SameStatic b') : b'.SameStatic b :=
  ⟨fun key => (h.namespaces key).symm, h.globalDefault.symm⟩

/-- A namespace of two containers that are the same but for dynamic buckets. -/
theorem SameStatic.namespace (h : b.SameStatic b') {nb' : NamespaceBuckets}
    (hnb' : b'.namespaces.get? key = some nb') :
    ∃ nb, b.namespaces.get? key = some nb ∧ nb.config = nb'.config ∧ nb.named = nb'.named := by
  have hkey := h.namespaces key
  rw [hnb'] at hkey
  obtain ⟨nb, hnb, hstatic⟩ := Option.map_eq_some_iff.mp hkey.symm
  exact ⟨nb, hnb, congrArg Prod.fst hstatic, congrArg (fun s => s.2.1) hstatic⟩

theorem SameStatic.staticOf_eq (h : b.SameStatic b') (key name : String) :
    b'.staticOf key name = b.staticOf key name := by
  have hkey := h.namespaces key
  unfold staticOf
  cases hnb : b.namespaces.get? key with
  | none =>
      rw [hnb] at hkey
      rw [Option.map_eq_none_iff.mp hkey]
      exact h.globalDefault
  | some nb =>
      rw [hnb] at hkey
      obtain ⟨nb', hnb', hstatic⟩ := Option.map_eq_some_iff.mp hkey
      obtain ⟨-, hrest⟩ := Prod.mk.inj hstatic
      obtain ⟨hnamed, hfallback⟩ := Prod.mk.inj hrest
      rw [hnb']
      dsimp only
      rw [hnamed, hfallback, h.globalDefault]

theorem terms_of_dynamicOf {x : Bucket} (hserves : b.Serves c)
    (h : b.dynamicOf key name = some x) : x.ns = key ∧ x.name = name := by
  obtain ⟨nb, hnb, hx⟩ := Option.bind_eq_some_iff.mp h
  obtain ⟨nc, -, hserved⟩ := hserves.namespace hnb
  obtain ⟨t, -, hterms⟩ := Option.map_eq_some_iff.mp (hserved.dynamic name x hx)
  exact ⟨(congrArg (fun t => t.1) hterms).symm, (congrArg (fun t => t.2.1) hterms).symm⟩

end Container

/-- No namespace with a template limits the number of its dynamic buckets. -/
def ServiceConfig.Unlimited (c : ServiceConfig) : Prop :=
  ∀ key nc, c.namespaces.get? key = some nc → nc.template ≠ none → nc.maxDynamic = 0

namespace Container

variable {c : ServiceConfig} {b b' : Container} {key name : String} {r r' : Roster}
  {i : String × String} {x : Bucket}

/-- The second container has the buckets of the first, but of the dynamic ones only that of one
identity. -/
structure Echoes (i : String × String) (b b' : Container) : Prop where
  static : b.SameStatic b'
  noOthers : ∀ key name, (key, name) ≠ i → b'.dynamicOf key name = none
  same : (b'.dynamicOf i.1 i.2).map Bucket.terms = (b.dynamicOf i.1 i.2).map Bucket.terms

/-- The bucket of another identity is only looked for in the first container. -/
theorem Echoes.find_other (h : Echoes i b b') (hserves : b.Serves c)
    (hother : ∀ x, (b.find key name r).1 = some x → (x.ns, x.name) ≠ i) :
    Echoes i (b.find key name r).2.1 b' := by
  have hstatic := (follows_find b key name r).static
  refine ⟨hstatic.symm.trans h.static, h.noOthers, ?_⟩
  rcases b.find_cases key name r with ⟨-, -, hsame⟩ | ⟨-, x, hfound, hlives, hothers⟩
  · rw [hsame]
    exact h.same
  · obtain ⟨hns, hname⟩ :=
      terms_of_dynamicOf ((follows_find b key name r).serves c hserves) hlives
    have hne := hother x hfound
    rw [hns, hname] at hne
    rw [hothers i.1 i.2 (Ne.symm hne)]
    exact h.same

/-- A bucket that is found under a name which stands for no bucket of its own, dynamic or not, is a
default. -/
theorem name_of_staticOf {nb : NamespaceBuckets} (hserves : b.Serves c)
    (hnb : b.namespaces.get? key = some nb) (hnamed : nb.named.get? name = none)
    (hx : b.staticOf key name = some x) : x.name = defaultBucketName := by
  have hglobal : b.globalDefault = some x → x.name = defaultBucketName := by
    intro hfound
    obtain ⟨-, -, -, hname⟩ := Bucket.names_of_terms hserves.globalDefault hfound
    exact hname
  rw [staticOf, hnb] at hx
  dsimp only at hx
  rw [hnamed, Option.none_or] at hx
  rcases Option.or_eq_some_iff.mp hx with hfallback | ⟨-, hdefault⟩
  · obtain ⟨nc, -, hserved⟩ := hserves.namespace hnb
    obtain ⟨-, -, -, hname⟩ := Bucket.names_of_terms hserved.fallback hfallback
    exact hname
  · exact hglobal hdefault

theorem Echoes.givesDynamic (h : Echoes i b b') (hgives : b.GivesDynamic key name)
    (hi : (key, name) = i) : b'.GivesDynamic key name := by
  subst hi
  obtain ⟨nb, hnb, hnamed, htemplate, hdynamic⟩ := hgives
  obtain ⟨nb', hnb', hconfig, hnames⟩ := h.static.symm.namespace hnb
  refine ⟨nb', hnb', by rwa [hnames], by rwa [hconfig], ?_⟩
  have hsame := h.same
  simp only [dynamicOf, hnb, hnb', Option.bind_some] at hsame
  by_cases hlives : nb.dynamic.get? name = none
  · -- There is room for a first dynamic bucket if there was room for any.
    right
    obtain ⟨-, hname, hroom⟩ := NamespaceBuckets.templateFor?_ne_none_iff.mp
      (hdynamic.resolve_left (fun hne => hne hlives))
    rw [hlives, Option.map_none, Option.map_eq_none_iff] at hsame
    have hempty : nb'.dynamic = ∅ := by
      refine NameMap.ext_get? fun other value => ?_
      have hnone : nb'.dynamic.get? other = none := by
        by_cases heq : other = name
        · rw [heq, hsame]
        · have hother := h.noOthers key other fun hpair => heq (Prod.mk.inj hpair).2
          rwa [dynamicOf, hnb', Option.bind_some] at hother
      rw [hnone]
      exact ⟨nofun, nofun⟩
    refine NamespaceBuckets.templateFor?_ne_none_iff.mpr ⟨by rwa [hconfig], hname, ?_⟩
    rw [NamespaceBuckets.hasRoom, Bool.or_eq_true, decide_eq_true_eq] at hroom ⊢
    rw [hconfig, hempty]
    exact hroom.imp_right fun hsize => Nat.lt_of_le_of_lt (Nat.zero_le _) hsize
  · left
    intro hnone
    rw [hnone, Option.map_none] at hsame
    exact hlives (Option.map_eq_none_iff.mp hsame.symm)

/-- Where a name falls to a default bucket in the first container, it does so in the second one,
unless there was no room for a dynamic bucket of that name. -/
theorem Echoes.not_givesDynamic (h : Echoes i b b') (hserves : b.Serves c)
    (hlimit : i.2 ≠ defaultBucketName ∨ c.Unlimited) (hnot : ¬b.GivesDynamic key name)
    (hx : b.staticOf key name = some x) (hi : (x.ns, x.name) = i) :
    ¬b'.GivesDynamic key name := by
  rintro ⟨nb', hnb', hnamed', htemplate', hdynamic'⟩
  obtain ⟨nb, hnb, hconfig, hnames⟩ := h.static.namespace hnb'
  have hnamed : nb.named.get? name = none := by rwa [hnames]
  have htemplate : nb.config.template ≠ none := by rwa [hconfig]
  have hdefault : i.2 = defaultBucketName := by
    rw [← hi]
    exact name_of_staticOf hserves hnb hnamed hx
  have hnotLives : nb.dynamic.get? name = none := by
    by_contra hlives
    exact hnot ⟨nb, hnb, hnamed, htemplate, .inl hlives⟩
  rcases hdynamic' with hlives' | hfor'
  · by_cases hpair : (key, name) = i
    · subst hpair
      have hsame := h.same
      simp only [dynamicOf, hnb, hnb', Option.bind_some, hnotLives, Option.map_none] at hsame
      exact hlives' (Option.map_eq_none_iff.mp hsame)
    · have hother := h.noOthers key name hpair
      rw [dynamicOf, hnb', Option.bind_some] at hother
      exact hlives' hother
  · obtain ⟨-, hname, -⟩ := NamespaceBuckets.templateFor?_ne_none_iff.mp hfor'
    have hunlimited := hlimit.resolve_left fun hne => hne hdefault
    refine hnot ⟨nb, hnb, hnamed, htemplate, .inr ?_⟩
    refine NamespaceBuckets.templateFor?_ne_none_iff.mpr ⟨htemplate, hname, ?_⟩
    obtain ⟨nc, hns, hserved⟩ := hserves.namespace hnb
    rw [hserved.config] at htemplate
    rw [NamespaceBuckets.hasRoom, hserved.config, hunlimited key nc hns htemplate]
    rfl

/-- The bucket in question is found in both containers. -/
theorem Echoes.find_mine (h : Echoes i b b') (hcheck : c.check = .ok ()) (hserves : b.Serves c)
    (hserves' : b'.Serves c) (hlawful : b.Lawful) (hlawful' : b'.Lawful)
    (hlimit : i.2 ≠ defaultBucketName ∨ c.Unlimited) (hx : (b.find key name r).1 = some x)
    (hi : (x.ns, x.name) = i) (r' : Roster) :
    ∃ x', (b'.find key name r').1 = some x' ∧ x'.terms = x.terms ∧
      Echoes i (b.find key name r).2.1 (b'.find key name r').2.1 := by
  rcases b.find_cases key name r with ⟨hnot, hfind, hsame⟩ | ⟨hgives, y, hfind, hlives, hothers⟩
  · -- The name stands for the same bucket, which both containers had from the beginning.
    rw [hx] at hfind
    have hnot' := h.not_givesDynamic hserves hlimit hnot hfind.symm hi
    rcases b'.find_cases key name r' with ⟨-, hfind', hsame'⟩ | ⟨hgives', -⟩
    · rw [hsame, hsame']
      refine ⟨x, ?_, rfl, h⟩
      rw [hfind', h.static.staticOf_eq, ← hfind]
    · exact absurd hgives' hnot'
  · -- The name stands for the dynamic bucket of that name in both.
    rw [hx, Option.some.injEq] at hfind
    subst hfind
    have hafter := (follows_find b key name r).serves c hserves
    have hpair : (key, name) = i := by
      obtain ⟨hns, hname⟩ := terms_of_dynamicOf hafter hlives
      rw [← hi, hns, hname]
    rcases b'.find_cases key name r' with ⟨hnot', -⟩ | ⟨-, x', hfind', hlives', hothers'⟩
    · exact absurd (h.givesDynamic hgives hpair) hnot'
    · have hafter' := (follows_find b' key name r').serves c hserves'
      have hterms : x'.terms = x.terms := by
        have hoffers := offers_of_find hserves hlawful hx
        have hoffers' := offers_of_find hserves' hlawful' hfind'
        obtain ⟨hns, hname⟩ := terms_of_dynamicOf hafter hlives
        obtain ⟨hns', hname'⟩ := terms_of_dynamicOf hafter' hlives'
        unfold Bucket.terms at hoffers hoffers' ⊢
        rw [hns, hname] at hoffers ⊢
        rw [hns', hname'] at hoffers' ⊢
        obtain ⟨hconfig, hdynamic⟩ := ServiceConfig.offers_unique hcheck hoffers' hoffers
        rw [hconfig, hdynamic]
      refine ⟨x', hfind', hterms, ?_, ?_, ?_⟩
      · exact ((follows_find b key name r).static.symm.trans h.static).trans
          (follows_find b' key name r').static
      · intro k n hne
        rw [hothers' k n (by rwa [hpair]), h.noOthers k n hne]
      · subst hpair
        rw [hlives, hlives', Option.map_some, Option.map_some, hterms]

end Container

end TokenQuota
