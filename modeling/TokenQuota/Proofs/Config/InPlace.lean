import TokenQuota.Config.Format
import TokenQuota.Error
import TokenQuota.Proofs.NameMap

/-!
Editing a configuration in place, as a finite map of namespaces that are finite maps of buckets: an
edit changes the entry that it names and nothing else, or it is refused and changes nothing.
-/

namespace TokenQuota

/-- What an edit takes out of a configuration. -/
inductive Removed
  | nothing
  | ns (config : NamespaceConfig)
  | bucket (config : BucketConfig)
deriving DecidableEq

/-- Work on a configuration in place: what is changed before an error stays changed. -/
abbrev InPlace := EStateM EditError ServiceConfig

namespace InPlace

def namespaceOf (name : String) : InPlace NamespaceConfig := do
  match (← get).namespaces.get? name with
  | some ns => return ns
  | none => throw (.noNamespace name)

def putNamespace (name : String) (ns : NamespaceConfig) : InPlace Removed := do
  modify fun c => c.setNamespace name ns
  return .nothing

def takeNamespace (name : String) : InPlace Removed := do
  let ns ← namespaceOf name
  modify fun c => { c with namespaces := c.namespaces.erase name }
  return .ns ns

variable {c : ServiceConfig} {name : String}

theorem run_namespaceOf {ns : NamespaceConfig} (h : c.namespaces.get? name = some ns) :
    (namespaceOf name).run c = .ok ns c := by
  simp [namespaceOf, h]

theorem run_namespaceOf_absent (h : c.namespaces.get? name = none) :
    (namespaceOf name).run c = .error (.noNamespace name) c := by
  simp only [namespaceOf, EStateM.run_bind, EStateM.run_get, h]
  rfl

end InPlace

namespace Edit

open InPlace

def perform : Edit → InPlace Removed
  | .addNamespace ns => do
    if (← get).namespaces.contains ns.name then throw (.namespaceExists ns.name)
    else putNamespace ns.name ns
  | .updateNamespace ns => do
    let _ ← namespaceOf ns.name
    putNamespace ns.name ns
  | .deleteNamespace name => takeNamespace name
  | .addBucket name bucketName bucket => do
    let ns ← namespaceOf name
    if ns.buckets.contains bucketName then throw (.bucketExists name bucketName)
    else putNamespace name (ns.withBucket bucketName bucket)
  | .updateBucket name bucketName bucket => do
    let ns ← namespaceOf name
    if ns.buckets.contains bucketName then putNamespace name (ns.withBucket bucketName bucket)
    else throw (.noBucket name bucketName)
  | .deleteBucket name bucketName => do
    let ns ← namespaceOf name
    match ns.buckets.get? bucketName with
    | none => throw (.noBucket name bucketName)
    | some bucket =>
      let _ ← putNamespace name { ns with buckets := ns.buckets.erase bucketName }
      return .bucket bucket

/-- What an edit answers, and the configuration that it leaves. -/
def run (e : Edit) (c : ServiceConfig) : Except QuotaError Removed × ServiceConfig :=
  match e.perform.run c with
  | .ok out c => (.ok out, c)
  | .error err c => (.error (.ofEdit err), c)

/-- What an edit takes out, and the configuration afterwards, if it is possible. -/
def result (c : ServiceConfig) : Edit → Except EditError (Removed × ServiceConfig)
  | .addNamespace ns => (c.addNamespace ns).map fun c' => (.nothing, c')
  | .updateNamespace ns => (c.updateNamespace ns).map fun c' => (.nothing, c')
  | .deleteNamespace name => (c.deleteNamespace name).map fun r => (.ns r.1, r.2)
  | .addBucket ns name bucket => (c.addBucket ns name bucket).map fun c' => (.nothing, c')
  | .updateBucket ns name bucket => (c.updateBucket ns name bucket).map fun c' => (.nothing, c')
  | .deleteBucket ns name => (c.deleteBucket ns name).map fun r => (.bucket r.1, r.2)

theorem edit_eq_map_result (c : ServiceConfig) (e : Edit) :
    c.edit e = (e.result c).map Prod.snd := by
  have hnothing (x : Except EditError ServiceConfig) :
      x = (x.map fun c' => (Removed.nothing, c')).map Prod.snd := by
    cases x <;> rfl
  have htaken {α : Type} (x : Except EditError (α × ServiceConfig)) (f : α → Removed) :
      x.map Prod.snd = (x.map fun r => (f r.1, r.2)).map Prod.snd := by
    cases x <;> rfl
  cases e with
  | addNamespace ns | updateNamespace ns | addBucket ns name bucket
  | updateBucket ns name bucket => exact hnothing _
  | deleteNamespace name => exact htaken _ _
  | deleteBucket ns name => exact htaken _ _

/-- In place, an edit that is not possible leaves everything as it was. -/
theorem run_eq (e : Edit) (c : ServiceConfig) :
    e.run c = match e.result c with
      | .ok (out, c') => (.ok out, c')
      | .error err => (.error (.ofEdit err), c) := by
  cases e with
  | addNamespace ns =>
      unfold run result perform ServiceConfig.addNamespace
      simp only [EStateM.run_bind, EStateM.run_get]
      cases c.namespaces.contains ns.name <;> rfl
  | updateNamespace ns =>
      unfold run result perform ServiceConfig.updateNamespace NameMap.contains
      cases h : c.namespaces.get? ns.name with
      | none => simp only [EStateM.run_bind, run_namespaceOf_absent h, h]; rfl
      | some old => simp only [EStateM.run_bind, run_namespaceOf h, h]; rfl
  | deleteNamespace name =>
      unfold run result perform takeNamespace ServiceConfig.deleteNamespace
      cases h : c.namespaces.get? name with
      | none => simp only [EStateM.run_bind, run_namespaceOf_absent h, h]; rfl
      | some ns => simp only [EStateM.run_bind, run_namespaceOf h, h]; rfl
  | addBucket name bucketName bucket =>
      unfold run result perform ServiceConfig.addBucket
      cases h : c.namespaces.get? name with
      | none => simp only [EStateM.run_bind, run_namespaceOf_absent h, h]; rfl
      | some ns =>
          simp only [EStateM.run_bind, run_namespaceOf h, h]
          cases ns.buckets.contains bucketName <;> rfl
  | updateBucket name bucketName bucket =>
      unfold run result perform ServiceConfig.updateBucket
      cases h : c.namespaces.get? name with
      | none => simp only [EStateM.run_bind, run_namespaceOf_absent h, h]; rfl
      | some ns =>
          simp only [EStateM.run_bind, run_namespaceOf h, h]
          cases ns.buckets.contains bucketName <;> rfl
  | deleteBucket name bucketName =>
      unfold run result perform ServiceConfig.deleteBucket
      cases h : c.namespaces.get? name with
      | none => simp only [EStateM.run_bind, run_namespaceOf_absent h, h]; rfl
      | some ns =>
          simp only [EStateM.run_bind, run_namespaceOf h, h]
          cases ns.buckets.get? bucketName <;> rfl

end Edit

/-! ### What an edit comes to -/

/-- Of a namespace only one bucket is another. -/
structure NamespaceConfig.ChangedAt (ns : NamespaceConfig) (bucketName : String)
    (bucket : Option BucketConfig) (ns' : NamespaceConfig) : Prop where
  name : ns'.name = ns.name
  defaultBucket : ns'.defaultBucket = ns.defaultBucket
  template : ns'.template = ns.template
  maxDynamic : ns'.maxDynamic = ns.maxDynamic
  entry : ns'.buckets.get? bucketName = bucket
  others : ∀ other, other ≠ bucketName → ns'.buckets.get? other = ns.buckets.get? other

/-- Of a configuration only one namespace is another. -/
structure ServiceConfig.ChangedAt (c : ServiceConfig) (name : String)
    (ns : Option NamespaceConfig) (c' : ServiceConfig) : Prop where
  version : c'.version = c.version
  date : c'.date = c.date
  user : c'.user = c.user
  globalDefault : c'.globalDefault = c.globalDefault
  entry : c'.namespaces.get? name = ns
  others : ∀ other, other ≠ name → c'.namespaces.get? other = c.namespaces.get? other

namespace Edit

/-- The edit takes something out of the configuration, if anything, and leaves another one. -/
inductive Effects (c : ServiceConfig) : Edit → Removed → ServiceConfig → Prop
  | addNamespace {ns : NamespaceConfig} {c' : ServiceConfig}
      (hns : c.namespaces.get? ns.name = none) (hc : c.ChangedAt ns.name (some ns) c') :
      Effects c (.addNamespace ns) .nothing c'
  | updateNamespace {ns old : NamespaceConfig} {c' : ServiceConfig}
      (hns : c.namespaces.get? ns.name = some old) (hc : c.ChangedAt ns.name (some ns) c') :
      Effects c (.updateNamespace ns) .nothing c'
  | deleteNamespace {name : String} {ns : NamespaceConfig} {c' : ServiceConfig}
      (hns : c.namespaces.get? name = some ns) (hc : c.ChangedAt name none c') :
      Effects c (.deleteNamespace name) (.ns ns) c'
  | addBucket {name bucketName : String} {bucket : BucketConfig} {ns ns' : NamespaceConfig}
      {c' : ServiceConfig} (hns : c.namespaces.get? name = some ns)
      (hbucket : ns.buckets.get? bucketName = none)
      (hns' : ns.ChangedAt bucketName (some bucket) ns')
      (hc : c.ChangedAt name (some ns') c') :
      Effects c (.addBucket name bucketName bucket) .nothing c'
  | updateBucket {name bucketName : String} {bucket old : BucketConfig}
      {ns ns' : NamespaceConfig} {c' : ServiceConfig} (hns : c.namespaces.get? name = some ns)
      (hbucket : ns.buckets.get? bucketName = some old)
      (hns' : ns.ChangedAt bucketName (some bucket) ns')
      (hc : c.ChangedAt name (some ns') c') :
      Effects c (.updateBucket name bucketName bucket) .nothing c'
  | deleteBucket {name bucketName : String} {bucket : BucketConfig} {ns ns' : NamespaceConfig}
      {c' : ServiceConfig} (hns : c.namespaces.get? name = some ns)
      (hbucket : ns.buckets.get? bucketName = some bucket)
      (hns' : ns.ChangedAt bucketName none ns') (hc : c.ChangedAt name (some ns') c') :
      Effects c (.deleteBucket name bucketName) (.bucket bucket) c'

/-- The entry that an edit names: a namespace, or a bucket of one. -/
def place : Edit → String × Option String
  | .addNamespace ns | .updateNamespace ns => (ns.name, none)
  | .deleteNamespace name => (name, none)
  | .addBucket ns name _ | .updateBucket ns name _ | .deleteBucket ns name => (ns, some name)

def adds : Edit → Bool
  | .addNamespace _ | .addBucket .. => true
  | _ => false

/-- The edit is not possible, for the reason that the error gives. -/
inductive Refuses (c : ServiceConfig) (e : Edit) : QuotaError → Prop
  | namespaceExists {name : String} (hplace : e.place = (name, none)) (hadds : e.adds = true)
      (hns : c.namespaces.get? name ≠ none) :
      Refuses c e (.alreadyExists s!"Namespace {name}")
  | bucketExists {name bucketName : String} {ns : NamespaceConfig}
      (hplace : e.place = (name, some bucketName)) (hadds : e.adds = true)
      (hns : c.namespaces.get? name = some ns) (hbucket : ns.buckets.get? bucketName ≠ none) :
      Refuses c e (.alreadyExists s!"Bucket {name}:{bucketName}")
  | noNamespace {name : String} {bucketName : Option String}
      (hplace : e.place = (name, bucketName)) (hadds : bucketName = none → e.adds = false)
      (hns : c.namespaces.get? name = none) : Refuses c e (.noSuchNamespace name)
  | noBucket {name bucketName : String} {ns : NamespaceConfig}
      (hplace : e.place = (name, some bucketName)) (hadds : e.adds = false)
      (hns : c.namespaces.get? name = some ns) (hbucket : ns.buckets.get? bucketName = none) :
      Refuses c e (.noSuchBucket name bucketName)

/-- What the edit names is there, or for an addition it is not. -/
def Applies (c : ServiceConfig) (e : Edit) : Prop :=
  match e.place with
  | (name, none) => (c.namespaces.get? name).isSome = !e.adds
  | (name, some bucketName) =>
    ∃ ns, c.namespaces.get? name = some ns ∧ (ns.buckets.get? bucketName).isSome = !e.adds

end Edit

theorem NamespaceConfig.changedAt_withBucket (ns : NamespaceConfig) (name : String)
    (bucket : BucketConfig) : ns.ChangedAt name (some bucket) (ns.withBucket name bucket) :=
  ⟨rfl, rfl, rfl, rfl, ns.buckets.get?_insert_self name bucket,
    fun _ hne => ns.buckets.get?_insert_of_ne hne bucket⟩

theorem NamespaceConfig.changedAt_erase (ns : NamespaceConfig) (name : String) :
    ns.ChangedAt name none { ns with buckets := ns.buckets.erase name } :=
  ⟨rfl, rfl, rfl, rfl, ns.buckets.get?_erase_self name,
    fun _ hne => ns.buckets.get?_erase_of_ne hne⟩

namespace ServiceConfig

theorem changedAt_setNamespace (c : ServiceConfig) (name : String) (ns : NamespaceConfig) :
    c.ChangedAt name (some ns) (c.setNamespace name ns) :=
  ⟨rfl, rfl, rfl, rfl, c.namespaces.get?_insert_self name ns,
    fun _ hne => c.namespaces.get?_insert_of_ne hne ns⟩

theorem changedAt_erase (c : ServiceConfig) (name : String) :
    c.ChangedAt name none { c with namespaces := c.namespaces.erase name } :=
  ⟨rfl, rfl, rfl, rfl, c.namespaces.get?_erase_self name,
    fun _ hne => c.namespaces.get?_erase_of_ne hne⟩

end ServiceConfig

namespace Edit

variable {c c' : ServiceConfig} {e : Edit}

theorem refuses_of_absent {name : String} {bucketName : Option String}
    (hplace : e.place = (name, bucketName)) (hadds : bucketName = none → e.adds = false)
    (hns : c.namespaces.get? name = none) :
    ∃ err, e.result c = .error err ∧ e.Refuses c (.ofEdit err) := by
  refine ⟨.noNamespace name, ?_, .noNamespace hplace hadds hns⟩
  cases e with
  | addNamespace ns =>
      cases hplace
      cases hadds rfl
  | updateNamespace ns =>
      cases hplace
      simp [result, ServiceConfig.updateNamespace, NameMap.contains, hns, Except.map]
  | deleteNamespace name =>
      cases hplace
      simp [result, ServiceConfig.deleteNamespace, hns, Except.map]
  | addBucket ns name bucket =>
      cases hplace
      simp [result, ServiceConfig.addBucket, hns, Except.map]
  | updateBucket ns name bucket =>
      cases hplace
      simp [result, ServiceConfig.updateBucket, hns, Except.map]
  | deleteBucket ns name =>
      cases hplace
      simp [result, ServiceConfig.deleteBucket, hns, Except.map]

/-- An edit has its effect, or there is a reason why it is not possible. -/
theorem result_cases (e : Edit) (c : ServiceConfig) :
    (∃ out c', e.result c = .ok (out, c') ∧ e.Effects c out c') ∨
      ∃ err, e.result c = .error err ∧ e.Refuses c (.ofEdit err) := by
  cases e with
  | addNamespace ns =>
      cases hns : c.namespaces.get? ns.name with
      | none =>
          refine .inl ⟨.nothing, c.setNamespace ns.name ns, ?_, ?_⟩
          · simp [result, ServiceConfig.addNamespace, NameMap.contains, hns, Except.map,
              ServiceConfig.setNamespace]
          · exact .addNamespace hns (c.changedAt_setNamespace ns.name ns)
      | some old =>
          refine .inr ⟨.namespaceExists ns.name, ?_, ?_⟩
          · simp [result, ServiceConfig.addNamespace, NameMap.contains, hns, Except.map]
          · exact .namespaceExists rfl rfl (by simp [hns])
  | updateNamespace ns =>
      cases hns : c.namespaces.get? ns.name with
      | none => exact .inr (refuses_of_absent rfl (fun _ => rfl) hns)
      | some old =>
          refine .inl ⟨.nothing, c.setNamespace ns.name ns, ?_, ?_⟩
          · simp [result, ServiceConfig.updateNamespace, NameMap.contains, hns, Except.map,
              ServiceConfig.setNamespace]
          · exact .updateNamespace hns (c.changedAt_setNamespace ns.name ns)
  | deleteNamespace name =>
      cases hns : c.namespaces.get? name with
      | none => exact .inr (refuses_of_absent rfl (fun _ => rfl) hns)
      | some ns =>
          refine .inl ⟨.ns ns, _, ?_, .deleteNamespace hns (c.changedAt_erase name)⟩
          simp [result, ServiceConfig.deleteNamespace, hns, Except.map]
  | addBucket name bucketName bucket =>
      cases hns : c.namespaces.get? name with
      | none => exact .inr (refuses_of_absent rfl (fun h => nomatch h) hns)
      | some ns =>
          cases hbucket : ns.buckets.get? bucketName with
          | none =>
              refine .inl ⟨.nothing, c.setNamespace name (ns.withBucket bucketName bucket), ?_, ?_⟩
              · simp [result, ServiceConfig.addBucket, NameMap.contains, hns, hbucket, Except.map]
              · exact .addBucket hns hbucket (ns.changedAt_withBucket bucketName bucket)
                  (c.changedAt_setNamespace name _)
          | some old =>
              refine .inr ⟨.bucketExists name bucketName, ?_, ?_⟩
              · simp [result, ServiceConfig.addBucket, NameMap.contains, hns, hbucket, Except.map]
              · exact .bucketExists rfl rfl hns (by simp [hbucket])
  | updateBucket name bucketName bucket =>
      cases hns : c.namespaces.get? name with
      | none => exact .inr (refuses_of_absent rfl (fun h => nomatch h) hns)
      | some ns =>
          cases hbucket : ns.buckets.get? bucketName with
          | none =>
              refine .inr ⟨.noBucket name bucketName, ?_, ?_⟩
              · simp [result, ServiceConfig.updateBucket, NameMap.contains, hns, hbucket,
                  Except.map]
              · exact .noBucket rfl rfl hns hbucket
          | some old =>
              refine .inl ⟨.nothing, c.setNamespace name (ns.withBucket bucketName bucket), ?_, ?_⟩
              · simp [result, ServiceConfig.updateBucket, NameMap.contains, hns, hbucket,
                  Except.map]
              · exact .updateBucket hns hbucket (ns.changedAt_withBucket bucketName bucket)
                  (c.changedAt_setNamespace name _)
  | deleteBucket name bucketName =>
      cases hns : c.namespaces.get? name with
      | none => exact .inr (refuses_of_absent rfl (fun h => nomatch h) hns)
      | some ns =>
          cases hbucket : ns.buckets.get? bucketName with
          | none =>
              refine .inr ⟨.noBucket name bucketName, ?_, ?_⟩
              · simp [result, ServiceConfig.deleteBucket, hns, hbucket, Except.map]
              · exact .noBucket rfl rfl hns hbucket
          | some bucket =>
              refine .inl ⟨.bucket bucket, _, ?_, .deleteBucket hns hbucket
                (ns.changedAt_erase bucketName) (c.changedAt_setNamespace name _)⟩
              simp [result, ServiceConfig.deleteBucket, hns, hbucket, Except.map]

theorem run_cases (e : Edit) (c : ServiceConfig) :
    (∃ out c', e.run c = (.ok out, c') ∧ e.Effects c out c') ∨
      ∃ err, e.run c = (.error err, c) ∧ e.Refuses c err := by
  rw [run_eq]
  rcases result_cases e c with ⟨out, c', hresult, heffects⟩ | ⟨err, hresult, hrefuses⟩
  · rw [hresult]
    exact .inl ⟨out, c', rfl, heffects⟩
  · rw [hresult]
    exact .inr ⟨.ofEdit err, rfl, hrefuses⟩

theorem Effects.applies {out : Removed} (h : e.Effects c out c') : e.Applies c := by
  cases h with
  | addNamespace hns => simp [Applies, place, adds, hns]
  | updateNamespace hns | deleteNamespace hns => simp [Applies, place, adds, hns]
  | addBucket hns hbucket | updateBucket hns hbucket | deleteBucket hns hbucket =>
      exact ⟨_, hns, by simp [adds, hbucket]⟩

theorem Refuses.not_applies {err : QuotaError} (h : e.Refuses c err) : ¬e.Applies c := by
  intro happlies
  unfold Applies at happlies
  cases h with
  | namespaceExists hplace hadds hns =>
      rw [hplace] at happlies
      simp [hadds, hns] at happlies
  | bucketExists hplace hadds hns hbucket =>
      rw [hplace] at happlies
      obtain ⟨ns', hns', hpresent⟩ := happlies
      rw [hns] at hns'
      cases hns'
      simp [hadds, hbucket] at hpresent
  | @noNamespace name bucketName hplace hadds hns =>
      rw [hplace] at happlies
      cases bucketName with
      | none => simp [hns, hadds rfl] at happlies
      | some bucketName => simp [hns] at happlies
  | noBucket hplace hadds hns hbucket =>
      rw [hplace] at happlies
      obtain ⟨ns', hns', hpresent⟩ := happlies
      rw [hns] at hns'
      cases hns'
      simp [hadds, hbucket] at hpresent

/-- There is one reason at most why an edit is not possible. -/
theorem Refuses.unique {err err' : QuotaError} (h : e.Refuses c err) (h' : e.Refuses c err') :
    err = err' := by
  cases h <;> cases h' <;> grind

end Edit

/-! ### Taking an edit back -/

theorem NamespaceConfig.ChangedAt.undo {ns ns' ns'' : NamespaceConfig} {name : String}
    {bucket : Option BucketConfig} (h : ns.ChangedAt name bucket ns')
    (h' : ns'.ChangedAt name (ns.buckets.get? name) ns'') : ns'' = ns := by
  have hbuckets : ns''.buckets = ns.buckets := by
    refine NameMap.ext_get? fun other value => ?_
    by_cases heq : other = name
    · rw [heq, h'.entry]
    · rw [h'.others other heq, h.others other heq]
  obtain ⟨name'', defaultBucket'', template'', maxDynamic'', buckets''⟩ := ns''
  obtain ⟨hname, hdefault, htemplate, hmax, -, -⟩ := h
  obtain ⟨hname', hdefault', htemplate', hmax', -, -⟩ := h'
  cases ns
  simp_all

namespace ServiceConfig

theorem ChangedAt.undo {c c' c'' : ServiceConfig} {name : String} {ns : Option NamespaceConfig}
    (h : c.ChangedAt name ns c') (h' : c'.ChangedAt name (c.namespaces.get? name) c'') :
    c'' = c := by
  have hnamespaces : c''.namespaces = c.namespaces := by
    refine NameMap.ext_get? fun other value => ?_
    by_cases heq : other = name
    · rw [heq, h'.entry]
    · rw [h'.others other heq, h.others other heq]
  obtain ⟨version'', date'', user'', globalDefault'', namespaces''⟩ := c''
  obtain ⟨hversion, hdate, huser, hdefault, -, -⟩ := h
  obtain ⟨hversion', hdate', huser', hdefault', -, -⟩ := h'
  cases c
  simp_all

/-- Every namespace stands under its own name. -/
def Keyed (c : ServiceConfig) : Prop :=
  ∀ key ns, c.namespaces.get? key = some ns → ns.name = key

theorem Keyed.changedAt {c c' : ServiceConfig} {name : String} {ns : Option NamespaceConfig}
    (hkeyed : c.Keyed) (h : c.ChangedAt name ns c') (hns : ∀ n, ns = some n → n.name = name) :
    c'.Keyed := by
  intro key found hfound
  by_cases heq : key = name
  · subst heq
    exact hns found (h.entry.symm.trans hfound)
  · rw [h.others key heq] at hfound
    exact hkeyed key found hfound

end ServiceConfig

namespace Edit

variable {c c' : ServiceConfig} {e : Edit}

theorem Effects.keyed {out : Removed} (h : e.Effects c out c') (hkeyed : c.Keyed) :
    c'.Keyed := by
  cases h with
  | addNamespace hns hc | updateNamespace hns hc =>
      refine hkeyed.changedAt hc ?_
      rintro _ ⟨⟩
      rfl
  | deleteNamespace hns hc => exact hkeyed.changedAt hc nofun
  | addBucket hns hbucket hns' hc | updateBucket hns hbucket hns' hc
  | deleteBucket hns hbucket hns' hc =>
      refine hkeyed.changedAt hc ?_
      rintro _ ⟨⟩
      exact hns'.name.trans (hkeyed _ _ hns)

theorem run_of_applies (h : e.Applies c) :
    ∃ out c', e.run c = (.ok out, c') ∧ e.Effects c out c' := by
  rcases run_cases e c with ⟨out, c', hrun, heffects⟩ | ⟨err, -, hrefuses⟩
  · exact ⟨out, c', hrun, heffects⟩
  · exact absurd h hrefuses.not_applies

theorem delete_addNamespace {ns : NamespaceConfig} (h : (addNamespace ns).Applies c) :
    (deleteNamespace ns.name).run ((addNamespace ns).run c).2 = (.ok (.ns ns), c) := by
  obtain ⟨out, c', hrun, heffects⟩ := run_of_applies h
  rw [hrun]
  cases heffects with
  | addNamespace hns hc =>
      have happlies : (deleteNamespace ns.name).Applies c' := by
        simp [Applies, place, adds, hc.entry]
      obtain ⟨out', c'', hrun', heffects'⟩ := run_of_applies happlies
      rw [hrun']
      cases heffects' with
      | deleteNamespace hns' hc' =>
          rw [hc.entry] at hns'
          cases hns'
          have hsame : c'' = c := hc.undo (by rw [hns]; exact hc')
          rw [hsame]

theorem delete_addBucket {name bucketName : String} {bucket : BucketConfig}
    (h : (addBucket name bucketName bucket).Applies c) :
    (deleteBucket name bucketName).run ((addBucket name bucketName bucket).run c).2 =
      (.ok (.bucket bucket), c) := by
  obtain ⟨out, c', hrun, heffects⟩ := run_of_applies h
  rw [hrun]
  cases heffects with
  | addBucket hns hbucket hadded hc =>
      have happlies : (deleteBucket name bucketName).Applies c' :=
        ⟨_, hc.entry, by simp [adds, hadded.entry]⟩
      obtain ⟨out', c'', hrun', heffects'⟩ := run_of_applies happlies
      rw [hrun']
      cases heffects' with
      | deleteBucket hns' hbucket' htaken hc' =>
          rw [hc.entry] at hns'
          cases hns'
          rw [hadded.entry] at hbucket'
          cases hbucket'
          obtain rfl := hadded.undo (by rw [hbucket]; exact htaken)
          have hsame : c'' = c := hc.undo (by rw [hns]; exact hc')
          rw [hsame]

/-! ### Runs -/

/-- The configuration after edits, one after the other, of which some may not be possible. -/
def after (edits : List Edit) (c : ServiceConfig) : ServiceConfig :=
  edits.foldl (fun c e => (e.run c).2) c

theorem keyed_after {edits : List Edit} (h : c.Keyed) : (after edits c).Keyed := by
  induction edits generalizing c with
  | nil => exact h
  | cons e rest ih =>
      refine ih ?_
      dsimp only
      rcases run_cases e c with ⟨out, c', hrun, heffects⟩ | ⟨err, hrun, -⟩
      · rw [hrun]
        exact heffects.keyed h
      · rw [hrun]
        exact h

/-- After any edits, the next one does in place what it does to a copy. It succeeds exactly when
what it names is there, or for an addition is not, and then changes that entry only. One that is
refused changes nothing. What was added and is deleted again leaves the configuration as it was,
and namespaces stay under their names. -/
theorem editing_spec (c₀ : ServiceConfig) (edits : List Edit) :
    let c := after edits c₀
    (∀ e : Edit,
      (c.edit e = (e.result c).map Prod.snd ∧ e.run c = match e.result c with
        | .ok (out, c') => (.ok out, c')
        | .error err => (.error (.ofEdit err), c)) ∧
      ((∃ out, (e.run c).1 = .ok out) ↔ e.Applies c) ∧
      (∀ out, (e.run c).1 = .ok out → e.Effects c out (e.run c).2) ∧
      (∀ err, (e.run c).1 = .error err ↔ e.Refuses c err) ∧
      ∀ err, (e.run c).1 = .error err → (e.run c).2 = c ∧ (e.run c).2.write = c.write) ∧
    (∀ ns, (addNamespace ns).Applies c →
      (deleteNamespace ns.name).run ((addNamespace ns).run c).2 = (.ok (.ns ns), c)) ∧
    (∀ name bucketName bucket, (addBucket name bucketName bucket).Applies c →
      (deleteBucket name bucketName).run ((addBucket name bucketName bucket).run c).2 =
        (.ok (.bucket bucket), c)) ∧
    (c₀.Keyed → c.Keyed) := by
  intro c
  refine ⟨fun e => ⟨⟨edit_eq_map_result c e, run_eq e c⟩, ?_⟩, fun ns => delete_addNamespace,
    fun _ _ _ => delete_addBucket, keyed_after⟩
  rcases run_cases e c with ⟨out, c', hrun, heffects⟩ | ⟨err, hrun, hrefuses⟩
  · rw [hrun]
    refine ⟨⟨fun _ => heffects.applies, fun _ => ⟨out, rfl⟩⟩, ?_, fun err => ⟨nofun, ?_⟩, nofun⟩
    · rintro _ ⟨⟩
      exact heffects
    · exact fun hrefuses => absurd heffects.applies hrefuses.not_applies
  · rw [hrun]
    refine ⟨⟨?_, fun happlies => absurd happlies hrefuses.not_applies⟩, nofun, fun err' => ?_,
      fun _ _ => ⟨rfl, rfl⟩⟩
    · rintro ⟨out, ⟨⟩⟩
    · constructor
      · rintro ⟨⟩
        exact hrefuses
      · exact fun hrefuses' => congrArg Except.error (hrefuses.unique hrefuses')

/-- Adding a namespace a second time is refused, and a bucket comes and goes without a trace. -/
theorem editing_spec_orders :
    let orders := (NamespaceConfig.ofName "orders").withBucket "create" (.ofRate 10 20)
    let bucket : BucketConfig := .ofRate 1 1
    let c := after [.addNamespace orders, .deleteBucket "orders" "list"] .empty
    (addNamespace orders).Refuses c (.alreadyExists "Namespace orders") ∧
      ((addNamespace orders).run c).2 = c ∧
      (addBucket "orders" "list" bucket).Applies c ∧
      (deleteBucket "orders" "list").run ((addBucket "orders" "list" bucket).run c).2 =
        (.ok (.bucket bucket), c) ∧ c.Keyed := by
  intro orders bucket c
  obtain ⟨hall, -, hbucket, hkeyed⟩ := editing_spec .empty
    [.addNamespace orders, .deleteBucket "orders" "list"]
  obtain ⟨-, -, -, hrefuses, hsame⟩ := hall (.addNamespace orders)
  have hrefused : ((addNamespace orders).run c).1 = .error (.alreadyExists "Namespace orders") := by
    rfl
  have happlies : (addBucket "orders" "list" bucket).Applies c :=
    ⟨orders, by decide +kernel, by decide +kernel⟩
  exact ⟨(hrefuses _).mp hrefused, (hsame _ hrefused).1, happlies,
    hbucket "orders" "list" bucket happlies, hkeyed nofun⟩

end Edit

end TokenQuota
