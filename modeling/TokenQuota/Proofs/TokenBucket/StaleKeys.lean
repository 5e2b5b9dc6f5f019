import TokenQuota.Config.Validity
import TokenQuota.Proofs.TokenBucket.Evaluation
import TokenQuota.TokenBucket.Stale

/-!
Which keys belong to which bucket, and which buckets a configuration accounts for. A key is stale
exactly if it belongs to a bucket that the configuration does not account for.
-/

namespace TokenQuota

namespace StateKey

theorem splitFirst?_eq_some_iff {cs before after : List Char} :
    splitFirst? cs = some (before, after) ↔ cs = before ++ ':' :: after ∧ ':' ∉ before := by
  induction cs generalizing before with
  | nil => simp [splitFirst?]
  | cons c rest ih =>
      rw [splitFirst?]
      split
      · rename_i hc
        subst hc
        cases before with
        | nil => simp [separator, eq_comm]
        | cons d before =>
            simp only [separator, List.cons_append, List.cons.injEq, List.mem_cons]
            grind
      · rename_i hc
        have hne : ¬c = ':' := hc
        cases before with
        | nil => simp [hne]
        | cons d before =>
            simp only [Option.map_eq_some_iff, Prod.exists, List.cons_append, List.cons.injEq,
              List.mem_cons, Prod.mk.injEq]
            grind

theorem splitLast?_eq_none_iff {cs : List Char} : splitLast? cs = none ↔ ':' ∉ cs := by
  induction cs with
  | nil => simp [splitLast?]
  | cons c rest ih =>
      rw [splitLast?]
      cases hrest : splitLast? rest with
      | none =>
          have hnot : ':' ∉ rest := ih.mp hrest
          by_cases hc : c = ':' <;> simp [separator, hc, hnot, eq_comm]
      | some parts =>
          have hmem : ':' ∈ rest := by
            by_contra hnot
            rw [ih.mpr hnot] at hrest
            cases hrest
          simp [hmem]

theorem splitLast?_eq_some_iff {cs before after : List Char} :
    splitLast? cs = some (before, after) ↔ cs = before ++ ':' :: after ∧ ':' ∉ after := by
  induction cs generalizing before after with
  | nil => simp [splitLast?]
  | cons c rest ih =>
      rw [splitLast?]
      cases hrest : splitLast? rest with
      | none =>
          have hnot : ':' ∉ rest := splitLast?_eq_none_iff.mp hrest
          cases before with
          | nil =>
              simp only [separator]
              grind
          | cons d before =>
              simp only [separator]
              grind
      | some parts =>
          obtain ⟨first, last⟩ := parts
          rw [hrest] at ih
          cases before with
          | nil =>
              have hmem : ':' ∈ rest := by
                rw [(ih.mp rfl).1]
                simp
              simp only [Option.some.injEq, Prod.mk.injEq, List.nil_append, List.cons.injEq]
              grind
          | cons d before =>
              simp only [Option.some.injEq, Prod.mk.injEq, List.cons_append, List.cons.injEq]
              grind

/-- The key is that of a cell of the bucket. -/
def Names (ns bucket key : String) : Prop :=
  ':' ∉ ns.toList ∧
    (key = (CellKeys.of ns bucket).nextAvailable ∨ key = (CellKeys.of ns bucket).accumulated)

theorem isMark_iff {mark : List Char} :
    isMark mark = true ↔ mark = nextAvailableMark.toList ∨ mark = accumulatedMark.toList := by
  simp [isMark]

theorem notMem_of_isMark {mark : List Char} (h : isMark mark = true) : ':' ∉ mark := by
  rcases isMark_iff.mp h with rfl | rfl <;> decide

theorem names_iff {ns bucket key : String} : Names ns bucket key ↔
    ':' ∉ ns.toList ∧ ∃ mark, isMark mark = true ∧
      key.toList = (ns.toList ++ ':' :: bucket.toList) ++ ':' :: mark := by
  have hkey (mark : String) : key = join ns bucket mark ↔
      key.toList = (ns.toList ++ ':' :: bucket.toList) ++ ':' :: mark.toList := by
    rw [← String.toList_inj, toList_join]
    simp
  simp [Names, CellKeys.of, hkey, isMark_iff, or_and_right, exists_or]

theorem owner?_eq_some_iff {ns bucket key : String} :
    owner? key = some (ns, bucket) ↔ Names ns bucket key := by
  rw [names_iff]
  constructor
  · intro h
    unfold owner? at h
    split at h
    · rename_i before mark hlast
      split at h
      · rename_i hmark
        obtain ⟨⟨first, second⟩, hfirst, heq⟩ := Option.map_eq_some_iff.mp h
        obtain ⟨rfl, rfl⟩ := Prod.mk.inj heq
        obtain ⟨hkey, -⟩ := splitLast?_eq_some_iff.mp hlast
        obtain ⟨rfl, hnot⟩ := splitFirst?_eq_some_iff.mp hfirst
        exact ⟨by simpa using hnot, mark, hmark, by simpa using hkey⟩
      · cases h
    · cases h
  · rintro ⟨hns, mark, hmark, hkey⟩
    rw [owner?, splitLast?_eq_some_iff.mpr ⟨hkey, notMem_of_isMark hmark⟩]
    simp [hmark, splitFirst?_eq_some_iff.mpr ⟨rfl, hns⟩]

theorem isStateKey_of_names {ns bucket key : String} (h : Names ns bucket key) :
    isStateKey key = true := by
  obtain ⟨-, mark, hmark, hkey⟩ := names_iff.mp h
  rw [isStateKey, splitLast?_eq_some_iff.mpr ⟨hkey, notMem_of_isMark hmark⟩]
  simp [hmark, separator]

end StateKey

namespace ServiceConfig

/-- The configuration accounts for the state of a bucket: by its name, by a template that it may
come from, as the default of its namespace, or as the global default. -/
inductive Accounts (c : ServiceConfig) : String → String → Prop
  | named {ns bucket : String} {nc : NamespaceConfig} {b : BucketConfig}
      (hns : c.namespaces.get? ns = some nc) (hbucket : nc.buckets.get? bucket = some b) :
      Accounts c ns bucket
  | template {ns bucket : String} {nc : NamespaceConfig} {t : BucketConfig}
      (hns : c.namespaces.get? ns = some nc) (htemplate : nc.template = some t) :
      Accounts c ns bucket
  | fallback {ns : String} {nc : NamespaceConfig} {b : BucketConfig}
      (hns : c.namespaces.get? ns = some nc) (hdefault : nc.defaultBucket = some b) :
      Accounts c ns defaultBucketName
  | globalDefault {b : BucketConfig} (hdefault : c.globalDefault = some b) :
      Accounts c globalNamespace defaultBucketName

/-- The key is that of a bucket that the configuration does not account for. -/
def Abandons (c : ServiceConfig) (key : String) : Prop :=
  ∃ ns bucket, StateKey.Names ns bucket key ∧ ¬c.Accounts ns bucket

variable {c : ServiceConfig} {ns bucket : String}

theorem mayBeDynamic_iff : c.mayBeDynamic ns = true ↔
    ∃ nc t, c.namespaces.get? ns = some nc ∧ nc.template = some t := by
  unfold mayBeDynamic
  cases c.namespaces.get? ns with
  | none => simp
  | some nc => simp [Option.isSome_iff_exists]

theorem accountsFor_iff : c.accountsFor ns bucket = true ↔
    (∃ b, c.globalDefault = some b ∧ ns = globalNamespace ∧ bucket = defaultBucketName) ∨
      ∃ nc, c.namespaces.get? ns = some nc ∧ ((∃ b, nc.buckets.get? bucket = some b) ∨
        ∃ b, nc.defaultBucket = some b ∧ bucket = defaultBucketName) := by
  unfold accountsFor
  cases c.namespaces.get? ns with
  | none => simp [Option.isSome_iff_exists, and_assoc]
  | some nc => simp [Option.isSome_iff_exists, NameMap.contains, and_assoc]

theorem accounts_iff :
    c.Accounts ns bucket ↔ c.mayBeDynamic ns = true ∨ c.accountsFor ns bucket = true := by
  rw [mayBeDynamic_iff, accountsFor_iff]
  constructor
  · rintro (⟨hns, hbucket⟩ | ⟨hns, htemplate⟩ | ⟨hns, hdefault⟩ | hdefault)
    · exact .inr (.inr ⟨_, hns, .inl ⟨_, hbucket⟩⟩)
    · exact .inl ⟨_, _, hns, htemplate⟩
    · exact .inr (.inr ⟨_, hns, .inr ⟨_, hdefault, rfl⟩⟩)
    · exact .inr (.inl ⟨_, hdefault, rfl, rfl⟩)
  · rintro (⟨nc, t, hns, htemplate⟩ | ⟨b, hdefault, rfl, rfl⟩ |
      ⟨nc, hns, ⟨b, hbucket⟩ | ⟨b, hdefault, rfl⟩⟩)
    · exact .template hns htemplate
    · exact .globalDefault hdefault
    · exact .named hns hbucket
    · exact .fallback hns hdefault

/-- The keys that are deleted are those of the buckets that are not accounted for. -/
theorem isStale_iff {key : String} : c.isStale key = true ↔ c.Abandons key := by
  unfold isStale Abandons
  constructor
  · intro h
    split at h
    · rename_i ns bucket howner
      refine ⟨ns, bucket, StateKey.owner?_eq_some_iff.mp howner, ?_⟩
      rw [accounts_iff]
      simpa using h
    · cases h
  · rintro ⟨ns, bucket, hnames, hnot⟩
    rw [StateKey.owner?_eq_some_iff.mpr hnames]
    rw [accounts_iff] at hnot
    simpa using hnot

theorem not_abandons_of_accounts {key : String} (haccounts : c.Accounts ns bucket)
    (hnames : StateKey.Names ns bucket key) : ¬c.Abandons key := by
  rintro ⟨ns', bucket', hnames', hnot⟩
  have howner := StateKey.owner?_eq_some_iff.mpr hnames
  rw [StateKey.owner?_eq_some_iff.mpr hnames'] at howner
  obtain ⟨rfl, rfl⟩ := Prod.mk.inj (Option.some.inj howner)
  exact hnot haccounts

end ServiceConfig

end TokenQuota
