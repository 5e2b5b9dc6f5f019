import TokenQuota.Config.Validity
import TokenQuota.Proofs.NameMap

/-! What is known of the parts of a configuration that is well formed. -/

namespace TokenQuota

theorem ok_of_bind_eq_ok {ε α β : Type} {x : Except ε α} {f : α → Except ε β} {b : β}
    (h : (x >>= f) = .ok b) : ∃ a, x = .ok a ∧ f a = .ok b := by
  cases x with
  | ok a => exact ⟨a, rfl, h⟩
  | error e => cases h

theorem ok_of_forM_eq_ok {ε α : Type} {f : α → Except ε Unit} {l : List α}
    (h : l.forM f = .ok ()) : ∀ a ∈ l, f a = .ok () := by
  induction l with
  | nil => simp
  | cons a rest ih =>
      obtain ⟨⟨⟩, ha, hrest⟩ := ok_of_bind_eq_ok (x := f a) h
      intro b hb
      rcases List.mem_cons.mp hb with rfl | hb
      · exact ha
      · exact ih hrest b hb

theorem isNameChar_of_checkName {kind : NameKind} {name : String}
    (h : checkName kind name = .ok ()) : ∀ ch ∈ name.toList, isNameChar ch = true := by
  unfold checkName at h
  split at h
  · cases h
  · rename_i hwell
    simp only [Bool.or_eq_true, Bool.not_eq_true', not_or, Bool.not_eq_false,
      List.all_eq_true] at hwell
    exact hwell.2

/-- A name never has the separator of state keys in it. -/
theorem separator_notMem_of_checkName {kind : NameKind} {name : String}
    (h : checkName kind name = .ok ()) : ':' ∉ name.toList := by
  intro hmem
  have hchar := isNameChar_of_checkName h ':' hmem
  revert hchar
  decide

namespace ServiceConfig

variable {c : ServiceConfig} {ns : String} {nc : NamespaceConfig}

theorem check_namespace (h : c.check = .ok ()) (hns : c.namespaces.get? ns = some nc) :
    nc.check ns = .ok () := by
  obtain ⟨⟨⟩, -, hall⟩ := ok_of_bind_eq_ok h
  exact ok_of_forM_eq_ok hall (ns, nc) (NameMap.get?_eq_some_iff.mp hns)

theorem checkName_namespace (h : c.check = .ok ()) (hns : c.namespaces.get? ns = some nc) :
    checkName .ns ns = .ok () := by
  have hcheck := check_namespace h hns
  unfold NamespaceConfig.check at hcheck
  dsimp only at hcheck
  split at hcheck
  · cases hcheck
  · obtain ⟨⟨⟩, hname, -⟩ := ok_of_bind_eq_ok hcheck
    exact hname

theorem checkName_bucket (h : c.check = .ok ()) (hns : c.namespaces.get? ns = some nc)
    {bucket : String} {b : BucketConfig} (hbucket : nc.buckets.get? bucket = some b) :
    checkName .bucket bucket = .ok () := by
  have hcheck := check_namespace h hns
  unfold NamespaceConfig.check at hcheck
  dsimp only at hcheck
  split at hcheck
  · cases hcheck
  · obtain ⟨⟨⟩, -, hdefault⟩ := ok_of_bind_eq_ok hcheck
    obtain ⟨⟨⟩, -, htemplate⟩ := ok_of_bind_eq_ok hdefault
    obtain ⟨⟨⟩, -, hall⟩ := ok_of_bind_eq_ok htemplate
    have hentry := ok_of_forM_eq_ok hall (bucket, b) (NameMap.get?_eq_some_iff.mp hbucket)
    obtain ⟨⟨⟩, hname, -⟩ := ok_of_bind_eq_ok hentry
    exact hname

end ServiceConfig

theorem not_reserved_of_checkName {kind : NameKind} {name : String}
    (h : checkName kind name = .ok ()) : name ≠ globalNamespace ∧ name ≠ defaultBucketName := by
  unfold checkName at h
  split at h
  · cases h
  · split at h
    · cases h
    · rename_i hfree
      exact not_or.mp hfree

end TokenQuota
