import TokenQuota.Stats

/-! What a counted request adds to the counts. -/

namespace TokenQuota.Stats

/-- One more request of a bucket is counted, and no other count changes. -/
structure CountsOne (ns bucket : String) (admitted : Bool) (t t' : Stats) : Prop where
  counted : ∃ c, t'.scores? ns bucket = some c ∧
    c.hits = ((t.scores? ns bucket).getD ⟨0, 0⟩).hits + (if admitted then 1 else 0) ∧
    c.misses = ((t.scores? ns bucket).getD ⟨0, 0⟩).misses + (if admitted then 0 else 1)
  others : ∀ ns' bucket', ¬(ns' = ns ∧ bucket' = bucket) →
    t'.scores? ns' bucket' = t.scores? ns' bucket'

theorem ofNamespace_record (t : Stats) (ns bucket : String) (admitted : Bool) (ns' : String) :
    (t.record ns bucket admitted).ofNamespace ns' =
      if ns' = ns then (t.ofNamespace ns).insert bucket
        (if admitted then ⟨((t.scores? ns bucket).getD ⟨0, 0⟩).hits + 1,
            ((t.scores? ns bucket).getD ⟨0, 0⟩).misses⟩
          else ⟨((t.scores? ns bucket).getD ⟨0, 0⟩).hits,
            ((t.scores? ns bucket).getD ⟨0, 0⟩).misses + 1⟩)
      else t.ofNamespace ns' := by
  by_cases hns : ns' = ns
  · simp [record, ofNamespace, NameMap.get?_insert, hns]
  · simp [record, ofNamespace, NameMap.get?_insert, hns]

theorem countsOne_record (t : Stats) (ns bucket : String) (admitted : Bool) :
    CountsOne ns bucket admitted t (t.record ns bucket admitted) := by
  constructor
  · rw [scores?, ofNamespace_record, if_pos rfl, NameMap.get?_insert, if_pos rfl]
    cases admitted with
    | true => exact ⟨_, rfl, rfl, rfl⟩
    | false => exact ⟨_, rfl, rfl, rfl⟩
  · intro ns' bucket' hne
    rw [scores?, ofNamespace_record]
    by_cases hns : ns' = ns
    · have hbucket : bucket' ≠ bucket := fun heq => hne ⟨hns, heq⟩
      rw [if_pos hns, NameMap.get?_insert, if_neg hbucket, hns]
      rfl
    · rw [if_neg hns]
      rfl

end TokenQuota.Stats
