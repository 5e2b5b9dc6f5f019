import Mathlib.Data.String.Basic
import TokenQuota.Proofs.NameMap
import TokenQuota.Stats

/-!
The buckets with the highest counts. Their list depends on the counts only, and not on the order in
which the buckets come.
-/

namespace TokenQuota

namespace Rank

/-- A bucket ranks ahead of another with a lower count, and of one with the same count and a later
name. -/
def Ahead (a b : Rank) : Prop :=
  b.score < a.score ∨ (a.score = b.score ∧ a.bucket < b.bucket)

variable {a b c : Rank}

theorem before_iff : a.before b = true ↔
    b.score < a.score ∨ (a.score = b.score ∧ a.bucket ≤ b.bucket) := by
  simp [before]

theorem before_trans (hab : a.before b = true) (hbc : b.before c = true) :
    a.before c = true := by
  rw [before_iff] at hab hbc ⊢
  rcases hab with hab | ⟨hab, hle⟩
  · rcases hbc with hbc | ⟨hbc, -⟩
    · exact .inl (Nat.lt_trans hbc hab)
    · exact .inl (hbc ▸ hab)
  · rcases hbc with hbc | ⟨hbc, hle'⟩
    · exact .inl (hab ▸ hbc)
    · exact .inr ⟨hab.trans hbc, String.le_trans hle hle'⟩

theorem before_total (a b : Rank) : (a.before b || b.before a) = true := by
  rw [Bool.or_eq_true, before_iff, before_iff]
  rcases Nat.lt_trichotomy a.score b.score with h | h | h
  · exact .inr (.inl h)
  · exact (String.le_total a.bucket b.bucket).imp (fun hle => .inr ⟨h, hle⟩)
      fun hle => .inr ⟨h.symm, hle⟩
  · exact .inl (.inl h)

theorem before_antisymm (hab : a.before b = true) (hba : b.before a = true) : a = b := by
  rw [before_iff] at hab hba
  have hscore : a.score = b.score := by omega
  have hbucket : a.bucket = b.bucket := by
    rcases hab with hlt | ⟨-, hle⟩
    · omega
    · rcases hba with hlt | ⟨-, hle'⟩
      · omega
      · exact String.le_antisymm hle hle'
  cases a
  cases b
  cases hscore
  cases hbucket
  rfl

theorem ahead_of_before (h : a.before b = true) (hne : a.bucket ≠ b.bucket) : a.Ahead b := by
  rcases before_iff.mp h with hlt | ⟨heq, hle⟩
  · exact .inl hlt
  · exact .inr ⟨heq, lt_of_le_of_ne hle hne⟩

end Rank

namespace Stats

/-- The buckets that rank first by one of their counts, from the entries of a map in any order. -/
def ranking (count : Scores → Nat) (entries : List (String × Scores)) : List Rank :=
  (((entries.map fun e => (⟨e.1, count e.2⟩ : Rank)).filter fun r => 0 < r.score).mergeSort
    Rank.before).take shown

theorem top_eq_ranking (s : Stats) (ns : String) (count : Scores → Nat) :
    s.top ns count = ranking count (s.ofNamespace ns).entries := rfl

/-- The ten buckets that rank first by their counts, or all buckets that count if there are fewer. -/
structure IsTop (count : String → Nat) (l : List Rank) : Prop where
  ordered : l.Pairwise Rank.Ahead
  distinct : (l.map Rank.bucket).Nodup
  counted : ∀ r ∈ l, 0 < r.score ∧ r.score = count r.bucket
  length_le : l.length ≤ 10
  omitted : ∀ bucket, 0 < count bucket → bucket ∉ l.map Rank.bucket →
    l.length = 10 ∧ ∀ r ∈ l, r.Ahead ⟨bucket, count bucket⟩

variable {count : Scores → Nat}

theorem pairwise_sorted (l : List Rank) :
    (l.mergeSort Rank.before).Pairwise fun a b => a.before b = true :=
  @List.pairwise_mergeSort Rank Rank.before (fun _ _ _ => Rank.before_trans) Rank.before_total l

theorem ranking_perm {entries entries' : List (String × Scores)} (h : entries.Perm entries') :
    ranking count entries = ranking count entries' := by
  unfold ranking
  congr 1
  refine List.Perm.eq_of_pairwise (fun _ _ _ _ => Rank.before_antisymm) (pairwise_sorted _)
    (pairwise_sorted _) ?_
  exact (List.mergeSort_perm _ _).trans
    (((h.map _).filter _).trans (List.mergeSort_perm _ _).symm)

/-- The count of a bucket in a map; one that is not in it counts nothing. -/
def countIn (count : Scores → Nat) (m : NameMap Scores) (bucket : String) : Nat :=
  ((m.get? bucket).map count).getD 0

theorem mem_counted {m : NameMap Scores} {r : Rank} :
    r ∈ (m.entries.map fun e => (⟨e.1, count e.2⟩ : Rank)).filter (fun r => 0 < r.score) ↔
      0 < r.score ∧ r.score = countIn count m r.bucket := by
  rw [List.mem_filter, decide_eq_true_iff, and_comm]
  refine and_congr_right fun hpos => ?_
  constructor
  · intro h
    obtain ⟨⟨bucket, scores⟩, hmem, rfl⟩ := List.mem_map.mp h
    have hget : m.get? bucket = some scores := NameMap.get?_eq_some_iff.mpr hmem
    rw [countIn, hget]
    rfl
  · intro h
    cases hget : m.get? r.bucket with
    | none =>
        rw [countIn, hget] at h
        exact absurd hpos (h ▸ Nat.lt_irrefl 0)
    | some scores =>
        rw [countIn, hget] at h
        refine List.mem_map.mpr ⟨(r.bucket, scores), NameMap.get?_eq_some_iff.mp hget, ?_⟩
        exact congrArg (Rank.mk r.bucket) h.symm

theorem isTop_ranking (m : NameMap Scores) : IsTop (countIn count m) (ranking count m.entries) := by
  let counted := (m.entries.map fun e => (⟨e.1, count e.2⟩ : Rank)).filter fun r => 0 < r.score
  let sorted := counted.mergeSort Rank.before
  have hmem (r : Rank) : r ∈ sorted ↔ 0 < r.score ∧ r.score = countIn count m r.bucket :=
    List.mem_mergeSort.trans mem_counted
  have hdistinct : (sorted.map Rank.bucket).Nodup := by
    have hnames : (m.entries.map Prod.fst).Nodup := by
      refine List.pairwise_map.mpr (m.sorted.imp fun hlt heq => ?_)
      exact String.lt_irrefl _ (heq ▸ hlt)
    have hcounted : (counted.map Rank.bucket).Nodup := by
      refine (List.Sublist.map Rank.bucket List.filter_sublist).nodup ?_
      rwa [List.map_map]
    exact ((List.mergeSort_perm counted Rank.before).map _).nodup_iff.mpr hcounted
  have hordered : sorted.Pairwise Rank.Ahead :=
    (pairwise_sorted counted).imp₂ (fun _ _ => Rank.ahead_of_before) (List.pairwise_map.mp hdistinct)
  have htake : (sorted.take shown).Sublist sorted := List.take_sublist _ _
  constructor
  case ordered => exact hordered.sublist htake
  case distinct => exact (htake.map _).nodup hdistinct
  case counted => exact fun r hr => (hmem r).mp (htake.subset hr)
  case length_le => exact List.length_take_le _ _
  case omitted =>
    intro bucket hpos hout
    let r : Rank := ⟨bucket, countIn count m bucket⟩
    have hr : r ∈ sorted := (hmem r).mpr ⟨hpos, rfl⟩
    -- A bucket that counts and is not shown stands after the ten that are.
    rw [← List.take_append_drop shown sorted] at hr hordered
    have hdrop : r ∈ sorted.drop shown :=
      (List.mem_append.mp hr).resolve_left fun hin => hout (List.mem_map_of_mem hin)
    have hlong : shown < sorted.length := List.length_lt_of_drop_ne_nil (List.ne_nil_of_mem hdrop)
    refine ⟨?_, fun a ha => (List.pairwise_append.mp hordered).2.2 a ha r hdrop⟩
    exact (List.length_take_of_le (Nat.le_of_lt hlong))

end Stats

end TokenQuota
