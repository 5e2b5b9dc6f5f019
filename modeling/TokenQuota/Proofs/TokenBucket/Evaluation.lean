import Mathlib.Tactic.Linarith
import TokenQuota.Config.Validity
import TokenQuota.Store.Basic

/-!
What a decision on a request says about the cells of its bucket, and which cells a store holds
after it.
-/

namespace TokenQuota

/-- Limits under which tokens come at a positive rate into a bucket that holds some. -/
structure Limits.Sound (l : Limits) : Prop where
  interval_pos : 1 ≤ l.interval
  size_pos : 1 ≤ l.size
  maxDebt_nonneg : 0 ≤ l.maxDebt

theorem BucketConfig.rangeErrors_of_checkRanges {c : BucketConfig} {location : String}
    (h : c.checkRanges location = .ok ()) : c.rangeErrors = [] := by
  unfold BucketConfig.checkRanges at h
  split at h
  · rename_i hempty
    exact List.isEmpty_iff.mp hempty
  · cases h

theorem BucketConfig.ranges_of_checkRanges {c : BucketConfig} {location : String}
    (h : c.checkRanges location = .ok ()) :
    (1 ≤ c.fillRate.toInt ∧ c.fillRate.toInt ≤ 1000000000) ∧
      (0 ≤ c.maxDebtMillis.toInt ∧ c.maxDebtMillis.toInt ≤ greatestDebtMillis) ∧
      0 ≤ c.maxIdleMillis.toInt ∧ 1 ≤ c.size.toInt := by
  have herrors := BucketConfig.rangeErrors_of_checkRanges h
  simp only [BucketConfig.rangeErrors, List.append_eq_nil_iff, ite_eq_left_iff,
    List.cons_ne_nil, imp_false, not_not] at herrors
  obtain ⟨⟨⟨hrate, hdebt⟩, hidle⟩, hsize⟩ := herrors
  exact ⟨hrate, hdebt, hidle, hsize⟩

theorem BucketConfig.sound_limits {c : BucketConfig} {location : String}
    (h : c.checkRanges location = .ok ()) : c.limits.Sound := by
  obtain ⟨-, ⟨hdebt, -⟩, -, hsize⟩ := BucketConfig.ranges_of_checkRanges h
  refine ⟨?_, hsize, ?_⟩
  · simp only [BucketConfig.limits]
    omega
  · simp only [BucketConfig.limits, saturate, nanosPerMilli, minSigned, maxSigned]
    omega

theorem BucketConfig.maxIdleMillis_limits {c : BucketConfig} (h : c.maxIdleMillis = 0) :
    c.limits.maxIdleMillis = 0 := by
  simp only [BucketConfig.limits, h]
  rfl

theorem saturate_le_self {n : Int} (h : minSigned ≤ n) : saturate n ≤ n := by
  simp only [saturate, minSigned, maxSigned] at *
  omega

theorem le_saturate_of_lt {n : Int} (h : saturate n < maxSigned) : n ≤ saturate n := by
  simp only [saturate, minSigned, maxSigned] at *
  omega

namespace Take

/-- The tokens that are there when the request comes. -/
def available (t : Take) (cells : Cells) : Int :=
  if cells.nextAvailable < t.now then
    min t.size (saturate (cells.accumulated + (t.now - cells.nextAvailable) / max t.interval 1))
  else cells.accumulated

/-- The decision on a request whose bucket has both cells. -/
def evaluateCells (t : Take) (cells : Cells) : Decision :=
  t.evaluate (some cells.nextAvailable) (some cells.accumulated)

/-- The nanosecond up to which the request would book the bucket. -/
def booked (t : Take) (cells : Cells) : Int :=
  saturate (max cells.nextAvailable t.now +
    saturate ((t.requested - min (t.available cells) t.requested) * max t.interval 1))

theorem evaluateCells_eq (t : Take) (cells : Cells) :
    t.evaluateCells cells =
      if t.maxDebt < t.booked cells - t.now ∨
          (0 < max cells.nextAvailable t.now - t.now ∧
            t.maxWait < max cells.nextAvailable t.now - t.now) then .rejected
      else .admitted (max cells.nextAvailable t.now - t.now)
        ⟨t.booked cells, t.available cells - min (t.available cells) t.requested⟩ := by
  have hstart : (if cells.nextAvailable < t.now then t.now else cells.nextAvailable) =
      max cells.nextAvailable t.now := by
    split <;> omega
  have havailable : (if cells.nextAvailable < t.now then
        min t.size (saturate (cells.accumulated +
          (if cells.nextAvailable < t.now then t.now - cells.nextAvailable else 0) /
            max t.interval 1))
      else cells.accumulated) = t.available cells := by
    unfold available
    split
    · rfl
    · rfl
  simp only [evaluateCells, evaluate, decide, reckon, Arithmetic.saturating, Option.getD_some,
    hstart, havailable, booked]
  exact if_congr Iff.rfl rfl rfl

theorem evaluateCells_admitted {t : Take} {before after : Cells} {wait : Int}
    (h : t.evaluateCells before = .admitted wait after) :
    wait = max before.nextAvailable t.now - t.now ∧
      after.accumulated = t.available before - min (t.available before) t.requested ∧
      after.nextAvailable = saturate (max before.nextAvailable t.now +
        saturate ((t.requested - min (t.available before) t.requested) * max t.interval 1)) ∧
      after.nextAvailable - t.now ≤ t.maxDebt ∧ (0 < wait → wait ≤ t.maxWait) := by
  rw [evaluateCells_eq] at h
  split at h
  · cases h
  · rename_i hallowed
    obtain ⟨rfl, rfl⟩ := Decision.admitted.inj h
    obtain ⟨hdebt, hwait⟩ := not_or.mp hallowed
    exact ⟨rfl, rfl, rfl, not_lt.mp hdebt, fun hpos => not_lt.mp fun hlt => hwait ⟨hpos, hlt⟩⟩

/-- An admission books the bucket from the time on at which it would be out of debt. -/
theorem le_booked {t : Take} {before : Cells}
    (hsigned : max before.nextAvailable t.now ≤ maxSigned) :
    max before.nextAvailable t.now ≤ t.booked before := by
  have hborrowed : 0 ≤ (t.requested - min (t.available before) t.requested) * max t.interval 1 :=
    mul_nonneg (by omega) (by omega)
  simp only [booked, saturate, minSigned, maxSigned] at *
  omega

theorem evaluate_eq_evaluateCells (t : Take) (nextAvailable accumulated : Option Int) :
    t.evaluate nextAvailable accumulated =
      t.evaluateCells ⟨nextAvailable.getD 0, accumulated.getD t.size⟩ := rfl

theorem wait_of_admitted {t : Take} {nextAvailable accumulated : Option Int} {wait : Int}
    {after : Cells} (h : t.evaluate nextAvailable accumulated = .admitted wait after) :
    wait = max (nextAvailable.getD 0) t.now - t.now :=
  (evaluateCells_admitted (t.evaluate_eq_evaluateCells _ _ ▸ h)).1

/-- An admitted request never waits a negative time. -/
theorem wait_nonneg {t : Take} {nextAvailable accumulated : Option Int} {wait : Int}
    {after : Cells} (h : t.evaluate nextAvailable accumulated = .admitted wait after) :
    0 ≤ wait := by
  rw [wait_of_admitted h]
  omega

/-- Absent cells stand for a full bucket that is out of debt. -/
theorem evaluate_none {t : Take} (hnow : 0 < t.now) (hsize : 0 ≤ t.size)
    (hsigned : t.size ≤ maxSigned) :
    t.evaluate none none = t.evaluateCells ⟨t.now, t.size⟩ := by
  have hfresh : 0 ≤ t.now / max t.interval 1 := Int.ediv_nonneg (by omega) (by omega)
  have hfull : min t.size (saturate (t.size + t.now / max t.interval 1)) = t.size := by
    simp only [saturate, minSigned, maxSigned] at *
    omega
  simp [evaluateCells, evaluate, decide, reckon, Arithmetic.saturating, hnow, hfull]

end Take

/-- The caller of an admitted request is told that it is admitted, since its wait is not
negative. -/
theorem Verdict.ofResult_of_nonneg {result : Int} (h : 0 ≤ result) :
    Verdict.ofResult result = ⟨result.toNat, true⟩ :=
  if_neg (not_lt.mpr h)

namespace Store

/-- No live cell of the bucket is there. -/
def Absent (s : Store) (now : Int) (keys : CellKeys) : Prop :=
  s.get? now keys.nextAvailable = none ∧ s.get? now keys.accumulated = none

/-- Both cells of the bucket are there, and never expire. -/
def Holds (s : Store) (keys : CellKeys) (cells : Cells) : Prop :=
  ∀ now, s.get? now keys.nextAvailable = some cells.nextAvailable ∧
    s.get? now keys.accumulated = some cells.accumulated

theorem decision_congr {s s' : Store} (h : s'.cells = s.cells) (now : Int) (keys : CellKeys)
    (t : Take) : s'.decision now keys t = s.decision now keys t := by
  unfold decision get?
  rw [h]

theorem decision_of_absent {s : Store} {now : Int} {keys : CellKeys}
    (h : s.Absent now keys) (t : Take) : s.decision now keys t = t.evaluate none none := by
  rw [decision, h.1, h.2]

theorem decision_of_holds {s : Store} {keys : CellKeys} {cells : Cells}
    (h : s.Holds keys cells) (now : Int) (t : Take) :
    s.decision now keys t = t.evaluateCells cells := by
  rw [decision, (h now).1, (h now).2]
  rfl

theorem holds_write {s : Store} {keys : CellKeys} (hkeys : keys.nextAvailable ≠ keys.accumulated)
    (cells : Cells) : (s.write keys cells none).Holds keys cells := by
  intro now
  constructor
  · simp [write, get?, NameMap.get?_insert, hkeys, Cell.isLive]
  · simp [write, get?, NameMap.get?_insert, Cell.isLive]

theorem take_of_rejected {s : Store} {now : Int} {keys : CellKeys} {t : Take}
    (h : s.decision now keys t = .rejected) : s.take now keys t = (.rejected, s) := by
  rw [take, h]

theorem take_of_admitted {s : Store} {now : Int} {keys : CellKeys} {t : Take} {wait : Int}
    {cells : Cells} (h : s.decision now keys t = .admitted wait cells) :
    s.take now keys t = (.admitted wait cells, s.write keys cells (expiryAt now t)) := by
  rw [take, h]

theorem take_fst (s : Store) (now : Int) (keys : CellKeys) (t : Take) :
    (s.take now keys t).1 = s.decision now keys t := by
  cases h : s.decision now keys t with
  | rejected => rw [take_of_rejected h]
  | admitted wait cells => rw [take_of_admitted h]

theorem expiryAt_eq_none {t : Take} (h : t.maxIdleMillis = 0) (now : Int) :
    expiryAt now t = none := by
  simp [expiryAt, h]

end Store

theorem StateKey.toList_join (ns bucket mark : String) :
    (StateKey.join ns bucket mark).toList =
      ns.toList ++ ':' :: (bucket.toList ++ ':' :: mark.toList) := by
  simp [StateKey.join, toString]

namespace CellKeys

/-- The two keys of a bucket differ, and from those of other buckets, since their last characters
do. -/
theorem nextAvailable_ne (ns bucket ns' bucket' : String) :
    (of ns bucket).nextAvailable ≠ (of ns' bucket').accumulated := by
  intro h
  have hlast := congrArg (fun s : String => s.toList.getLast?) h
  simp [of, StateKey.toList_join, StateKey.nextAvailableMark,
    StateKey.accumulatedMark, List.getLast?_cons] at hlast

theorem nextAvailable_ne_accumulated (ns bucket : String) :
    (of ns bucket).nextAvailable ≠ (of ns bucket).accumulated :=
  nextAvailable_ne ns bucket ns bucket

end CellKeys

end TokenQuota
