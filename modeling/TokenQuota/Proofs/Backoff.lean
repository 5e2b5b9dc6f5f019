import Mathlib.Algebra.Order.Ring.Nat
import TokenQuota.Backoff

/-!
The delay before an attempt, in unbounded integers: the base doubles with every attempt, up to the
greatest delay, and the jitter adds less than a tenth of it. Powers and products that saturate
make no difference, since the greatest delay is an unsigned integer.
-/

namespace TokenQuota.Backoff

theorem doubling_eq (exponent : Nat) : doubling exponent = min (2 ^ exponent) maxUnsigned := by
  unfold doubling
  split
  · rename_i h
    have hpow : 2 ^ exponent ≤ 2 ^ 63 := Nat.pow_le_pow_right (by decide) (by omega)
    have hmax : (2 : Nat) ^ 63 ≤ maxUnsigned := by decide
    exact (Nat.min_eq_left (hpow.trans hmax)).symm
  · rename_i h
    have hpow : 2 ^ 64 ≤ 2 ^ exponent := Nat.pow_le_pow_right (by decide) (by omega)
    have hmax : maxUnsigned ≤ 2 ^ 64 := by decide
    exact (Nat.min_eq_right (hmax.trans hpow)).symm

theorem doubling_mono : Monotone doubling := by
  intro exponent exponent' h
  rw [doubling_eq, doubling_eq]
  exact min_le_min_right _ (Nat.pow_le_pow_right (by decide) h)

variable {attempt base greatest : Nat}

theorem ceiling_of_eq_zero (h : attempt = 0 ∨ base = 0) : ceiling attempt base greatest = 0 :=
  if_pos h

/-- A power that saturates makes the product saturate, and that is cut off anyway. -/
theorem ceiling_eq (hattempt : attempt ≠ 0) (hbase : base ≠ 0)
    (hgreatest : greatest ≤ maxUnsigned) :
    ceiling attempt base greatest = min (base * 2 ^ (attempt - 1)) greatest := by
  have hnot : ¬(attempt = 0 ∨ base = 0) := by simp [hattempt, hbase]
  have hpos : 1 ≤ base := Nat.one_le_iff_ne_zero.mpr hbase
  have hproduct : maxUnsigned ≤ base * maxUnsigned := Nat.le_mul_of_pos_left _ hpos
  rw [ceiling, if_neg hnot, doubling_eq, ← Nat.mul_min_mul_left]
  rw [min_assoc, min_assoc, min_eq_right hgreatest, min_eq_right (hgreatest.trans hproduct)]

theorem ceiling_le (attempt base greatest : Nat) : ceiling attempt base greatest ≤ greatest := by
  unfold ceiling
  split
  · exact Nat.zero_le _
  · exact Nat.min_le_right _ _

theorem ceiling_mono (base greatest : Nat) :
    Monotone fun attempt => ceiling attempt base greatest := by
  intro attempt attempt' h
  by_cases hzero : attempt = 0 ∨ base = 0
  · simp [ceiling_of_eq_zero hzero]
  · have hzero' : ¬(attempt' = 0 ∨ base = 0) := by omega
    simp only [ceiling, if_neg hzero, if_neg hzero']
    have hdoubling := doubling_mono (Nat.sub_le_sub_right h 1)
    exact min_le_min_right _ (min_le_min_right _ (Nat.mul_le_mul_left _ hdoubling))

theorem jitterRange_pos (delay : Nat) : 0 < jitterRange delay :=
  Nat.lt_of_lt_of_le Nat.zero_lt_one (Nat.le_max_right _ _)

theorem ceiling_le_delay (attempt base greatest draw : Nat) :
    ceiling attempt base greatest ≤ delay attempt base greatest draw :=
  Nat.le_add_right _ _

theorem delay_lt (attempt base greatest draw : Nat) :
    delay attempt base greatest draw <
      ceiling attempt base greatest + jitterRange (ceiling attempt base greatest) :=
  Nat.add_lt_add_left (Nat.mod_lt _ (jitterRange_pos _)) _

theorem delay_of_eq_zero (h : attempt = 0 ∨ base = 0) (draw : Nat) :
    delay attempt base greatest draw = 0 := by
  simp [delay, ceiling_of_eq_zero h, jitterRange, Nat.mod_one]

/-- The jitter adds at most a tenth of the greatest delay. -/
theorem delay_le (attempt base greatest draw : Nat) :
    delay attempt base greatest draw ≤ greatest + (greatest / 10 - 1) := by
  have hdelay := delay_lt attempt base greatest draw
  have hceiling := ceiling_le attempt base greatest
  rw [jitterRange] at hdelay
  omega

/-- Over all draws, the delay takes the values from the least to the greatest one. -/
theorem exists_delay_iff {millis : Nat} :
    (∃ draw, delay attempt base greatest draw = millis) ↔
      (bounds attempt base greatest).1 ≤ millis ∧ millis ≤ (bounds attempt base greatest).2 := by
  have hpos := jitterRange_pos (ceiling attempt base greatest)
  constructor
  · rintro ⟨draw, rfl⟩
    have hlt := delay_lt attempt base greatest draw
    exact ⟨ceiling_le_delay _ _ _ _, by simp only [bounds]; omega⟩
  · rintro ⟨hleast, hmost⟩
    simp only [bounds] at hleast hmost
    refine ⟨millis - ceiling attempt base greatest, ?_⟩
    rw [delay, Nat.mod_eq_of_lt (by omega)]
    omega

end TokenQuota.Backoff
