import TokenQuota.Proofs.TokenBucket.Changing
import TokenQuota.Proofs.TokenBucket.Saturation

/-!
A decision in two steps. First the cells are brought up to the clock, whatever is asked for; then
the tokens that are there are spent, and the others are borrowed.
-/

namespace TokenQuota

/-- The cells brought up to a reading of the clock. -/
def Limits.ready (l : Limits) (now : Int) (cells : Cells) : Cells :=
  if cells.nextAvailable < now then
    ⟨now, min l.size (saturate (cells.accumulated + (now - cells.nextAvailable) / l.interval))⟩
  else cells

/-- The cells after some tokens are given. The time up to which the bucket is booked stops at the
end of 64 bits. -/
def Limits.spend (l : Limits) (cells : Cells) (tokens : Int) : Cells :=
  ⟨min maxSigned (cells.nextAvailable + (tokens - min cells.accumulated tokens) * l.interval),
    cells.accumulated - min cells.accumulated tokens⟩

section Ready

variable {l : Limits} {a : Arrival} {cells : Cells} {now : Int}

theorem Limits.ready_eq (hl : l.Sound) (a : Arrival) (cells : Cells) :
    l.ready a.now cells = ⟨max cells.nextAvailable a.now, (a.take l).available cells⟩ := by
  have hinterval : max (a.take l).interval 1 = l.interval := max_eq_left hl.interval_pos
  rw [ready, Take.available, hinterval]
  change _ = Cells.mk _ (if cells.nextAvailable < a.now then _ else _)
  split
  · rename_i hlt
    rw [max_eq_right hlt.le]
    rfl
  · rename_i hge
    rw [max_eq_left (not_lt.mp hge)]

theorem Limits.le_ready (l : Limits) (now : Int) (cells : Cells) :
    now ≤ (l.ready now cells).nextAvailable := by
  unfold ready
  split
  · exact le_refl now
  · rename_i hge
    exact not_lt.mp hge

theorem Limits.ready_of_le (h : now ≤ cells.nextAvailable) : l.ready now cells = cells :=
  if_neg (not_lt.mpr h)

theorem Limits.Leaves.ready_of_lt (hl : l.Sound) (hsigned : l.size ≤ maxSigned)
    (hcells : l.Leaves cells) (h : cells.nextAvailable < now) :
    l.ready now cells =
      ⟨now, min l.size (cells.accumulated + (now - cells.nextAvailable) / l.interval)⟩ := by
  have hfresh : 0 ≤ (now - cells.nextAvailable) / l.interval :=
    Int.ediv_nonneg (by omega) hl.interval_nonneg
  have hnonneg := hcells.accumulated_nonneg
  rw [Limits.ready, if_pos h]
  congr 1
  simp only [saturate, minSigned, maxSigned] at *
  omega

theorem Limits.Leaves.ready (hl : l.Sound) (hcells : l.Leaves cells) (hnow : now ≤ maxSigned) :
    l.Leaves (l.ready now cells) := by
  rcases lt_or_ge cells.nextAvailable now with hlt | hge
  · have hfresh : 0 ≤ (now - cells.nextAvailable) / l.interval :=
      Int.ediv_nonneg (by omega) hl.interval_nonneg
    have hsize := hl.size_nonneg
    have htokens := saturate_mem (add_nonneg hcells.accumulated_nonneg hfresh)
    rw [Limits.ready, if_pos hlt]
    exact ⟨le_min hsize htokens.1, min_le_left _ _, hcells.nextAvailable_nonneg.trans hlt.le, hnow⟩
  · rw [Limits.ready_of_le hge]
    exact hcells

theorem Arrival.evaluateCells_eq_spend (hl : l.Sound) (hcells : 0 ≤ cells.nextAvailable) :
    let ready := l.ready a.now cells
    let spent := l.spend ready a.requested
    let wait := ready.nextAvailable - a.now
    (a.take l).evaluateCells cells =
      if l.maxDebt < spent.nextAvailable - a.now ∨ (0 < wait ∧ (a.take l).maxWait < wait) then
        .rejected
      else .admitted wait spent := by
  have hinterval : max (a.take l).interval 1 = l.interval := max_eq_left hl.interval_pos
  have hborrowed : 0 ≤ (a.requested - min ((a.take l).available cells) a.requested) * l.interval :=
    mul_nonneg (by omega) hl.interval_nonneg
  have hbooked : (a.take l).booked cells =
      (l.spend (l.ready a.now cells) a.requested).nextAvailable := by
    rw [Take.booked, hinterval, Limits.ready_eq hl]
    exact saturate_add_saturate (by omega) hborrowed
  rw [Take.evaluateCells_eq, hbooked, Limits.ready_eq hl]
  rfl

end Ready

section Spend

variable {l : Limits} {cells : Cells} {tokens : Int}

theorem Limits.spend_of_le (hcells : cells.nextAvailable ≤ maxSigned)
    (h : tokens ≤ cells.accumulated) :
    l.spend cells tokens = ⟨cells.nextAvailable, cells.accumulated - tokens⟩ := by
  rw [spend, min_eq_right h, sub_self, zero_mul, add_zero, min_eq_right hcells]

theorem Limits.spend_of_ge (h : cells.accumulated ≤ tokens) :
    l.spend cells tokens =
      ⟨min maxSigned (cells.nextAvailable + (tokens - cells.accumulated) * l.interval), 0⟩ := by
  rw [spend, min_eq_left h, sub_self]

theorem Limits.le_spend (hl : l.Sound) (hcells : cells.nextAvailable ≤ maxSigned) (tokens : Int) :
    cells.nextAvailable ≤ (l.spend cells tokens).nextAvailable := by
  have hborrowed : 0 ≤ (tokens - min cells.accumulated tokens) * l.interval :=
    mul_nonneg (by omega) hl.interval_nonneg
  simp only [spend]
  omega

theorem Limits.spend_le_maxSigned (l : Limits) (cells : Cells) (tokens : Int) :
    (l.spend cells tokens).nextAvailable ≤ maxSigned :=
  min_le_left _ _

theorem Limits.Leaves.spend (hl : l.Sound) (hcells : l.Leaves cells) (htokens : 0 ≤ tokens) :
    l.Leaves (l.spend cells tokens) := by
  have hnext := Limits.le_spend hl hcells.nextAvailable_le tokens
  have hnonneg := hcells.accumulated_nonneg
  have hle := hcells.accumulated_le
  refine ⟨?_, ?_, hcells.nextAvailable_nonneg.trans hnext,
    l.spend_le_maxSigned cells tokens⟩
  · simp only [Limits.spend]
    omega
  · simp only [Limits.spend]
    omega

end Spend

end TokenQuota
