import TokenQuota.Proofs.TokenBucket.Runs

/-!
Asking again. From the same cells, a request for no more tokens that comes no earlier, from a caller
willing to wait no less, is admitted if the first one is, and waits for what is left of the wait.
-/

namespace TokenQuota

theorem saturate_mono {m n : Int} (h : m ≤ n) : saturate m ≤ saturate n := by
  simp only [saturate]
  omega

/-- Saturation brings numbers closer together. -/
theorem saturate_add_le {n : Int} (delay : Nat) : saturate (n + delay) ≤ saturate n + delay := by
  simp only [saturate, minSigned, maxSigned]
  omega

namespace Take

/-- A request that is easier to admit than another one under the same limits: it comes no earlier,
asks for no more and is willing to wait no less. -/
structure Eases (t' t : Take) : Prop where
  interval : t'.interval = t.interval
  size : t'.size = t.size
  maxDebt : t'.maxDebt = t.maxDebt
  now : t.now ≤ t'.now
  requested : t'.requested ≤ t.requested
  maxWait : t.maxWait ≤ t'.maxWait

variable {t t' : Take} {cells : Cells}

theorem Eases.available_le (h : t'.Eases t) (hsigned : t.size ≤ maxSigned)
    (hcells : cells.accumulated ≤ t.size) : t.available cells ≤ t'.available cells := by
  have hnow := h.now
  have hpos : 0 < max t.interval 1 := by omega
  unfold available
  rw [h.interval, h.size]
  split
  · rename_i hrefilled
    have hfresh : (t.now - cells.nextAvailable) / max t.interval 1 ≤
        (t'.now - cells.nextAvailable) / max t.interval 1 :=
      Int.ediv_le_ediv hpos (by omega)
    rw [if_pos (by omega)]
    exact min_le_min_left _ (saturate_mono (by omega))
  · -- Not refilled at first: the tokens that come later are added to what was there.
    split
    · have hfresh : 0 ≤ (t'.now - cells.nextAvailable) / max t.interval 1 :=
        Int.ediv_nonneg (by omega) (by omega)
      simp only [saturate, minSigned, maxSigned] at *
      omega
    · exact le_refl _

/-- Later the bucket would be booked further ahead by no more than the time in between. -/
theorem Eases.booked_le (h : t'.Eases t) (hsigned : t.size ≤ maxSigned)
    (hcells : cells.accumulated ≤ t.size) :
    t'.booked cells - t'.now ≤ t.booked cells - t.now := by
  have hnow := h.now
  have hrequested := h.requested
  have havailable := h.available_le hsigned hcells
  have hborrowed : saturate ((t'.requested - min (t'.available cells) t'.requested) *
        max t'.interval 1) ≤
      saturate ((t.requested - min (t.available cells) t.requested) * max t.interval 1) := by
    rw [h.interval]
    exact saturate_mono (mul_le_mul_of_nonneg_right (by omega) (by omega))
  have hdelay : t'.now = t.now + (t'.now - t.now).toNat := by omega
  calc t'.booked cells - t'.now
      ≤ saturate (max cells.nextAvailable t.now +
          saturate ((t.requested - min (t.available cells) t.requested) * max t.interval 1) +
            (t'.now - t.now).toNat) - t'.now :=
        Int.sub_le_sub_right (saturate_mono (by omega)) _
    _ ≤ t.booked cells + (t'.now - t.now).toNat - t'.now :=
        Int.sub_le_sub_right (saturate_add_le _) _
    _ = t.booked cells - t.now := by omega

theorem Eases.admitted {wait : Int} {after : Cells} (h : t'.Eases t)
    (hsigned : t.size ≤ maxSigned) (hcells : cells.accumulated ≤ t.size)
    (hadmitted : t.evaluateCells cells = .admitted wait after) :
    ∃ after', t'.evaluateCells cells = .admitted (max 0 (wait - (t'.now - t.now))) after' := by
  have hnow := h.now
  have hmaxWait := h.maxWait
  have hmaxDebt := h.maxDebt
  have hbooked := h.booked_le hsigned hcells
  obtain ⟨hwait, -, hnext, hdebt, hwilling⟩ := evaluateCells_admitted hadmitted
  have hbefore : after.nextAvailable = t.booked cells := hnext
  have hleft : max cells.nextAvailable t'.now - t'.now = max 0 (wait - (t'.now - t.now)) := by
    omega
  rw [evaluateCells_eq, if_neg (by omega), hleft]
  exact ⟨_, rfl⟩

end Take

/-- If a request is admitted, then on the same cells one for no more tokens is, too, that comes no
earlier, from a caller that is willing to wait no less. It waits for what is left of the wait. -/
theorem Limits.admission_monotone (c : BucketConfig) (nextAvailable accumulated : Option Int)
    (hcells : ∀ tokens ∈ accumulated, tokens ≤ c.limits.size) {now now' requested requested' : Int}
    {maxWait maxWait' : Nat} (hnow : now ≤ now') (hrequested : requested' ≤ requested)
    (hmaxWait : maxWait ≤ maxWait') {wait : Int} {after : Cells}
    (h : (c.limits.take now requested maxWait).evaluate nextAvailable accumulated =
      .admitted wait after) :
    ∃ after', (c.limits.take now' requested' maxWait').evaluate nextAvailable accumulated =
      .admitted (max 0 (wait - (now' - now))) after' := by
  have hsigned : c.limits.size ≤ maxSigned := Int64.toInt_le c.size
  have hwilling : min (maxWait : Int) maxSigned ≤ min (maxWait' : Int) maxSigned :=
    min_le_min_right _ (Int.ofNat_le.mpr hmaxWait)
  have heases : (c.limits.take now' requested' maxWait').Eases
      (c.limits.take now requested maxWait) :=
    ⟨rfl, rfl, rfl, hnow, hrequested, hwilling⟩
  have hfull : accumulated.getD c.limits.size ≤ c.limits.size := by
    cases accumulated with
    | none => exact le_refl _
    | some tokens => exact hcells tokens rfl
  rw [Take.evaluate_eq_evaluateCells] at h ⊢
  exact heases.admitted hsigned hfull h

/-- A caller that would wait for the rest of a debt asks for half of its tokens a while later, and
waits the less. -/
theorem Limits.admission_monotone_later :
    let c : BucketConfig := ⟨10, 5, 0, 1000, false⟩
    let first := c.limits.take 1000000000000 4 500000000
    let second := c.limits.take 1000200000000 2 600000000
    c.checkRanges "search" = .ok () ∧
      first.evaluate (some 1000500000000) (some 0) =
        .admitted 500000000 ⟨1000900000000, 0⟩ ∧
      ∃ after', second.evaluate (some 1000500000000) (some 0) = .admitted 300000000 after' := by
  intro c first second
  have hc : c.checkRanges "search" = .ok () := by decide
  have hfirst : first.evaluate (some 1000500000000) (some 0) =
      .admitted 500000000 ⟨1000900000000, 0⟩ := by decide +kernel
  exact ⟨hc, hfirst, admission_monotone c _ _ (by decide) (by decide) (by decide) (by decide)
    hfirst⟩

end TokenQuota
