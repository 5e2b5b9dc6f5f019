import TokenQuota.Proofs.TokenBucket.Runs

/-!
Decisions in 64 bits against decisions in exact numbers. Sums and products that stop at the end of
64 bits show only in the time up to which a bucket would be booked, and they change a decision only
where the allowed debt reaches that end.
-/

namespace TokenQuota

variable {c : BucketConfig} {location : String}

/-- The greatest debt that is well formed has 64 bits in nanoseconds. -/
theorem BucketConfig.maxDebt_limits (hc : c.checkRanges location = .ok ()) :
    c.limits.maxDebt = c.maxDebtMillis.toInt * nanosPerMilli := by
  obtain ⟨-, ⟨hnonneg, hle⟩, -⟩ := BucketConfig.ranges_of_checkRanges hc
  refine saturate_eq_self ⟨?_, ?_⟩
  · simp only [minSigned, nanosPerMilli]
    omega
  · simp only [maxSigned, nanosPerMilli, greatestDebtMillis] at *
    omega

theorem saturate_mem {n : Int} (h : 0 ≤ n) : 0 ≤ saturate n ∧ saturate n ≤ maxSigned := by
  simp only [saturate, minSigned, maxSigned]
  omega

theorem saturate_add_saturate {start borrowed : Int} (hstart : 0 ≤ start)
    (hborrowed : 0 ≤ borrowed) :
    saturate (start + saturate borrowed) = min maxSigned (start + borrowed) := by
  simp only [saturate, minSigned, maxSigned]
  omega

namespace Take

variable {t : Take} {nextAvailable accumulated : Option Int}

/-- The request would book the bucket past the end of 64 bits, in exact numbers, although the debt
that is allowed reaches that end, and its caller is willing to wait. -/
def Overruns (t : Take) (nextAvailable accumulated : Option Int) : Prop :=
  let exact := t.reckon .exact nextAvailable accumulated
  maxSigned < exact.nextAvailable ∧ maxSigned ≤ t.now + t.maxDebt ∧
    (0 < exact.wait → exact.wait ≤ t.maxWait)

/-- The reading and the cells have 64 bits, and there are no more tokens than the size. -/
structure Fits (t : Take) (nextAvailable accumulated : Option Int) : Prop where
  booked : 0 ≤ nextAvailable.getD 0 ∧ nextAvailable.getD 0 ≤ maxSigned
  tokens : 0 ≤ accumulated.getD t.size ∧ accumulated.getD t.size ≤ t.size
  size : t.size ≤ maxSigned
  now : 0 < t.now ∧ t.now ≤ maxSigned

theorem reckon_saturating (h : t.Fits nextAvailable accumulated) :
    let exact := t.reckon .exact nextAvailable accumulated
    t.reckon .saturating nextAvailable accumulated =
      { exact with
        nextAvailable := min maxSigned exact.nextAvailable
        debt := min maxSigned exact.nextAvailable - t.now } := by
  obtain ⟨⟨hnext, -⟩, ⟨hnonneg, hle⟩, hsize, hnow, -⟩ := h
  simp only [reckon, Arithmetic.saturating, Arithmetic.exact, id]
  generalize nextAvailable.getD 0 = before at *
  generalize accumulated.getD t.size = stored at *
  generalize helapsed : (if before < t.now then t.now - before else 0) = elapsed
  have hfresh : 0 ≤ elapsed / max t.interval 1 := Int.ediv_nonneg (by omega) (by omega)
  -- Fresh tokens beyond 64 bits are beyond the size, too.
  have havailable : min t.size (saturate (stored + elapsed / max t.interval 1)) =
      min t.size (stored + elapsed / max t.interval 1) := by
    simp only [saturate, minSigned, maxSigned] at *
    omega
  rw [havailable]
  generalize (if before < t.now then min t.size (stored + elapsed / max t.interval 1)
    else stored) = available
  have hborrowed : 0 ≤ (t.requested - min available t.requested) * max t.interval 1 :=
    mul_nonneg (by omega) (by omega)
  rw [saturate_add_saturate (by omega) hborrowed]

/-- Only a request that borrows can book a bucket past the end of 64 bits, and it leaves no
tokens. -/
theorem accumulated_of_lt (h : t.Fits nextAvailable accumulated)
    (hlt : maxSigned < (t.reckon .exact nextAvailable accumulated).nextAvailable) :
    (t.reckon .exact nextAvailable accumulated).accumulated = 0 := by
  obtain ⟨⟨-, hnext⟩, -, -, -, hnow⟩ := h
  simp only [reckon, Arithmetic.exact, id] at hlt ⊢
  generalize nextAvailable.getD 0 = before at *
  generalize accumulated.getD t.size = stored at *
  generalize (if before < t.now then min t.size _ else stored) = available at hlt ⊢
  by_contra hleft
  have hborrowed : t.requested - min available t.requested = 0 := by omega
  rw [hborrowed, zero_mul, add_zero] at hlt
  omega

theorem evaluate_of_fits (h : t.Fits nextAvailable accumulated) :
    let exact := t.reckon .exact nextAvailable accumulated
    t.evaluate nextAvailable accumulated =
      if t.maxDebt < min maxSigned exact.nextAvailable - t.now ∨
          (0 < exact.wait ∧ t.maxWait < exact.wait) then .rejected
      else .admitted exact.wait ⟨min maxSigned exact.nextAvailable, exact.accumulated⟩ := by
  rw [evaluate, decide, reckon_saturating h]

theorem evaluate_of_overruns (h : t.Fits nextAvailable accumulated)
    (hover : t.Overruns nextAvailable accumulated) :
    t.evaluate nextAvailable accumulated =
      .admitted (t.reckon .exact nextAvailable accumulated).wait ⟨maxSigned, 0⟩ := by
  obtain ⟨hpast, hceiling, hwilling⟩ := hover
  rw [evaluate_of_fits h, if_neg (by omega), accumulated_of_lt h hpast, min_eq_left hpast.le]

/-- The decision is the exact one, unless the request overruns. -/
theorem evaluate_eq_exact_iff (h : t.Fits nextAvailable accumulated) :
    t.evaluate nextAvailable accumulated = t.decide .exact nextAvailable accumulated ↔
      ¬t.Overruns nextAvailable accumulated := by
  have hdebt : (t.reckon .exact nextAvailable accumulated).debt =
    (t.reckon .exact nextAvailable accumulated).nextAvailable - t.now := rfl
  constructor
  · intro hsame hover
    rw [evaluate_of_overruns h hover, decide] at hsame
    split at hsame
    · cases hsame
    · have hbooked := congrArg Cells.nextAvailable (Decision.admitted.inj hsame).2
      have hpast := hover.1
      change maxSigned = (t.reckon .exact nextAvailable accumulated).nextAvailable at hbooked
      omega
  · intro hwithin
    rw [evaluate_of_fits h, decide]
    unfold Overruns at hwithin
    generalize t.reckon .exact nextAvailable accumulated = exact at *
    rcases le_or_gt exact.nextAvailable maxSigned with hle | hpast
    · rw [min_eq_right hle, hdebt]
    · -- Either way the debt is too great or the caller is not willing to wait.
      rw [if_pos (by omega), if_pos (by omega)]

theorem debt_le_of_exact {wait : Int} {cells : Cells}
    (h : t.decide .exact nextAvailable accumulated = .admitted wait cells) :
    (t.reckon .exact nextAvailable accumulated).debt ≤ t.maxDebt := by
  rw [decide] at h
  split at h
  · cases h
  · omega

end Take

namespace Store

/-- The cells that a bucket is found with have 64 bits, whatever the clocks read before. -/
theorem fits_of_absent {keys : CellKeys} {s : Store} {l : Limits}
    (hkeys : keys.nextAvailable ≠ keys.accumulated) (hl : l.Sound) (hsigned : l.size ≤ maxSigned)
    (arrivals : List Arrival) (a : Arrival)
    (habsent : ∀ b ∈ arrivals ++ [a], s.Absent b.storeNow keys)
    (hclock : ∀ b ∈ arrivals ++ [a], 0 < b.now ∧ b.now ≤ maxSigned)
    (hrequested : ∀ b ∈ arrivals ++ [a], 1 ≤ b.requested) :
    let left := (serve keys l arrivals s).2
    (a.take l).Fits (left.get? a.storeNow keys.nextAvailable)
      (left.get? a.storeNow keys.accumulated) := by
  intro left
  have hlast : a ∈ arrivals ++ [a] := by simp
  have hrun : s.Upholds (fun _ cells => l.Leaves cells) keys l arrivals := by
    refine upholds_of_step hkeys hl hsigned arrivals
      (fun b hb => (hclock b (List.mem_append_left _ hb)).1)
      (fun b hb => habsent b (List.mem_append_left _ hb)) ?_ ?_
    · intro past b wait after hsublist _ h
      have hb := List.mem_append_left [a] (mem_of_append_sublist hsublist)
      exact (Limits.leaves_full hl (hclock b hb)).step hl (hclock b hb) (hrequested b hb) h
    · intro past cells b wait after hsublist hcells h
      have hb := List.mem_append_left [a] (mem_of_append_sublist hsublist)
      exact hcells.step hl (hclock b hb) (hrequested b hb) h
  have hsize := hl.size_pos
  rcases hrun.seen (habsent a hlast) with ⟨hnext, hacc⟩ | ⟨cells, hnext, hacc, hcells⟩
  · rw [hnext, hacc]
    exact ⟨by decide, ⟨by change 0 ≤ l.size; omega, le_refl l.size⟩, hsigned, hclock a hlast⟩
  · rw [hnext, hacc]
    exact ⟨⟨hcells.nextAvailable_nonneg, hcells.nextAvailable_le⟩,
      ⟨hcells.accumulated_nonneg, hcells.accumulated_le⟩, hsigned, hclock a hlast⟩

/-- A request is decided as in exact numbers, with the same wait and the same cells, if and only if
it does not overrun. One that does is admitted, and books the bucket up to the end of 64 bits. Where
the allowed debt stays below that end there is no such request, and the exact debt of an admitted
one is allowed. -/
theorem decided_exactly (hc : c.checkRanges location = .ok ()) (ns name : String) (s : Store)
    (arrivals : List Arrival) (a : Arrival)
    (habsent : ∀ b ∈ arrivals ++ [a], s.Absent b.storeNow (.of ns name))
    (hclock : ∀ b ∈ arrivals ++ [a], 0 < b.now ∧ b.now ≤ maxSigned)
    (hrequested : ∀ b ∈ arrivals ++ [a], 1 ≤ b.requested) :
    let keys := CellKeys.of ns name
    let left := (serve keys c.limits arrivals s).2
    let next := left.get? a.storeNow keys.nextAvailable
    let tokens := left.get? a.storeNow keys.accumulated
    let t := a.take c.limits
    let ceiling := c.maxDebtMillis.toInt * nanosPerMilli
    (left.decision a.storeNow keys t = t.decide .exact next tokens ↔ ¬t.Overruns next tokens) ∧
      (t.Overruns next tokens → left.decision a.storeNow keys t =
        .admitted (t.reckon .exact next tokens).wait ⟨maxSigned, 0⟩) ∧
      (a.now + ceiling < maxSigned → ¬t.Overruns next tokens ∧ ∀ wait cells,
        left.decision a.storeNow keys t = .admitted wait cells →
          (t.reckon .exact next tokens).debt ≤ ceiling) := by
  intro keys left next tokens t ceiling
  have hfits : t.Fits next tokens :=
    fits_of_absent (CellKeys.nextAvailable_ne_accumulated ns name) (BucketConfig.sound_limits hc)
      (Int64.toInt_le c.size) arrivals a habsent hclock hrequested
  have hexact := Take.evaluate_eq_exact_iff hfits
  have hceiling : t.maxDebt = ceiling := BucketConfig.maxDebt_limits hc
  refine ⟨hexact, Take.evaluate_of_overruns hfits, fun hbelow => ?_⟩
  have hwithin : ¬t.Overruns next tokens := by
    rintro ⟨-, hreaches, -⟩
    change maxSigned ≤ a.now + t.maxDebt at hreaches
    omega
  refine ⟨hwithin, fun wait cells hadmitted => ?_⟩
  rw [← hceiling]
  exact Take.debt_le_of_exact ((hexact.mpr hwithin).symm.trans hadmitted)

/-- All tokens of 64 bits are asked for, of a bucket that is in debt and allows almost as much debt
as there are nanoseconds: the sums stop at the end of 64 bits, and the request is still rejected. -/
theorem decided_exactly_rejected :
    let c : BucketConfig := ⟨1, 1, 0, 9223372036854, false⟩
    let keys := CellKeys.of "api" "search"
    let a : Arrival := ⟨0, 2000, 9223372036854775807, 9223372036854775807⟩
    let left := (serve keys c.limits [⟨0, 1000, 2, 0⟩] .empty).2
    let next := left.get? a.storeNow keys.nextAvailable
    let tokens := left.get? a.storeNow keys.accumulated
    let t := a.take c.limits
    c.checkRanges "search" = .ok () ∧ next = some 1000001000 ∧ tokens = some 0 ∧
      ¬t.Overruns next tokens ∧ t.decide .exact next tokens = .rejected ∧
      left.decision a.storeNow keys t = t.decide .exact next tokens := by
  intro c keys a left next tokens t
  have hc : c.checkRanges "search" = .ok () := by decide
  obtain ⟨hexact, -, hbelow⟩ := decided_exactly hc "api" "search" .empty [⟨0, 1000, 2, 0⟩] a
    (fun _ _ => ⟨rfl, rfl⟩) (by decide +kernel) (by decide +kernel)
  have hwithin := (hbelow (by decide +kernel)).1
  exact ⟨hc, by decide +kernel, by decide +kernel, hwithin, by decide +kernel, hexact.mpr hwithin⟩

/-- At a reading of the clock of the year 2023 the same debt reaches the end of 64 bits: all tokens
of 64 bits are given at once, and a bucket of one token is booked for ever. -/
theorem decided_exactly_overrun :
    let c : BucketConfig := ⟨1, 1, 0, 9223372036854, false⟩
    let t := c.limits.take 1700000000000000000 9223372036854775807 0
    c.checkRanges "search" = .ok () ∧
      Store.empty.decision 1700000000000000000 (.of "api" "search") t =
        .admitted 0 ⟨maxSigned, 0⟩ ∧
      t.decide .exact none none = .rejected ∧
      t.maxDebt < (t.reckon .exact none none).debt := by
  decide +kernel

end Store

end TokenQuota
