import TokenQuota.Proofs.TokenBucket.Runs

/-!
What the cells of a bucket hold when its requests come in the order of one clock. A bucket that
holds tokens owes none, so that the time up to which it is booked lies within the allowed debt after
the last admission, and a wait within the allowed debt, too.
-/

namespace TokenQuota

/-- Cells as requests under the limits leave them when the last one is admitted at a reading that no
earlier one is after. -/
structure Limits.LeavesAt (l : Limits) (reading : Int) (cells : Cells) : Prop
    extends l.Leaves cells where
  reading_le : reading ≤ cells.nextAvailable
  le_maxDebt : cells.nextAvailable ≤ reading + l.maxDebt
  /-- There are no tokens while some are owed. -/
  unowed : 0 < cells.accumulated → cells.nextAvailable = reading

namespace Limits

variable {l : Limits} {a : Arrival} {reading : Int} {start after : Cells} {wait : Int}

theorem leavesAt_full (hl : l.Sound) (hclock : 0 < a.now ∧ a.now ≤ maxSigned) :
    l.LeavesAt a.now ⟨a.now, l.size⟩ where
  toLeaves := leaves_full hl hclock
  reading_le := le_refl a.now
  le_maxDebt := by have := hl.maxDebt_nonneg; change a.now ≤ a.now + l.maxDebt; omega
  unowed _ := rfl

/-- Tokens are left over only by a request that borrows none, from a bucket that owes none. -/
theorem LeavesAt.booked_of_left (hstart : l.LeavesAt reading start) (hlater : reading ≤ a.now)
    (hclock : 0 < a.now ∧ a.now ≤ maxSigned) (hrequested : 1 ≤ a.requested)
    (h : (a.take l).evaluateCells start = .admitted wait after) (hleft : 0 < after.accumulated) :
    after.nextAvailable = a.now := by
  obtain ⟨-, haccumulated, hnext, -⟩ := Take.evaluateCells_admitted h
  change after.accumulated = _ - min _ a.requested at haccumulated
  change after.nextAvailable = saturate (max start.nextAvailable a.now +
    saturate ((a.requested - min _ a.requested) * max l.interval 1)) at hnext
  have hborrowed : a.requested - min ((a.take l).available start) a.requested = 0 := by omega
  -- A bucket that still owes tokens has none, and is not refilled.
  have hpaid : start.nextAvailable ≤ a.now := by
    by_contra howed
    have hempty : start.accumulated = 0 := by
      have hnonneg := hstart.accumulated_nonneg
      by_contra hsome
      have := hstart.unowed (by omega)
      omega
    have havailable : (a.take l).available start = 0 := by
      rw [Take.available, if_neg (by change ¬start.nextAvailable < a.now; omega), hempty]
    omega
  rw [hnext, hborrowed, max_eq_right hpaid]
  simp only [saturate, minSigned, maxSigned] at *
  omega

theorem LeavesAt.step (hl : l.Sound) (hstart : l.LeavesAt reading start) (hlater : reading ≤ a.now)
    (hclock : 0 < a.now ∧ a.now ≤ maxSigned) (hrequested : 1 ≤ a.requested)
    (h : (a.take l).evaluateCells start = .admitted wait after) : l.LeavesAt a.now after where
  toLeaves := hstart.toLeaves.step hl hclock hrequested h
  reading_le := (le_max_right _ _).trans (hstart.le_booked hclock.2 h)
  le_maxDebt := by
    have hdebt : after.nextAvailable - a.now ≤ l.maxDebt := (Take.evaluateCells_admitted h).2.2.2.1
    omega
  unowed := hstart.booked_of_left hlater hclock hrequested h

end Limits

namespace Store

variable {s : Store} {keys : CellKeys} {l : Limits}

/-- Requests for one token or more, in the order of one clock that the store and all callers
read. -/
structure InOrder (arrivals : List Arrival) : Prop where
  clock : ∀ a ∈ arrivals, a.storeNow = a.now ∧ 0 < a.now ∧ a.now ≤ maxSigned
  ordered : arrivals.Pairwise fun a b => a.now ≤ b.now
  requested : ∀ a ∈ arrivals, 1 ≤ a.requested

theorem InOrder.of_append {arrivals rest : List Arrival} (h : InOrder (arrivals ++ rest)) :
    InOrder arrivals where
  clock a ha := h.clock a (List.mem_append_left _ ha)
  ordered := (List.pairwise_append.mp h.ordered).1
  requested a ha := h.requested a (List.mem_append_left _ ha)

theorem Absent.mono {now later : Int} (h : s.Absent now keys) (hle : now ≤ later) :
    s.Absent later keys := by
  have hkey : ∀ key, s.get? now key = none → s.get? later key = none := by
    intro key hnone
    unfold get? at hnone ⊢
    split
    · rename_i cell hcell
      simp only [hcell] at hnone
      obtain ⟨value, expiry⟩ := cell
      cases expiry with
      | none => simp [Cell.isLive] at hnone
      | some expiry =>
          simp only [Cell.isLive, decide_eq_true_eq, ite_eq_right_iff, reduceCtorEq, imp_false,
            not_lt] at hnone ⊢
          exact hnone.trans hle
    · rfl
  exact ⟨hkey _ h.1, hkey _ h.2⟩

theorem upholds_leavesAt (hkeys : keys.nextAvailable ≠ keys.accumulated) (hl : l.Sound)
    (hsigned : l.size ≤ maxSigned) {arrivals : List Arrival} (horder : InOrder arrivals)
    (habsent : ∀ a ∈ arrivals, s.Absent a.storeNow keys) :
    s.Upholds (fun past cells => ∃ last, past.getLast? = some last ∧
      l.LeavesAt last.arrival.now cells) keys l arrivals := by
  refine upholds_of_step hkeys hl hsigned arrivals (fun a ha => (horder.clock a ha).2.1) habsent
    ?_ ?_
  · intro past a wait after hsublist _ h
    have ha := mem_of_append_sublist hsublist
    have hclock := (horder.clock a ha).2
    exact ⟨_, List.getLast?_concat, (Limits.leavesAt_full hl hclock).step hl (le_refl a.now) hclock
      (horder.requested a ha) h⟩
  · rintro past cells a wait after hsublist ⟨last, hlast, hcells⟩ h
    have ha := mem_of_append_sublist hsublist
    have hlater : last.arrival.now ≤ a.now :=
      (List.pairwise_append.mp (horder.ordered.sublist hsublist)).2.2 last.arrival
        (List.mem_map_of_mem (List.mem_of_getLast? hlast)) a List.mem_cons_self
    exact ⟨_, List.getLast?_concat, hcells.step hl hlater (horder.clock a ha).2
      (horder.requested a ha) h⟩

/-- What a caller is told is what was done: it is admitted if and only if both cells were written,
and if it is rejected, nothing was. -/
theorem told_iff_written (s : Store) (now : Int) (keys : CellKeys) (t : Take) :
    let result := s.take now keys t
    let verdict := Verdict.ofResult result.1.result
    (verdict.admitted = true ↔ ∃ cells, result.1 = .admitted verdict.wait cells ∧
        result.2 = s.write keys cells (expiryAt now t)) ∧
      (verdict.admitted = false → verdict = ⟨0, false⟩ ∧ result.2 = s) := by
  cases h : s.decision now keys t with
  | rejected =>
      rw [take_of_rejected h]
      simp [Decision.result, rejectedResult, Verdict.ofResult]
  | admitted wait cells =>
      have hwait : 0 ≤ wait := Take.wait_nonneg h
      rw [take_of_admitted h]
      simp [Decision.result, Verdict.ofResult_of_nonneg hwait, Int.toNat_of_nonneg hwait]

/-- An admitted request waits until the bucket is out of the debt that it was found with. Its caller
is willing to, and the wait is within the allowed debt. -/
theorem wait_bounds {now wait : Int} {t : Take} {cells : Cells} (hnow : t.now ≤ maxSigned)
    (hmaxWait : 0 ≤ t.maxWait) (hseen : (s.get? now keys.nextAvailable).getD 0 ≤ maxSigned)
    (h : s.decision now keys t = .admitted wait cells) :
    wait = max 0 ((s.get? now keys.nextAvailable).getD 0 - t.now) ∧ wait ≤ t.maxWait ∧
      wait ≤ t.maxDebt := by
  rw [decision, Take.evaluate_eq_evaluateCells] at h
  obtain ⟨hwait, -, hnext, hdebt, hwilling⟩ := Take.evaluateCells_admitted h
  have hbooked : max ((s.get? now keys.nextAvailable).getD 0) t.now ≤ cells.nextAvailable :=
    hnext ▸ Take.le_booked (t := t) (max_le hseen hnow)
  dsimp only at hwait
  exact ⟨by omega, by omega, by omega⟩

/-- After every request, the cells that are seen hold no tokens beyond the size and none that are
owed, and book the bucket within the allowed debt from the last admission on. An admitted caller is
told to wait until the bucket is out of the debt that it was found with, which it was willing to and
which is within the allowed debt. It is told that it is admitted if and only if both cells were
written, and if it is rejected, the store is as it was. -/
theorem cells_bounded {c : BucketConfig} {location : String}
    (hc : c.checkRanges location = .ok ()) (ns name : String) (s : Store)
    (arrivals : List Arrival) (a : Arrival) (horder : InOrder (arrivals ++ [a]))
    (habsent : ∀ b ∈ arrivals ++ [a], s.Absent b.storeNow (.of ns name)) :
    let keys := CellKeys.of ns name
    let before := (serve keys c.limits arrivals s).2
    let after := (before.take a.storeNow keys (a.take c.limits)).2
    let decision := (before.take a.storeNow keys (a.take c.limits)).1
    let verdict := Verdict.ofResult decision.result
    (∀ now, a.now ≤ now → after.Absent now keys ∨ ∃ last cells,
      (s.admissions keys c.limits (arrivals ++ [a])).getLast? = some last ∧
        after.get? now keys.nextAvailable = some cells.nextAvailable ∧
        after.get? now keys.accumulated = some cells.accumulated ∧
        c.limits.LeavesAt last.arrival.now cells) ∧
    (verdict.admitted = true →
      (verdict.wait : Int) = max 0 ((before.get? a.storeNow keys.nextAvailable).getD 0 - a.now) ∧
        verdict.wait ≤ a.maxWait ∧ (verdict.wait : Int) ≤ c.limits.maxDebt) ∧
    (verdict.admitted = true ↔ ∃ cells, decision = .admitted verdict.wait cells ∧
      after = before.write keys cells (expiryAt a.storeNow (a.take c.limits))) ∧
    (verdict.admitted = false → verdict = ⟨0, false⟩ ∧ after = before) := by
  intro keys before after decision verdict
  have hl := BucketConfig.sound_limits hc
  have hkeys := CellKeys.nextAvailable_ne_accumulated ns name
  have hsigned : c.limits.size ≤ maxSigned := Int64.toInt_le c.size
  have ha : a ∈ arrivals ++ [a] := by simp
  obtain ⟨hclock, hpos, hnow⟩ := horder.clock a ha
  have hbefore := upholds_leavesAt hkeys hl hsigned horder.of_append
    (fun b hb => habsent b (List.mem_append_left _ hb))
  have hafter := upholds_leavesAt hkeys hl hsigned horder habsent
  have htold := told_iff_written before a.storeNow keys (a.take c.limits)
  refine ⟨fun now hle => ?_, fun hadmitted => ?_, htold⟩
  · have hleft : after = (serve keys c.limits (arrivals ++ [a]) s).2 := by
      rw [serve_append_singleton]
    rw [hleft]
    exact (hafter.seen ((habsent a ha).mono (hclock ▸ hle))).imp_right
      fun ⟨cells, hnext, haccumulated, last, hadmission, hleaves⟩ =>
        ⟨last, cells, hadmission, hnext, haccumulated, hleaves⟩
  · have hseen : (before.get? a.storeNow keys.nextAvailable).getD 0 ≤ maxSigned := by
      rcases hbefore.seen (habsent a ha) with ⟨hnone, -⟩ | ⟨cells, hnext, -, last, -, hleaves⟩
      · rw [hnone]
        decide
      · rw [hnext]
        exact hleaves.nextAvailable_le
    have hmaxWait : 0 ≤ (a.take c.limits).maxWait := le_min (Int.natCast_nonneg _) (by decide)
    obtain ⟨cells, hdecision, -⟩ := htold.1.mp hadmitted
    obtain ⟨hwait, hle, hdebt⟩ :=
      wait_bounds hnow hmaxWait hseen ((take_fst _ _ _ _).symm.trans hdecision)
    exact ⟨hwait, Int.ofNat_le.mp (hle.trans (min_le_left _ _)), hdebt⟩

/-- Six tokens are lent, the cells expire, two more are lent, and a last caller waits for them. -/
theorem cells_bounded_expired :
    let c : BucketConfig := ⟨10, 1, 700, 600, false⟩
    let keys := CellKeys.of "api" "search"
    let arrivals : List Arrival := [⟨1000, 1000, 7, 0⟩, ⟨700001000, 700001000, 3, 0⟩]
    let a : Arrival := ⟨700001001, 700001001, 1, 300000000⟩
    let before := (serve keys c.limits arrivals .empty).2
    let after := (before.take a.storeNow keys (a.take c.limits)).2
    let decision := (before.take a.storeNow keys (a.take c.limits)).1
    c.checkRanges "search" = .ok () ∧ InOrder (arrivals ++ [a]) ∧
      (serve keys c.limits (arrivals.take 1) .empty).2.Absent 700001000 keys ∧
      Verdict.ofResult decision.result = ⟨199999999, true⟩ ∧
      ∃ last cells,
        (Store.empty.admissions keys c.limits (arrivals ++ [a])).getLast? = some last ∧
        after.get? 700001001 keys.nextAvailable = some cells.nextAvailable ∧
        after.get? 700001001 keys.accumulated = some cells.accumulated ∧
        c.limits.LeavesAt last.arrival.now cells := by
  intro c keys arrivals a before after decision
  have hc : c.checkRanges "search" = .ok () := by decide
  have horder : InOrder (arrivals ++ [a]) :=
    ⟨by decide +kernel, by decide +kernel, by decide +kernel⟩
  obtain ⟨hseen, -⟩ :=
    cells_bounded hc "api" "search" .empty arrivals a horder (fun _ _ => ⟨rfl, rfl⟩)
  refine ⟨hc, horder, ⟨by decide +kernel, by decide +kernel⟩, by decide +kernel, ?_⟩
  rcases hseen 700001001 (le_refl _) with ⟨hnone, -⟩ | hleft
  · exact absurd hnone (by decide +kernel)
  · exact hleft

end Store

end TokenQuota
