import TokenQuota.Proofs.TokenBucket.Runs

/-!
What a bucket gives after its limits were changed. The tokens that it holds are brought down to the
new size when they are refilled, and not before: until the clock has passed the time up to which the
bucket is booked, tokens beyond the new size may still be spent.
-/

namespace TokenQuota

/-- To bring a bucket that is out of debt up to the clock is no part of the decision. -/
theorem Take.evaluateCells_refilled {t : Take} {cells : Cells} (h : cells.nextAvailable < t.now) :
    t.evaluateCells cells = t.evaluateCells ⟨t.now, t.available cells⟩ := by
  simp [evaluateCells, evaluate, decide, reckon, Arithmetic.saturating, available, h]

namespace Store

variable {s s' : Store} {keys : CellKeys} {l : Limits}

theorem get?_of_pair_eq (h : s.pair keys = s'.pair keys) (now : Int) :
    s.get? now keys.nextAvailable = s'.get? now keys.nextAvailable ∧
      s.get? now keys.accumulated = s'.get? now keys.accumulated := by
  obtain ⟨hnext, haccumulated⟩ := Prod.mk.inj h
  unfold get?
  rw [hnext, haccumulated]
  exact ⟨rfl, rfl⟩

/-- Both cells of the bucket are there for good, with no more tokens than its size. -/
def HoldsWithin (s : Store) (keys : CellKeys) (size : Int) : Prop :=
  ∃ cells, s.Holds keys cells ∧ 0 ≤ cells.accumulated ∧ cells.accumulated ≤ size

theorem HoldsWithin.of_pair_eq {size : Int} (h : s'.HoldsWithin keys size)
    (hpair : s.pair keys = s'.pair keys) : s.HoldsWithin keys size := by
  obtain ⟨cells, hholds, hbounds⟩ := h
  refine ⟨cells, fun now => ?_, hbounds⟩
  obtain ⟨hnext, haccumulated⟩ := get?_of_pair_eq hpair now
  rw [hnext, haccumulated]
  exact hholds now

/-- Requests for a bucket without cells leave none, or tokens within its size. -/
theorem serve_of_absent (hkeys : keys.nextAvailable ≠ keys.accumulated) (hl : l.Sound)
    (hidle : l.maxIdleMillis = 0) (hsize : l.size ≤ maxSigned) (arrivals : List Arrival)
    (hrequested : ∀ a ∈ arrivals, 1 ≤ a.requested) (hclock : ∀ a ∈ arrivals, 0 < a.now)
    (habsent : ∀ a ∈ arrivals, s.Absent a.storeNow keys) :
    (serve keys l arrivals s).2 = s ∨ (serve keys l arrivals s).2.HoldsWithin keys l.size := by
  have hsizePos := hl.size_pos
  have hrun : s.Upholds (fun _ cells => 0 ≤ cells.accumulated ∧ cells.accumulated ≤ l.size)
      keys l arrivals := by
    refine upholds_of_step hkeys hl hsize arrivals hclock habsent ?_ ?_
    · intro past a wait after hsublist _ h
      exact Arrival.accumulated_of_admitted hl ⟨by change 0 ≤ l.size; omega, le_refl l.size⟩
        (hrequested a (mem_of_append_sublist hsublist)) h
    · intro past cells a wait after hsublist hcells h
      exact Arrival.accumulated_of_admitted hl hcells
        (hrequested a (mem_of_append_sublist hsublist)) h
  rcases hrun with ⟨-, hsame⟩ | ⟨_, cells, -, hleft, hcells⟩
  · exact .inl hsame
  · exact .inr ⟨cells, hleft.holds hidle, hcells⟩

/-- From cells that other limits left: what the first admission finds is within a bound, if the
bucket is refilled then, or held no more. -/
theorem grantsWithin_of_held {cells : Cells} {bound : Int}
    (hkeys : keys.nextAvailable ≠ keys.accumulated) (hl : l.Sound) (hidle : l.maxIdleMillis = 0)
    (hs : s.Holds keys cells) (hcells : 0 ≤ cells.accumulated) (hsize : l.size ≤ bound)
    (arrivals : List Arrival) (hclock : ∀ a ∈ arrivals, 0 < a.now ∧ a.now + l.maxDebt < maxSigned)
    (first : Arrival) (hfirst : (s.granted keys l arrivals).head? = some first)
    (hheld : cells.nextAvailable < first.now ∨ cells.accumulated ≤ bound) :
    s.GrantsWithin keys l arrivals 0 (bound * l.interval - first.now) := by
  refine grantsWithin_of_first hkeys hl hidle arrivals hclock fun a ha => ?_
  have hinterval : 0 ≤ l.interval := by
    have := hl.interval_pos
    omega
  rw [decision_of_holds hs]
  by_cases hrefill : cells.nextAvailable < a.now
  · refine ⟨⟨a.now, (a.take l).available cells⟩, Arrival.available_nonneg hl hcells,
      Take.evaluateCells_refilled hrefill, fun hhead => ?_⟩
    rw [hfirst, Option.some.injEq] at hhead
    subst hhead
    have hworth := mul_le_mul_of_nonneg_left (Arrival.available_le hsize hheld) hinterval
    simp only [Limits.potential, zero_add]
    linarith
  · refine ⟨cells, hcells, rfl, fun hhead => ?_⟩
    rw [hfirst, Option.some.injEq] at hhead
    subst hhead
    have hworth := mul_le_mul_of_nonneg_left (hheld.resolve_left hrefill) hinterval
    simp only [Limits.potential, zero_add]
    linarith

/-- After the limits of a bucket were changed, what it gives is bounded by the tokens that its first
admission under the new limits can find: the new size, or more if it holds more and is not refilled
then. -/
theorem grantsWithin_of_changed (bound : Int) {l' : Limits} {s₂ : Store}
    (hkeys : keys.nextAvailable ≠ keys.accumulated) (hl : l.Sound) (hl' : l'.Sound)
    (hidle : l.maxIdleMillis = 0) (hidle' : l'.maxIdleMillis = 0) (hsigned : l.size ≤ maxSigned)
    (hsigned' : l'.size ≤ maxSigned) (arrivals arrivals' : List Arrival)
    (habsent : ∀ a ∈ arrivals ++ arrivals', s.Absent a.storeNow keys)
    (hrequested : ∀ a ∈ arrivals, 1 ≤ a.requested) (hclock : ∀ a ∈ arrivals, 0 < a.now)
    (hspared : s₂.pair keys = (serve keys l arrivals s).2.pair keys)
    (hclock' : ∀ a ∈ arrivals', 0 < a.now ∧ a.now + l'.maxDebt < maxSigned) (first : Arrival)
    (hfirst : (s₂.granted keys l' arrivals').head? = some first) (hsize : l'.size ≤ bound)
    (hheld : ∀ n t, s₂.get? first.storeNow keys.nextAvailable = some n →
      s₂.get? first.storeNow keys.accumulated = some t → t ≤ l.size →
      n < first.now ∨ t ≤ bound) :
    s₂.GrantsWithin keys l' arrivals' 0 (bound * l'.interval - first.now) := by
  rcases serve_of_absent hkeys hl hidle hsigned arrivals hrequested hclock
    (fun a ha => habsent a (List.mem_append_left _ ha)) with hnone | hwithin
  · -- Nothing was admitted before the change, and the bucket counts as full at its new size.
    rw [hnone] at hspared
    have habsent' : ∀ a ∈ arrivals', s₂.Absent a.storeNow keys := by
      intro a ha
      obtain ⟨hnext, haccumulated⟩ := get?_of_pair_eq hspared a.storeNow
      obtain ⟨hnext', haccumulated'⟩ := habsent a (List.mem_append_right _ ha)
      exact ⟨hnext.trans hnext', haccumulated.trans haccumulated'⟩
    intro j hj
    have hbound := grantsWithin_of_absent hkeys hl' hidle' hsigned' arrivals' habsent' hclock' first
      hfirst j hj
    have hworth := mul_le_mul_of_nonneg_right hsize
      (show 0 ≤ l'.interval by have := hl'.interval_pos; omega)
    linarith
  · obtain ⟨cells, hholds, hnonneg, hle⟩ := hwithin.of_pair_eq hspared
    obtain ⟨hnext, haccumulated⟩ := hholds first.storeNow
    exact grantsWithin_of_held hkeys hl' hidle' hholds hnonneg hsize arrivals' hclock' first hfirst
      (hheld _ _ hnext haccumulated hle)

/-- The tokens that a bucket gives after its limits were changed are worth at most the greater one
of both sizes, the time since the first admission under the new limits and the new debt. The new
size takes the place of the greater one if at that admission the bucket is refilled, or holds no
more than the new size. -/
theorem granted_after_change {c c' : BucketConfig} {location location' : String}
    (hc : c.checkRanges location = .ok ()) (hc' : c'.checkRanges location' = .ok ())
    (hidle : c.maxIdleMillis = 0) (hidle' : c'.maxIdleMillis = 0) (ns name : String)
    (s s₂ : Store) (arrivals arrivals' : List Arrival)
    (habsent : ∀ a ∈ arrivals ++ arrivals', s.Absent a.storeNow (.of ns name))
    (hrequested : ∀ a ∈ arrivals, 1 ≤ a.requested) (hclock : ∀ a ∈ arrivals, 0 < a.now)
    (hspared : s₂.pair (.of ns name) =
      (serve (.of ns name) c.limits arrivals s).2.pair (.of ns name))
    (hclock' : ∀ a ∈ arrivals', 0 < a.now ∧ a.now + c'.limits.maxDebt < maxSigned)
    (j : Nat) (hj : j < (s₂.granted (.of ns name) c'.limits arrivals').length) :
    let granted := s₂.granted (.of ns name) c'.limits arrivals'
    let first := granted.get ⟨0, Nat.zero_lt_of_lt hj⟩
    let worth := c'.limits.interval * totalRequested (granted.take (j + 1))
    let later := granted[j].now - first.now + c'.limits.maxDebt
    worth ≤ max c.limits.size c'.limits.size * c'.limits.interval + later ∧
      ((∀ n t, s₂.get? first.storeNow (CellKeys.of ns name).nextAvailable = some n →
          s₂.get? first.storeNow (CellKeys.of ns name).accumulated = some t →
          n < first.now ∨ t ≤ c'.limits.size) →
        worth ≤ c'.limits.size * c'.limits.interval + later) := by
  have hl := BucketConfig.sound_limits hc
  have hl' := BucketConfig.sound_limits hc'
  have hkeys := CellKeys.nextAvailable_ne_accumulated ns name
  have hsigned : c.limits.size ≤ maxSigned := Int64.toInt_le c.size
  have hsigned' : c'.limits.size ≤ maxSigned := Int64.toInt_le c'.size
  have hchanged := fun bound => grantsWithin_of_changed bound hkeys hl hl'
    (BucketConfig.maxIdleMillis_limits hidle) (BucketConfig.maxIdleMillis_limits hidle') hsigned
    hsigned' arrivals arrivals' habsent hrequested hclock hspared hclock'
    ((s₂.granted (.of ns name) c'.limits arrivals').get ⟨0, Nat.zero_lt_of_lt hj⟩)
    (List.head?_eq_getElem?.trans (List.getElem?_eq_getElem _))
  intro granted first worth later
  constructor
  · have hbound := hchanged (max c.limits.size c'.limits.size) (le_max_right _ _)
      (fun _ _ _ _ hle => .inr (hle.trans (le_max_left _ _))) j hj
    rw [zero_add] at hbound
    linarith
  · intro hheld
    have hbound := hchanged c'.limits.size (le_refl _) (fun n t hn ht _ => hheld n t hn ht) j hj
    rw [zero_add] at hbound
    linarith

/-- A bucket of 100 tokens is cut down to 5, and asked again a moment later: it was refilled, and
does not give the 50 tokens that it still held. -/
theorem granted_after_change_refilled :
    let c : BucketConfig := .ofRate 1 100
    let c' : BucketConfig := .ofRate 1 5
    let s₂ := (serve (.of "api" "search") c.limits [⟨0, 1000, 1, 0⟩] .empty).2
    let arrivals' : List Arrival := [⟨0, 1001, 50, 0⟩, ⟨0, 1001, 4, 0⟩]
    let granted := s₂.granted (.of "api" "search") c'.limits arrivals'
    c.checkRanges "search" = .ok () ∧ c'.checkRanges "search" = .ok () ∧
      ∃ _ : granted.length = 1, c'.limits.interval * totalRequested (granted.take 1) ≤
        c'.limits.size * c'.limits.interval +
          (granted[0].now - granted[0].now + c'.limits.maxDebt) := by
  intro c c' s₂ arrivals' granted
  have hc : c.checkRanges "search" = .ok () := by decide
  have hc' : c'.checkRanges "search" = .ok () := by decide
  have hlength : granted.length = 1 := by decide +kernel
  refine ⟨hc, hc', hlength, ?_⟩
  have hbounds := granted_after_change hc hc' rfl rfl "api" "search" .empty s₂ [⟨0, 1000, 1, 0⟩]
    arrivals' (fun _ _ => ⟨rfl, rfl⟩) (by decide +kernel) (by decide +kernel) rfl
    (by decide +kernel) 0 (by decide +kernel)
  have hrefilled : ∃ h : 0 < granted.length, (granted.get ⟨0, h⟩).now = 1001 ∧
      s₂.get? (granted.get ⟨0, h⟩).storeNow (CellKeys.of "api" "search").nextAvailable =
        some 1000 := by
    decide +kernel
  obtain ⟨_, hlater, hstored⟩ := hrefilled
  refine hbounds.2 fun n t hn _ => .inl ?_
  rw [hlater, ← Option.some.inj (hstored.symm.trans hn)]
  decide

/-- At the very reading of the clock up to which the bucket is booked it is not refilled, and gives
50 of the tokens that it held under the old size: the new size alone is no bound. -/
theorem granted_after_change_unrefilled :
    let c : BucketConfig := .ofRate 1 100
    let c' : BucketConfig := .ofRate 1 5
    let s₂ := (serve (.of "api" "search") c.limits [⟨1000, 1000, 1, 0⟩] .empty).2
    let granted := s₂.granted (.of "api" "search") c'.limits [⟨1000, 1000, 50, 0⟩]
    c.checkRanges "search" = .ok () ∧ c'.checkRanges "search" = .ok () ∧
      ∃ _ : granted.length = 1, ¬c'.limits.interval * totalRequested (granted.take 1) ≤
        c'.limits.size * c'.limits.interval +
          (granted[0].now - granted[0].now + c'.limits.maxDebt) := by
  decide +kernel

end Store

end TokenQuota
