import TokenQuota.Proofs.TokenBucket.Runs

/-!
What it is worth to wait as told. A caller that obeys uses its tokens only once the debt of all
earlier callers is paid: however much a bucket lends, those who wait get no more than what it holds
when full and what comes in that time.
-/

namespace TokenQuota

theorem totalRequested_append (arrivals : List Arrival) (a : Arrival) :
    totalRequested (arrivals ++ [a]) = totalRequested arrivals + a.requested := by
  simp [totalRequested]

/-- The admissions of a bucket up to now, the cells that they left, and the reading at the first
one. Whoever is ready finds the tokens of all earlier admissions paid for by the time since. -/
structure Limits.Repaid (l : Limits) (first : Int) (admissions : List Admission) (cells : Cells) :
    Prop where
  leaves : l.Leaves cells
  potential_le : l.potential (totalRequested (admissions.map Admission.arrival)) cells ≤
    l.size * l.interval - first
  ready_le : ∀ x ∈ admissions, x.ready ≤ cells.nextAvailable
  ordered : (admissions.map Admission.ready).Pairwise (· ≤ ·)
  repaid : ∀ (j : Nat) (hj : j < admissions.length),
    l.interval * totalRequested ((admissions.take j).map Admission.arrival) ≤
      l.size * l.interval + (admissions[j].ready - first)

namespace Limits

variable {l : Limits} {a : Arrival} {first : Int} {past : List Admission} {start after : Cells}
  {wait : Int}

theorem repaid_nil (hl : l.Sound) (hclock : 0 < a.now ∧ a.now ≤ maxSigned) :
    l.Repaid a.now [] ⟨a.now, l.size⟩ where
  leaves := leaves_full hl hclock
  potential_le := by simp [potential, mul_comm]
  ready_le := by simp
  ordered := .nil
  repaid := by simp

theorem ready_of_admitted (h : (a.take l).evaluateCells start = .admitted wait after) :
    Admission.ready ⟨a, wait.toNat⟩ = max start.nextAvailable a.now := by
  have hwait := (Take.evaluateCells_admitted h).1
  change wait = max start.nextAvailable a.now - a.now at hwait
  change a.now + (wait.toNat : Int) = _
  omega

/-- Before a caller is ready, the tokens given so far are paid for. -/
theorem Repaid.interval_mul_le (hl : l.Sound) (h : l.Repaid first past start)
    {ready : Int} (hready : start.nextAvailable ≤ ready) :
    l.interval * totalRequested (past.map Admission.arrival) ≤
      l.size * l.interval + (ready - first) := by
  have hpotential := h.potential_le
  have hleft : 0 ≤ l.interval * start.accumulated :=
    mul_nonneg (by have := hl.interval_pos; omega) h.leaves.accumulated_nonneg
  simp only [potential, mul_add] at hpotential
  linarith

theorem Repaid.step (hl : l.Sound) (hpast : l.Repaid first past start)
    (hclock : 0 < a.now ∧ a.now + l.maxDebt < maxSigned) (hrequested : 1 ≤ a.requested)
    (h : (a.take l).evaluateCells start = .admitted wait after) :
    l.Repaid first (past ++ [⟨a, wait.toNat⟩]) after := by
  have hdebt := hl.maxDebt_nonneg
  have hready := ready_of_admitted h
  have hbooked := hpast.leaves.le_booked (by omega) h
  have hearlier : ∀ x ∈ past, x.ready ≤ start.nextAvailable := hpast.ready_le
  obtain ⟨-, hpotential, -⟩ := Arrival.potential_le hl hclock hpast.leaves.accumulated_nonneg
    (totalRequested (past.map Admission.arrival)) h
  refine ⟨hpast.leaves.step hl ⟨hclock.1, by omega⟩ hrequested h, ?_, ?_, ?_, ?_⟩
  · rw [List.map_append, List.map_singleton, totalRequested_append]
    exact hpotential.trans hpast.potential_le
  · intro x hx
    rcases List.mem_append.mp hx with hx | hx
    · have := hearlier x hx
      omega
    · rw [List.mem_singleton.mp hx, hready]
      exact hbooked
  · rw [List.map_append, List.pairwise_append]
    refine ⟨hpast.ordered, List.pairwise_singleton _ _, ?_⟩
    intro r hr r' hr'
    obtain ⟨x, hx, rfl⟩ := List.mem_map.mp hr
    have := hearlier x hx
    rw [List.mem_singleton.mp hr', hready]
    omega
  · intro j hj
    rw [List.length_append, List.length_singleton] at hj
    rcases Nat.lt_succ_iff_lt_or_eq.mp hj with hlt | rfl
    · rw [List.take_append_of_le_length hlt.le, List.getElem_append_left hlt]
      exact hpast.repaid j hlt
    · rw [List.take_left, List.getElem_concat_length rfl]
      exact hpast.interval_mul_le hl (by rw [hready]; omega)

end Limits

/-- Callers are ready in the order in which they were admitted. When one of them is, the tokens
admitted before its own are worth at most a full bucket and the time since the first admission, by
the clocks of the callers, and however much debt the bucket allows. -/
theorem Store.waits_repay {c : BucketConfig} {location : String}
    (hc : c.checkRanges location = .ok ()) (hidle : c.maxIdleMillis = 0) (ns name : String)
    (s : Store) (arrivals : List Arrival)
    (habsent : ∀ a ∈ arrivals, s.Absent a.storeNow (.of ns name))
    (hclock : ∀ a ∈ arrivals, 0 < a.now ∧ a.now + c.limits.maxDebt < maxSigned)
    (hrequested : ∀ a ∈ arrivals, 1 ≤ a.requested) :
    let admissions := s.admissions (.of ns name) c.limits arrivals
    (admissions.map Admission.ready).Pairwise (· ≤ ·) ∧
      ∀ (j : Nat) (hj : j < admissions.length),
        c.limits.interval * totalRequested ((admissions.take j).map Admission.arrival) ≤
          c.limits.size * c.limits.interval +
            (admissions[j].ready - admissions[0].arrival.now) := by
  have hl := BucketConfig.sound_limits hc
  have hnever : ¬0 < c.limits.maxIdleMillis := by
    rw [BucketConfig.maxIdleMillis_limits hidle]
    exact lt_irrefl 0
  have hrun : s.Upholds (fun past cells => ∃ first : Admission, past.head? = some first ∧
      c.limits.Repaid first.arrival.now past cells) (.of ns name) c.limits arrivals := by
    refine upholds_of_step (CellKeys.nextAvailable_ne_accumulated ns name) hl
      (Int64.toInt_le c.size) arrivals (fun a ha => (hclock a ha).1) habsent ?_ ?_
    · intro past a wait after hsublist hfirst h
      obtain rfl := hfirst.resolve_right hnever
      have ha := mem_of_append_sublist hsublist
      have hdebt := hl.maxDebt_nonneg
      have hnow := hclock a ha
      exact ⟨⟨a, wait.toNat⟩, rfl, (Limits.repaid_nil hl ⟨hnow.1, by omega⟩).step hl hnow
        (hrequested a ha) h⟩
    · rintro past cells a wait after hsublist ⟨first, hhead, hpast⟩ h
      have ha := mem_of_append_sublist hsublist
      refine ⟨first, ?_, hpast.step hl (hclock a ha) (hrequested a ha) h⟩
      rw [List.head?_append, hhead]
      rfl
  intro admissions
  rcases hrun with ⟨hnone, -⟩ | ⟨-, cells, -, -, first, hhead, hpast⟩
  · have hadmissions : admissions = [] := hnone
    simp [hadmissions]
  · refine ⟨hpast.ordered, fun j hj => ?_⟩
    have hfirst : admissions[0] = first := by
      apply Option.some.inj
      rw [← hhead, ← List.getElem?_eq_getElem, List.head?_eq_getElem?]
    rw [hfirst]
    exact hpast.repaid j hj

/-- Five tokens are lent. A caller whose clock is behind waits until they are paid for, and so does
the next one for the token lent to that. -/
theorem Store.waits_repay_borrowed :
    let c : BucketConfig := ⟨10, 1, 0, 701, false⟩
    let arrivals : List Arrival :=
      [⟨0, 1000000000000, 6, 0⟩, ⟨7, 999999900000, 1, 1000000000⟩, ⟨3, 1000000000000, 1, 600000000⟩]
    let admissions := Store.empty.admissions (.of "api" "search") c.limits arrivals
    c.checkRanges "search" = .ok () ∧ admissions.map Admission.wait = [0, 500100000, 600000000] ∧
      (admissions.map Admission.ready).Pairwise (· ≤ ·) ∧ ∃ _ : 2 < admissions.length,
        c.limits.interval * totalRequested ((admissions.take 2).map Admission.arrival) ≤
          c.limits.size * c.limits.interval +
            (admissions[2].ready - admissions[0].arrival.now) := by
  intro c arrivals
  have hc : c.checkRanges "search" = .ok () := by decide
  obtain ⟨hordered, hrepaid⟩ := waits_repay hc rfl "api" "search" .empty arrivals
    (fun _ _ => ⟨rfl, rfl⟩) (by decide +kernel) (by decide +kernel)
  exact ⟨hc, by decide +kernel, hordered, by decide +kernel, hrepaid 2 _⟩

end TokenQuota
