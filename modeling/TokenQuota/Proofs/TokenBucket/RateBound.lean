import Mathlib.Tactic.Ring
import TokenQuota.Proofs.TokenBucket.Evaluation

/-!
How many tokens a bucket gives in a stretch of time, whoever asks for them and whatever their
clocks read: what it holds when full, what comes in that time, and what may be borrowed.
-/

namespace TokenQuota

/-- A request that reaches a store, from a server with a clock of its own. -/
structure Arrival where
  /-- The reading of the clock of the store. -/
  storeNow : Int
  /-- The reading of the clock of the server. -/
  now : Int
  requested : Int
  maxWait : Nat

/-- The request as it is decided. -/
def Arrival.take (a : Arrival) (l : Limits) : Take :=
  l.take a.now a.requested a.maxWait

namespace Store

/-- Decides requests for one bucket, one after the other: the decisions, and the store that is
left. -/
def serve (keys : CellKeys) (l : Limits) :
    List Arrival → Store → List (Arrival × Decision) × Store
  | [], s => ([], s)
  | a :: rest, s =>
    let (decision, s) := s.take a.storeNow keys (a.take l)
    let (decisions, s) := serve keys l rest s
    ((a, decision) :: decisions, s)

/-- The requests that are admitted, in their order. -/
def granted (keys : CellKeys) (l : Limits) (arrivals : List Arrival) (s : Store) :
    List Arrival :=
  (serve keys l arrivals s).1.filterMap fun
    | (a, .admitted _ _) => some a
    | (_, .rejected) => none

@[simp] theorem granted_nil (keys : CellKeys) (l : Limits) (s : Store) :
    s.granted keys l [] = [] := rfl

theorem granted_cons_of_rejected {keys : CellKeys} {l : Limits} {a : Arrival} {s : Store}
    (h : s.decision a.storeNow keys (a.take l) = .rejected) (rest : List Arrival) :
    s.granted keys l (a :: rest) = s.granted keys l rest := by
  simp [granted, serve, take_of_rejected h]

theorem granted_cons_of_admitted {keys : CellKeys} {l : Limits} {a : Arrival} {s : Store}
    {wait : Int} {cells : Cells}
    (h : s.decision a.storeNow keys (a.take l) = .admitted wait cells) (rest : List Arrival) :
    s.granted keys l (a :: rest) =
      a :: (s.write keys cells (expiryAt a.storeNow (a.take l))).granted keys l rest := by
  simp [granted, serve, take_of_admitted h]

end Store

/-- The tokens of some requests together. -/
def totalRequested (arrivals : List Arrival) : Int :=
  (arrivals.map Arrival.requested).sum

@[simp] theorem totalRequested_nil : totalRequested [] = 0 := rfl

@[simp] theorem totalRequested_cons (a : Arrival) (rest : List Arrival) :
    totalRequested (a :: rest) = a.requested + totalRequested rest := by
  simp [totalRequested]

/-- The time that the tokens given so far and the tokens still there are worth, less the time
up to which the bucket is booked out. No request makes it greater. -/
def Limits.potential (l : Limits) (given : Int) (cells : Cells) : Int :=
  l.interval * (given + cells.accumulated) - cells.nextAvailable

theorem Arrival.available_nonneg {a : Arrival} {l : Limits} {cells : Cells} (hl : l.Sound)
    (hcells : 0 ≤ cells.accumulated) : 0 ≤ (a.take l).available cells := by
  have hsize := hl.size_pos
  have hfresh : (a.take l).now > cells.nextAvailable →
      0 ≤ ((a.take l).now - cells.nextAvailable) / max (a.take l).interval 1 :=
    fun h => Int.ediv_nonneg (by omega) (by omega)
  unfold Take.available
  split
  · rename_i hlt
    have hfresh := hfresh hlt
    change 0 ≤ min l.size _
    simp only [saturate, minSigned, maxSigned]
    omega
  · exact hcells

theorem Arrival.available_le {a : Arrival} {l : Limits} {cells : Cells} {bound : Int}
    (hsize : l.size ≤ bound) (hcells : cells.nextAvailable < a.now ∨ cells.accumulated ≤ bound) :
    (a.take l).available cells ≤ bound := by
  unfold Take.available
  split
  · exact (min_le_left _ _).trans hsize
  · rename_i hge
    exact hcells.resolve_left hge

/-- One admission: from no more tokens than the size, no more than the size are left. -/
theorem Arrival.accumulated_of_admitted {a : Arrival} {l : Limits} {before after : Cells}
    {wait : Int} (hl : l.Sound) (hbefore : 0 ≤ before.accumulated ∧ before.accumulated ≤ l.size)
    (hrequested : 1 ≤ a.requested)
    (h : (a.take l).evaluateCells before = .admitted wait after) :
    0 ≤ after.accumulated ∧ after.accumulated ≤ l.size := by
  have hnonneg := Arrival.available_nonneg (a := a) hl hbefore.1
  have hle := Arrival.available_le (a := a) (le_refl l.size) (.inr hbefore.2)
  have hleft := (Take.evaluateCells_admitted h).2.1
  have hasked : (a.take l).requested = a.requested := rfl
  rw [hasked] at hleft
  omega

/-- Refilling turns time into tokens, and never gives more than the time is worth. -/
theorem Arrival.interval_mul_available_le {a : Arrival} {l : Limits} {cells : Cells}
    (hl : l.Sound) (hcells : 0 ≤ cells.accumulated) :
    l.interval * (a.take l).available cells - max cells.nextAvailable a.now ≤
      l.interval * cells.accumulated - cells.nextAvailable := by
  have hinterval : max (a.take l).interval 1 = l.interval := max_eq_left hl.interval_pos
  have hpos : 0 < l.interval := hl.interval_pos
  rw [Take.available, hinterval]
  change l.interval * (if cells.nextAvailable < a.now then _ else _) - _ ≤ _
  split
  · -- Out of debt: the whole tokens that came since are worth no more than the time since.
    rename_i hlt
    have hworth : l.interval * ((a.now - cells.nextAvailable) / l.interval) ≤
        a.now - cells.nextAvailable := Int.mul_ediv_self_le (by omega)
    have hfresh : 0 ≤ (a.now - cells.nextAvailable) / l.interval :=
      Int.ediv_nonneg (by omega) (by omega)
    have hmin : min l.size (saturate (cells.accumulated +
        (a.now - cells.nextAvailable) / l.interval)) ≤
          cells.accumulated + (a.now - cells.nextAvailable) / l.interval :=
      (min_le_right _ _).trans
        (saturate_le_self (by simp only [minSigned]; omega))
    have hmul := mul_le_mul_of_nonneg_left hmin hpos.le
    rw [mul_add] at hmul
    change l.interval * min l.size (saturate (cells.accumulated +
      (a.now - cells.nextAvailable) / l.interval)) - _ ≤ _
    have hmax : max cells.nextAvailable a.now = a.now := max_eq_right hlt.le
    linarith
  · rename_i hge
    rw [max_eq_left (not_lt.mp hge)]

/-- One admission: the potential does not grow, and the bucket runs ahead of the clock of the
server by no more than its debt. -/
theorem Arrival.potential_le {a : Arrival} {l : Limits} {before after : Cells} {wait : Int}
    (hl : l.Sound) (hclock : 0 < a.now ∧ a.now + l.maxDebt < maxSigned)
    (hbefore : 0 ≤ before.accumulated) (given : Int)
    (h : (a.take l).evaluateCells before = .admitted wait after) :
    0 ≤ after.accumulated ∧ l.potential (given + a.requested) after ≤ l.potential given before ∧
      after.nextAvailable ≤ a.now + l.maxDebt := by
  obtain ⟨-, hleft, hnext, hdebt, -⟩ := Take.evaluateCells_admitted h
  have hinterval : max (a.take l).interval 1 = l.interval := max_eq_left hl.interval_pos
  have hrequested : (a.take l).requested = a.requested := rfl
  have hnow : (a.take l).now = a.now := rfl
  have hmaxDebt : (a.take l).maxDebt = l.maxDebt := rfl
  rw [hinterval, hrequested, hnow] at hnext
  rw [hrequested] at hleft
  rw [hnow, hmaxDebt] at hdebt
  have havailable := Arrival.available_nonneg (a := a) hl hbefore
  have hworth := Arrival.interval_mul_available_le (a := a) hl hbefore
  generalize (a.take l).available before = available at *
  -- The booked time is below the end of 64 bits, so that neither sum stopped there.
  have houter : max before.nextAvailable a.now +
      saturate ((a.requested - min available a.requested) * l.interval) ≤
        after.nextAvailable := by
    rw [hnext]
    exact le_saturate_of_lt (by omega)
  have hinner : (a.requested - min available a.requested) * l.interval ≤
      saturate ((a.requested - min available a.requested) * l.interval) :=
    le_saturate_of_lt (by omega)
  refine ⟨by omega, ?_, by omega⟩
  have hsplit : l.interval * (given + a.requested + after.accumulated) =
      l.interval * given + (a.requested - min available a.requested) * l.interval +
        l.interval * available := by
    rw [hleft]
    ring
  have hbeforeSplit : l.interval * (given + before.accumulated) =
      l.interval * given + l.interval * before.accumulated := by
    ring
  unfold Limits.potential
  rw [hsplit, hbeforeSplit]
  linarith

/-- Up to every admitted request, the tokens are worth no more than a bound, the time of that
request and the debt. -/
def Store.GrantsWithin (s : Store) (keys : CellKeys) (l : Limits) (arrivals : List Arrival)
    (given bound : Int) : Prop :=
  ∀ (j : Nat) (hj : j < (s.granted keys l arrivals).length),
    l.interval * (given + totalRequested ((s.granted keys l arrivals).take (j + 1))) ≤
      bound + (s.granted keys l arrivals)[j].now + l.maxDebt

/-- An admission that leaves the potential below the bound comes before requests that keep
it. -/
theorem Store.grantsWithin_cons {keys : CellKeys} {l : Limits} {s : Store} {a : Arrival}
    {rest : List Arrival} {wait given bound : Int} {after : Cells} (hl : l.Sound)
    (hdecision : s.decision a.storeNow keys (a.take l) = .admitted wait after)
    (hafter : 0 ≤ after.accumulated)
    (hpotential : l.potential (given + a.requested) after ≤ bound)
    (hahead : after.nextAvailable ≤ a.now + l.maxDebt)
    (hrest : (s.write keys after (expiryAt a.storeNow (a.take l))).GrantsWithin keys l rest
      (given + a.requested) bound) :
    s.GrantsWithin keys l (a :: rest) given bound := by
  intro j hj
  simp only [granted_cons_of_admitted hdecision] at hj ⊢
  cases j with
  | zero =>
      have hleft : 0 ≤ l.interval * after.accumulated :=
        mul_nonneg (by have := hl.interval_pos; omega) hafter
      simp only [Limits.potential, mul_add] at hpotential
      simp only [zero_add, List.take_succ_cons, List.take_zero, totalRequested_cons,
        totalRequested_nil, add_zero, List.getElem_cons_zero, mul_add]
      linarith
  | succ j =>
      have hlater := hrest j (by simpa using hj)
      simp only [List.take_succ_cons, totalRequested_cons, List.getElem_cons_succ]
      rw [← add_assoc]
      exact hlater

/-- Over a run: from cells whose potential is below a bound, the bound is kept. -/
theorem Store.grantsWithin_of_holds {keys : CellKeys} {l : Limits} {s : Store} {cells : Cells}
    {given bound : Int} (hkeys : keys.nextAvailable ≠ keys.accumulated) (hl : l.Sound)
    (hidle : l.maxIdleMillis = 0) (hs : s.Holds keys cells) (hcells : 0 ≤ cells.accumulated)
    (hbound : l.potential given cells ≤ bound) (arrivals : List Arrival)
    (hclock : ∀ a ∈ arrivals, 0 < a.now ∧ a.now + l.maxDebt < maxSigned) :
    s.GrantsWithin keys l arrivals given bound := by
  -- Rejections leave the store alone, and admissions leave the potential below the bound.
  induction arrivals generalizing s cells given with
  | nil =>
      intro j hj
      simp at hj
  | cons a rest ih =>
      have hrest : ∀ a ∈ rest, 0 < a.now ∧ a.now + l.maxDebt < maxSigned := by
        intro a ha
        exact hclock a (List.mem_cons_of_mem _ ha)
      cases hdecision : s.decision a.storeNow keys (a.take l) with
      | rejected =>
          intro j hj
          simp only [granted_cons_of_rejected hdecision] at hj ⊢
          exact ih hs hcells hbound hrest j hj
      | admitted wait after =>
          obtain ⟨hafter, hpotential, hahead⟩ := Arrival.potential_le hl (hclock a (by simp))
            hcells given ((decision_of_holds hs _ _).symm.trans hdecision)
          have hpotential := hpotential.trans hbound
          refine grantsWithin_cons hl hdecision hafter hpotential hahead
            (ih ?_ hafter hpotential hrest)
          rw [expiryAt_eq_none hidle]
          exact holds_write hkeys after

/-- Nothing changes before the first admission. It leaves the potential below a bound if it is
decided like a request on cells whose potential is below that bound. -/
theorem Store.grantsWithin_of_first {keys : CellKeys} {l : Limits} {s : Store} {bound : Int}
    (hkeys : keys.nextAvailable ≠ keys.accumulated) (hl : l.Sound) (hidle : l.maxIdleMillis = 0)
    (arrivals : List Arrival) (hclock : ∀ a ∈ arrivals, 0 < a.now ∧ a.now + l.maxDebt < maxSigned)
    (hstart : ∀ a ∈ arrivals, ∃ start : Cells, 0 ≤ start.accumulated ∧
      s.decision a.storeNow keys (a.take l) = (a.take l).evaluateCells start ∧
      ((s.granted keys l arrivals).head? = some a → l.potential 0 start ≤ bound)) :
    s.GrantsWithin keys l arrivals 0 bound := by
  induction arrivals with
  | nil =>
      intro j hj
      simp at hj
  | cons a rest ih =>
      have hrest : ∀ a ∈ rest, 0 < a.now ∧ a.now + l.maxDebt < maxSigned := by
        intro a ha
        exact hclock a (List.mem_cons_of_mem _ ha)
      cases hdecision : s.decision a.storeNow keys (a.take l) with
      | rejected =>
          rw [granted_cons_of_rejected hdecision] at hstart
          intro j hj
          simp only [granted_cons_of_rejected hdecision] at hj ⊢
          exact ih hrest (fun a ha => hstart a (List.mem_cons_of_mem _ ha)) j hj
      | admitted wait after =>
          obtain ⟨start, hcells, hsame, hbound⟩ := hstart a List.mem_cons_self
          rw [granted_cons_of_admitted hdecision, List.head?_cons] at hbound
          obtain ⟨hafter, hpotential, hahead⟩ := Arrival.potential_le hl
            (hclock a List.mem_cons_self) hcells 0 (hsame.symm.trans hdecision)
          have hpotential := hpotential.trans (hbound rfl)
          refine grantsWithin_cons hl hdecision hafter hpotential hahead
            (grantsWithin_of_holds hkeys hl hidle ?_ hafter hpotential rest hrest)
          rw [expiryAt_eq_none hidle]
          exact holds_write hkeys after

/-- The first admission finds a full bucket that is booked up to the clock of its server. -/
theorem Store.grantsWithin_of_absent {keys : CellKeys} {l : Limits} {s : Store}
    (hkeys : keys.nextAvailable ≠ keys.accumulated) (hl : l.Sound) (hidle : l.maxIdleMillis = 0)
    (hsize : l.size ≤ maxSigned) (arrivals : List Arrival)
    (habsent : ∀ a ∈ arrivals, s.Absent a.storeNow keys)
    (hclock : ∀ a ∈ arrivals, 0 < a.now ∧ a.now + l.maxDebt < maxSigned) (first : Arrival)
    (hfirst : (s.granted keys l arrivals).head? = some first) :
    s.GrantsWithin keys l arrivals 0 (l.size * l.interval - first.now) := by
  have hfull : 0 ≤ l.size := by
    have := hl.size_pos
    omega
  refine grantsWithin_of_first hkeys hl hidle arrivals hclock fun a ha => ?_
  refine ⟨⟨a.now, l.size⟩, hfull, ?_, fun hhead => ?_⟩
  · rw [decision_of_absent (habsent a ha)]
    exact Take.evaluate_none (hclock a ha).1 hfull hsize
  · rw [hfirst, Option.some.injEq] at hhead
    rw [hhead, Limits.potential, zero_add, mul_comm]

/-- The tokens given up to an admitted request are worth at most a full bucket, the time since
the first admitted request and the debt that the bucket allows. The clocks of the servers may
read anything, in any order, and so may the clock of the store. -/
theorem Store.granted_within_rate {c : BucketConfig} {location : String}
    (hc : c.checkRanges location = .ok ()) (hidle : c.maxIdleMillis = 0) (ns name : String)
    (s : Store) (arrivals : List Arrival)
    (habsent : ∀ a ∈ arrivals, s.Absent a.storeNow (.of ns name))
    (hclock : ∀ a ∈ arrivals, 0 < a.now ∧ a.now + c.limits.maxDebt < maxSigned)
    (j : Nat) (hj : j < (s.granted (.of ns name) c.limits arrivals).length) :
    c.limits.interval *
        totalRequested ((s.granted (.of ns name) c.limits arrivals).take (j + 1)) ≤
      c.limits.size * c.limits.interval +
        ((s.granted (.of ns name) c.limits arrivals)[j].now -
          (s.granted (.of ns name) c.limits arrivals)[0].now) + c.limits.maxDebt := by
  have hsize : c.limits.size ≤ maxSigned := Int64.toInt_le c.size
  have hbound := grantsWithin_of_absent (CellKeys.nextAvailable_ne_accumulated ns name)
    (BucketConfig.sound_limits hc) (BucketConfig.maxIdleMillis_limits hidle) hsize arrivals
    habsent hclock (s.granted (.of ns name) c.limits arrivals)[0]
    (List.head?_eq_getElem?.trans (List.getElem?_eq_getElem _)) j hj
  rw [zero_add] at hbound
  linarith

/-- A request that borrows, and one from a server whose clock is behind and that waits for the
debt to be paid: both are admitted. -/
theorem Store.granted_within_rate_borrowing :
    let c : BucketConfig := ⟨10, 1, 0, 601, false⟩
    let arrivals : List Arrival := [⟨0, 1000000000000, 6, 0⟩, ⟨7, 999999900000, 1, 1000000000⟩]
    let granted := Store.empty.granted (.of "api" "search") c.limits arrivals
    c.checkRanges "search" = .ok () ∧ c.maxIdleMillis = 0 ∧ ∃ _ : 1 < granted.length,
      c.limits.interval * totalRequested (granted.take 2) ≤
        c.limits.size * c.limits.interval + (granted[1].now - granted[0].now) +
          c.limits.maxDebt := by
  intro c arrivals granted
  have hc : c.checkRanges "search" = .ok () := by decide
  have hlength : 1 < granted.length := by decide +kernel
  refine ⟨hc, rfl, hlength, ?_⟩
  exact granted_within_rate hc rfl "api" "search" .empty arrivals (fun _ _ => ⟨rfl, rfl⟩)
    (by decide +kernel) 1 hlength

end TokenQuota
