import Mathlib.Data.List.Chain
import TokenQuota.Proofs.TokenBucket.Spending

/-!
Which requests a bucket can serve at all, and which it never refuses. A bucket that had the time to
fill up gives what it holds and what may be borrowed, and nothing beyond that is ever given. Callers
that leave the time for their own tokens between each other are served at once.
-/

namespace TokenQuota

section Decision

variable {l : Limits} {a : Arrival} {cells : Cells}

/-- Whatever the cells hold, no more is given than the size and what may be borrowed. -/
theorem Limits.Leaves.rejected_of_lt (hl : l.Sound) (hcells : l.Leaves cells)
    (hnow : a.now + l.maxDebt < maxSigned) (h : l.maxDebt < (a.requested - l.size) * l.interval) :
    (a.take l).evaluateCells cells = .rejected := by
  have hdebt := hl.maxDebt_nonneg
  have hready := hcells.ready hl (show a.now ≤ maxSigned by omega)
  have hlent : (a.requested - l.size) * l.interval ≤
      (a.requested - min (l.ready a.now cells).accumulated a.requested) * l.interval := by
    have hle := hready.accumulated_le
    exact mul_le_mul_of_nonneg_right (by omega) hl.interval_nonneg
  have hlater := l.le_ready a.now cells
  rw [Arrival.evaluateCells_eq_spend hl hcells.nextAvailable_nonneg]
  refine if_pos (.inl ?_)
  simp only [Limits.spend]
  omega

theorem Limits.spend_full (hl : l.Sound) {now : Int} (hnow : now + l.maxDebt < maxSigned)
    {tokens : Int} (h : (tokens - l.size) * l.interval ≤ l.maxDebt) :
    l.spend ⟨now, l.size⟩ tokens =
      ⟨now + max ((tokens - l.size) * l.interval) 0, max (l.size - tokens) 0⟩ := by
  have hdebt := hl.maxDebt_nonneg
  rcases le_total tokens l.size with hle | hge
  · have hnone : (tokens - l.size) * l.interval ≤ 0 :=
      mul_nonpos_of_nonpos_of_nonneg (by omega) hl.interval_nonneg
    rw [spend_of_le (show now ≤ maxSigned by omega) hle, max_eq_right hnone,
      max_eq_left (by omega), add_zero]
  · have hlent : 0 ≤ (tokens - l.size) * l.interval := mul_nonneg (by omega) hl.interval_nonneg
    have hbelow : now + (tokens - l.size) * l.interval ≤ maxSigned := by omega
    rw [spend_of_ge hge, min_eq_right hbelow, max_eq_left hlent, max_eq_right (by omega)]

theorem Limits.Leaves.ready_of_filled (hl : l.Sound) (hsigned : l.size ≤ maxSigned)
    (hcells : l.Leaves cells) (h : cells.nextAvailable < a.now)
    (hfilled : l.size ≤ cells.accumulated + (a.now - cells.nextAvailable) / l.interval) :
    l.ready a.now cells = ⟨a.now, l.size⟩ := by
  rw [hcells.ready_of_lt hl hsigned h, min_eq_left hfilled]

theorem Limits.Leaves.admitted_of_ready {ready : Cells} (hl : l.Sound) (hcells : l.Leaves cells)
    (hready : l.ready a.now cells = ready) (hnow : ready.nextAvailable = a.now)
    (h : (l.spend ready a.requested).nextAvailable - a.now ≤ l.maxDebt) :
    (a.take l).evaluateCells cells = .admitted 0 (l.spend ready a.requested) := by
  rw [Arrival.evaluateCells_eq_spend hl hcells.nextAvailable_nonneg, hready, hnow, sub_self]
  exact if_neg (by omega)

theorem Limits.Leaves.admitted_of_full (hl : l.Sound) (hcells : l.Leaves cells)
    (hready : l.ready a.now cells = ⟨a.now, l.size⟩) (hnow : a.now + l.maxDebt < maxSigned)
    (h : (a.requested - l.size) * l.interval ≤ l.maxDebt) :
    (a.take l).evaluateCells cells = .admitted 0
      ⟨a.now + max ((a.requested - l.size) * l.interval) 0, max (l.size - a.requested) 0⟩ := by
  have hdebt := hl.maxDebt_nonneg
  have hspent := Limits.spend_full hl hnow h
  rw [hcells.admitted_of_ready hl hready rfl, hspent]
  rw [hspent]
  dsimp only
  omega

/-- The tokens that came since the bucket was out of debt are enough for the request. -/
theorem Limits.Leaves.admitted_of_paid (hl : l.Sound) (hsigned : l.size ≤ maxSigned)
    (hcells : l.Leaves cells) (hclock : cells.nextAvailable < a.now ∧ a.now ≤ maxSigned)
    (hrequested : 1 ≤ a.requested ∧ a.requested ≤ l.size)
    (hpaid : a.requested ≤ cells.accumulated + (a.now - cells.nextAvailable) / l.interval) :
    ∃ left, (a.take l).evaluateCells cells = .admitted 0 ⟨a.now, left⟩ ∧ l.Leaves ⟨a.now, left⟩ := by
  have hdebt := hl.maxDebt_nonneg
  have hready := hcells.ready_of_lt hl hsigned hclock.1
  have hleaves := hready ▸ hcells.ready hl hclock.2
  have henough := le_min hrequested.2 hpaid
  have hspent := Limits.spend_of_le (l := l) hleaves.nextAvailable_le henough
  have hadmitted := hcells.admitted_of_ready hl hready rfl (by rw [hspent]; dsimp only; omega)
  refine ⟨_, hadmitted.trans (congrArg _ hspent), ?_⟩
  rw [← hspent]
  exact hleaves.spend hl (by omega)

end Decision

namespace Store

variable {keys : CellKeys} {l : Limits} {s : Store}

/-- Requests leave cells within the limits to be found, or none. -/
theorem leaves_found (hkeys : keys.nextAvailable ≠ keys.accumulated) (hl : l.Sound)
    (arrivals : List Arrival) (harrivals : ∀ a ∈ arrivals, a.now ≤ maxSigned ∧ 0 ≤ a.requested)
    (habsent : ∀ a ∈ arrivals, s.Absent a.storeNow keys) {now : Int} (hnow : s.Absent now keys) :
    l.Leaves ((serve keys l arrivals s).2.found now keys l) := by
  have hkept := keeps_leaves (l := l) hkeys (arrivals.map fun a => (l, a))
    (List.forall_mem_map.mpr fun _ _ => ⟨hl, le_refl l.size⟩) (List.forall_mem_map.mpr harrivals)
    (List.forall_mem_map.mpr habsent)
  rw [serve_eq_serveEach]
  rcases hkept.found hnow l with hfull | hcells
  · exact hfull ▸ Limits.leaves_absent hl (le_refl l.size)
  · exact hcells.1

/-- After any requests, a bucket without cells, or one that had the time to fill up since it was out
of debt, gives at once whatever is within its size and what may be borrowed. What is beyond that is
rejected at any time, however long its caller is willing to wait. -/
theorem feasible_within_debt {c : BucketConfig} {location : String}
    (hc : c.checkRanges location = .ok ()) (ns name : String) (s : Store)
    (arrivals : List Arrival) (a : Arrival)
    (habsent : ∀ b ∈ arrivals ++ [a], s.Absent b.storeNow (.of ns name))
    (harrivals : ∀ b ∈ arrivals, b.now ≤ maxSigned ∧ 0 ≤ b.requested)
    (hnow : 0 < a.now ∧ a.now + c.limits.maxDebt < maxSigned) :
    let keys := CellKeys.of ns name
    let left := (serve keys c.limits arrivals s).2
    let result := (left.take a.storeNow keys (a.take c.limits)).1
    let lent := (a.requested - c.limits.size) * c.limits.interval
    (lent ≤ c.limits.maxDebt →
        (left.Absent a.storeNow keys ∨ ∃ next,
          left.get? a.storeNow keys.nextAvailable = some next ∧
            next + c.limits.size * c.limits.interval ≤ a.now) →
        result = .admitted 0 ⟨a.now + max lent 0, max (c.limits.size - a.requested) 0⟩) ∧
      (c.limits.maxDebt < lent → result = .rejected) := by
  intro keys left result lent
  have hl := BucketConfig.sound_limits hc
  have hsigned : c.limits.size ≤ maxSigned := Int64.toInt_le c.size
  have hfound : c.limits.Leaves (left.found a.storeNow keys c.limits) :=
    leaves_found (CellKeys.nextAvailable_ne_accumulated ns name) hl arrivals harrivals
      (fun b hb => habsent b (List.mem_append_left _ hb)) (habsent a (by simp))
  have hresult : result = (a.take c.limits).evaluateCells (left.found a.storeNow keys c.limits) :=
    take_fst _ _ _ _
  rw [hresult]
  refine ⟨fun hlent hrecovered => ?_, hfound.rejected_of_lt hl hnow.2⟩
  refine hfound.admitted_of_full hl ?_ hnow.2 hlent
  rcases hrecovered with hnone | ⟨next, hnext, hfilled⟩
  · rw [found_of_absent hnone] at hfound ⊢
    have hfresh : 0 ≤ (a.now - 0) / c.limits.interval :=
      Int.ediv_nonneg (by omega) hl.interval_nonneg
    exact hfound.ready_of_filled hl hsigned hnow.1 (le_add_of_nonneg_right hfresh)
  · have hbooked : (left.found a.storeNow keys c.limits).nextAvailable = next := by
      rw [found, hnext, Option.getD_some]
    have hworth : 1 ≤ c.limits.size * c.limits.interval :=
      one_le_mul_of_one_le_of_one_le hl.size_pos hl.interval_pos
    have hfresh : c.limits.size ≤
        (a.now - (left.found a.storeNow keys c.limits).nextAvailable) / c.limits.interval :=
      Int.le_ediv_of_mul_le (Int.lt_of_lt_of_le Int.one_pos hl.interval_pos) (by omega)
    exact hfound.ready_of_filled hl hsigned (by omega)
      (hfresh.trans (le_add_of_nonneg_left hfound.accumulated_nonneg))

/-- A bucket of five tokens that lends six: eleven are given at once, and again as soon as it has
filled up, while for twelve no wait is long enough. -/
theorem feasible_within_debt_borrowing :
    let c : BucketConfig := ⟨10, 5, 0, 600, false⟩
    let keys := CellKeys.of "api" "search"
    let left := (serve keys c.limits [⟨1000, 1000, 11, 0⟩] .empty).2
    let eleven : Arrival := ⟨1100001000, 1100001000, 11, 0⟩
    let twelve : Arrival := ⟨1100001000, 1100001000, 12, 9223372036854775807⟩
    c.checkRanges "search" = .ok () ∧
      left.get? 1100001000 keys.nextAvailable = some 600001000 ∧
      (left.take 1100001000 keys (eleven.take c.limits)).1 = .admitted 0 ⟨1700001000, 0⟩ ∧
      (left.take 1100001000 keys (twelve.take c.limits)).1 = .rejected := by
  intro c keys left eleven twelve
  have hc : c.checkRanges "search" = .ok () := by decide
  have hbooked : left.get? 1100001000 keys.nextAvailable = some 600001000 := by decide +kernel
  have heleven := (feasible_within_debt hc "api" "search" .empty [⟨1000, 1000, 11, 0⟩] eleven
    (fun _ _ => ⟨rfl, rfl⟩) (by decide) (by decide)).1 (by decide)
    (.inr ⟨600001000, hbooked, by decide⟩)
  have htwelve := (feasible_within_debt hc "api" "search" .empty [⟨1000, 1000, 11, 0⟩] twelve
    (fun _ _ => ⟨rfl, rfl⟩) (by decide) (by decide)).2 (by decide)
  exact ⟨hc, hbooked, heleven.trans (by decide), htwelve⟩

/-- Every request finds absent cells, or the cells of a bucket that is paid for. -/
theorem serve_conforming (hkeys : keys.nextAvailable ≠ keys.accumulated) (hl : l.Sound)
    (hsigned : l.size ≤ maxSigned) {arrivals : List Arrival} {s' : Store}
    (hclock : ∀ a ∈ arrivals, 0 < a.now ∧ a.now ≤ maxSigned)
    (hrequested : ∀ a ∈ arrivals, 1 ≤ a.requested ∧ a.requested ≤ l.size)
    (hspaced : arrivals.IsChain fun a b => a.now + b.requested * l.interval ≤ b.now)
    (habsent : ∀ a ∈ arrivals, s.Absent a.storeNow keys)
    (h : Keeps (fun cells => l.Leaves cells ∧ ∀ a ∈ arrivals.head?,
      cells.nextAvailable + a.requested * l.interval ≤ a.now) keys s s') :
    (serve keys l arrivals s').1.map (fun x => (x.1, Verdict.ofResult x.2.result)) =
      arrivals.map fun a => (a, ⟨0, true⟩) := by
  induction arrivals generalizing s' with
  | nil => rfl
  | cons a rest ih =>
      obtain ⟨hnow, hnows⟩ := List.forall_mem_cons.mp hclock
      obtain ⟨hasked, hask⟩ := List.forall_mem_cons.mp hrequested
      obtain ⟨hnone, hnones⟩ := List.forall_mem_cons.mp habsent
      obtain ⟨hnext, hspaced⟩ := List.isChain_cons.mp hspaced
      have hserved : ∃ left, s'.decision a.storeNow keys (a.take l) = .admitted 0 ⟨a.now, left⟩ ∧
          l.Leaves ⟨a.now, left⟩ := by
        rw [decision_eq_evaluateCells]
        rcases h.found hnone l with hfull | ⟨hcells, hpaid⟩
        · rw [hfull]
          have hfresh : 0 ≤ (a.now - 0) / l.interval :=
            Int.ediv_nonneg (by omega) hl.interval_nonneg
          exact (Limits.leaves_absent hl (le_refl l.size)).admitted_of_paid hl hsigned hnow hasked
            (hasked.2.trans (le_add_of_nonneg_right hfresh))
        · have hpaid := hpaid a rfl
          have hworth : 1 ≤ a.requested * l.interval :=
            one_le_mul_of_one_le_of_one_le hasked.1 hl.interval_pos
          have hfresh := Int.le_ediv_of_mul_le (Int.lt_of_lt_of_le Int.one_pos hl.interval_pos)
            (show a.requested * l.interval ≤
              a.now - (s'.found a.storeNow keys l).nextAvailable by omega)
          exact hcells.admitted_of_paid hl hsigned ⟨by omega, hnow.2⟩ hasked
            (hfresh.trans (le_add_of_nonneg_left hcells.accumulated_nonneg))
      obtain ⟨left, hdecision, hleaves⟩ := hserved
      change (a, Verdict.ofResult (s'.take a.storeNow keys (a.take l)).1.result) ::
        (serve keys l rest (s'.take a.storeNow keys (a.take l)).2).1.map _ = _
      rw [take_of_admitted hdecision, ih hnows hask hspaced hnones
        (.inr ⟨l, a, _, leftBy_write hkeys s' l a _, hleaves, hnext⟩)]
      rfl

/-- From absent cells, requests within the size, each of which comes no sooner after the one before
it than its own tokens take to come, are all admitted at once, however long their callers are
willing to wait and whether the cells expire in between or not. -/
theorem conforming_admitted {c : BucketConfig} {location : String}
    (hc : c.checkRanges location = .ok ()) (ns name : String) (s : Store)
    (arrivals : List Arrival) (habsent : ∀ a ∈ arrivals, s.Absent a.storeNow (.of ns name))
    (hclock : ∀ a ∈ arrivals, 0 < a.now ∧ a.now ≤ maxSigned)
    (hrequested : ∀ a ∈ arrivals, 1 ≤ a.requested ∧ a.requested ≤ c.limits.size)
    (hspaced : arrivals.IsChain fun a b => a.now + b.requested * c.limits.interval ≤ b.now) :
    (serve (.of ns name) c.limits arrivals s).1.map
        (fun x => (x.1, Verdict.ofResult x.2.result)) =
      arrivals.map fun a => (a, ⟨0, true⟩) :=
  serve_conforming (CellKeys.nextAvailable_ne_accumulated ns name) (BucketConfig.sound_limits hc)
    (Int64.toInt_le c.size) hclock hrequested hspaced habsent (.inl rfl)

/-- The whole bucket, one token while its cells are kept, and two when they have expired. -/
theorem conforming_admitted_irregular :
    let c : BucketConfig := ⟨10, 5, 150, 0, false⟩
    let keys := CellKeys.of "api" "search"
    let arrivals : List Arrival :=
      [⟨1000, 1000, 5, 0⟩, ⟨100001234, 100001234, 1, 0⟩, ⟨400000000, 400000000, 2, 7⟩]
    let kept := (serve keys c.limits (arrivals.take 1) .empty).2
    let expired := (serve keys c.limits (arrivals.take 2) .empty).2
    c.checkRanges "search" = .ok () ∧
      kept.get? 100001234 keys.nextAvailable = some 1000 ∧
      expired.get? 400000000 keys.nextAvailable = none ∧
      (serve keys c.limits arrivals .empty).1.map
          (fun x => (x.1, Verdict.ofResult x.2.result)) =
        arrivals.map fun a => (a, ⟨0, true⟩) := by
  intro c keys arrivals kept expired
  have hc : c.checkRanges "search" = .ok () := by decide
  exact ⟨hc, by decide +kernel, by decide +kernel,
    conforming_admitted hc "api" "search" .empty arrivals (fun _ _ => ⟨rfl, rfl⟩) (by decide)
      (by decide) (by decide)⟩

end Store

end TokenQuota
