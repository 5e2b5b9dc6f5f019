import TokenQuota.Proofs.TokenBucket.Changing
import TokenQuota.Proofs.TokenBucket.Saturation

/-!
Nothing overflows when a request is decided. Only the sums and products that are meant to stop at
the ends of 64 bits may reach them: every difference and every quotient has 64 bits, whatever the
clocks read and however often the limits of the bucket were replaced.
-/

namespace TokenQuota

/-- The difference in 64 bits, unless it overflows. -/
def difference? (m n : Int) : Option Int :=
  if IsSigned (m - n) then some (m - n) else none

/-- The quotient in 64 bits, rounded toward zero, unless the divisor is zero or it overflows. -/
def quotient? (m n : Int) : Option Int :=
  if n ≠ 0 ∧ IsSigned (m.tdiv n) then some (m.tdiv n) else none

theorem difference?_eq_some {m n : Int} (hm : 0 ≤ m ∧ m ≤ maxSigned)
    (hn : 0 ≤ n ∧ n ≤ maxSigned) : difference? m n = some (m - n) := by
  refine if_pos ?_
  simp only [IsSigned, minSigned, maxSigned] at *
  omega

theorem quotient?_eq_some {m n : Int} (hm : 0 ≤ m ∧ m ≤ maxSigned) (hn : 1 ≤ n) :
    quotient? m n = some (m / n) := by
  have hnonneg : 0 ≤ m / n := Int.ediv_nonneg hm.1 (by omega)
  have hle : m / n ≤ m := Int.ediv_le_self n hm.1
  rw [quotient?, Int.tdiv_eq_ediv_of_nonneg hm.1]
  refine if_pos ⟨by omega, ?_⟩
  simp only [IsSigned, minSigned, maxSigned] at *
  omega

/-- Reckons a request as far as no difference and no quotient overflows. -/
def Take.reckon? (t : Take) (nextAvailable accumulated : Option Int) : Option Reckoning := do
  let interval := max t.interval 1
  let before := nextAvailable.getD 0
  let stored := accumulated.getD t.size
  let elapsed ← (if before < t.now then difference? t.now before else some 0)
  let fresh ← quotient? elapsed interval
  let available := if before < t.now then min t.size (saturate (stored + fresh)) else stored
  let start := if before < t.now then t.now else before
  let wait ← difference? start t.now
  let used := min available t.requested
  let deficit ← difference? t.requested used
  let next := saturate (start + saturate (deficit * interval))
  let left ← difference? available used
  let debt ← difference? next t.now
  return { elapsed, fresh, available, start, wait, used, deficit, nextAvailable := next,
           accumulated := left, debt }

theorem Take.reckon?_eq_some {t : Take} {nextAvailable accumulated : Option Int}
    (hbooked : 0 ≤ nextAvailable.getD 0 ∧ nextAvailable.getD 0 ≤ maxSigned)
    (htokens : 0 ≤ accumulated.getD t.size ∧ accumulated.getD t.size ≤ maxSigned)
    (hsize : 0 ≤ t.size ∧ t.size ≤ maxSigned) (hnow : 0 ≤ t.now ∧ t.now ≤ maxSigned)
    (hrequested : 0 ≤ t.requested ∧ t.requested ≤ maxSigned) :
    t.reckon? nextAvailable accumulated =
      some (t.reckon .saturating nextAvailable accumulated) := by
  simp only [reckon?, reckon, Arithmetic.saturating]
  generalize nextAvailable.getD 0 = before at *
  generalize accumulated.getD t.size = stored at *
  have helapsed : (if before < t.now then difference? t.now before else some 0) =
      some (if before < t.now then t.now - before else 0) := by
    split
    · exact difference?_eq_some hnow hbooked
    · rfl
  rw [helapsed, Option.bind_eq_bind, Option.bind_some]
  generalize helapsed : (if before < t.now then t.now - before else 0) = elapsed
  rw [quotient?_eq_some (by omega) (le_max_right _ _), Option.bind_some]
  have hfresh : 0 ≤ elapsed / max t.interval 1 := Int.ediv_nonneg (by omega) (by omega)
  have hfilled := saturate_mem (n := stored + elapsed / max t.interval 1) (by omega)
  generalize havailable : (if before < t.now then
    min t.size (saturate (stored + elapsed / max t.interval 1)) else stored) = available
  generalize hstart : (if before < t.now then t.now else before) = start
  have htaken : 0 ≤ available ∧ available ≤ maxSigned := by omega
  have hused : 0 ≤ min available t.requested ∧ min available t.requested ≤ maxSigned := by omega
  rw [difference?_eq_some (by omega) hnow, Option.bind_some,
    difference?_eq_some hrequested hused, Option.bind_some]
  have hborrowed : 0 ≤ (t.requested - min available t.requested) * max t.interval 1 :=
    mul_nonneg (by omega) (by omega)
  have hlent := saturate_mem hborrowed
  rw [difference?_eq_some htaken hused, Option.bind_some,
    difference?_eq_some (saturate_mem (by omega)) hnow, Option.bind_some]
  rfl

/-- The numbers of a well-formed configuration are taken as they are. -/
theorem BucketConfig.limits_eq {c : BucketConfig} {location : String}
    (hc : c.checkRanges location = .ok ()) :
    c.limits = ⟨nanosPerSecond / c.fillRate.toInt, c.size.toInt, c.maxIdleMillis.toInt,
      c.maxDebtMillis.toInt * nanosPerMilli⟩ := by
  have hdebt := BucketConfig.maxDebt_limits hc
  obtain ⟨⟨hrate, hfast⟩, -, hidle, -⟩ := BucketConfig.ranges_of_checkRanges hc
  have hinterval : 1 ≤ nanosPerSecond / c.fillRate.toInt :=
    Int.le_ediv_of_mul_le (by omega) (by simpa [nanosPerSecond] using hfast)
  rw [← hdebt]
  simp only [limits, max_eq_left hrate, max_eq_left hinterval, max_eq_left hidle]

/-- Cells expire at the very time that was set, or at the end of 64 bits if that is earlier. -/
theorem Store.expiryAt_eq {t : Take} {now : Int} (hnow : 0 ≤ now) :
    expiryAt now t = if 0 < t.maxIdleMillis then
      some (min maxSigned (now + t.maxIdleMillis * nanosPerMilli)) else none := by
  unfold expiryAt
  split
  · rename_i hidle
    rw [saturate_add_saturate hnow (mul_nonneg hidle.le (by decide))]
  · rfl

/-- The limits of the largest bucket. -/
def Limits.widest : Limits := ⟨1, maxSigned, 0, 0⟩

namespace Store

/-- Whatever limits a bucket had, its cells hold a time past the epoch and tokens of 64 bits. -/
theorem keeps_widest (ns name : String) (s : Store) (run : List (BucketConfig × Arrival))
    (hconfigs : ∀ x ∈ run, ∃ location, x.1.checkRanges location = .ok ())
    (hclocks : ∀ x ∈ run, 0 < x.2.now ∧ x.2.now ≤ maxSigned)
    (hrequested : ∀ x ∈ run, 1 ≤ x.2.requested)
    (habsent : ∀ x ∈ run, s.Absent x.2.storeNow (.of ns name)) :
    Keeps (fun cells => Limits.widest.Leaves cells ∧ 1 ≤ cells.nextAvailable) (.of ns name) s
      (serveEach (.of ns name) (run.map fun x => (x.1.limits, x.2)) s) := by
  have hsound : ∀ x ∈ run, x.1.limits.Sound ∧ x.1.limits.size ≤ Limits.widest.size := by
    intro x hx
    obtain ⟨location, hc⟩ := hconfigs x hx
    exact ⟨BucketConfig.sound_limits hc, Int64.toInt_le x.1.size⟩
  have harrivals : ∀ x ∈ run, x.2.now ≤ maxSigned ∧ 0 ≤ x.2.requested :=
    fun x hx => ⟨(hclocks x hx).2, Int.le_of_lt (hrequested x hx)⟩
  refine (keeps_leaves (CellKeys.nextAvailable_ne_accumulated ns name) _
    (List.forall_mem_map.mpr hsound) (List.forall_mem_map.mpr harrivals)
    (List.forall_mem_map.mpr habsent)).imp_right ?_
  rintro ⟨l, a, cells, hleft, hcells, y, hy, hbooked⟩
  obtain ⟨x, hx, rfl⟩ := List.mem_map.mp hy
  have hpast : 0 < x.2.now := (hclocks x hx).1
  exact ⟨l, a, cells, hleft, hcells, Int.lt_of_lt_of_le hpast hbooked⟩

/-- Nothing overflows while a request is decided, after any run of requests whose limits were
replaced any number of times: the cells that are stored hold a time past the epoch and tokens that
are not owed, every difference and quotient has 64 bits, the numbers of the configuration are taken
as they are, and the expiry is exact up to the end of 64 bits. -/
theorem nothing_overflows (ns name : String) (s : Store) (run : List (BucketConfig × Arrival))
    (c : BucketConfig) (a : Arrival)
    (hconfigs : ∀ x ∈ run ++ [(c, a)], ∃ location, x.1.checkRanges location = .ok ())
    (hclocks : ∀ x ∈ run ++ [(c, a)],
      (0 < x.2.storeNow ∧ x.2.storeNow ≤ maxSigned) ∧ 0 < x.2.now ∧ x.2.now ≤ maxSigned)
    (hrequested : ∀ x ∈ run ++ [(c, a)], 1 ≤ x.2.requested ∧ x.2.requested ≤ maxSigned)
    (habsent : ∀ x ∈ run ++ [(c, a)], s.Absent x.2.storeNow (.of ns name)) :
    let keys := CellKeys.of ns name
    let left := serveEach keys (run.map fun x => (x.1.limits, x.2)) s
    let next := left.get? a.storeNow keys.nextAvailable
    let tokens := left.get? a.storeNow keys.accumulated
    let t := a.take c.limits
    (left = s ∨ ∃ (cells : Cells) (expiry : Option Int), left.pair keys =
        (some ⟨cells.nextAvailable, expiry⟩, some ⟨cells.accumulated, expiry⟩) ∧
        1 ≤ cells.nextAvailable ∧ 0 ≤ cells.accumulated) ∧
      t.reckon? next tokens = some (t.reckon .saturating next tokens) ∧
      c.limits = ⟨nanosPerSecond / c.fillRate.toInt, c.size.toInt, c.maxIdleMillis.toInt,
        c.maxDebtMillis.toInt * nanosPerMilli⟩ ∧
      expiryAt a.storeNow t = if 0 < c.maxIdleMillis.toInt then
        some (min maxSigned (a.storeNow + c.maxIdleMillis.toInt * nanosPerMilli)) else none := by
  intro keys left next tokens t
  obtain ⟨hbefore, hlast⟩ := List.forall_mem_append.mp hconfigs
  obtain ⟨hclocks', hclock⟩ := List.forall_mem_append.mp hclocks
  obtain ⟨hasked, hask⟩ := List.forall_mem_append.mp hrequested
  obtain ⟨hnone, hnone'⟩ := List.forall_mem_append.mp habsent
  obtain ⟨location, hc⟩ := hlast (c, a) List.mem_cons_self
  obtain ⟨⟨hstore, -⟩, hnow, hend⟩ := hclock (c, a) List.mem_cons_self
  obtain ⟨hone, hsum⟩ := hask (c, a) List.mem_cons_self
  have habsent := hnone' (c, a) List.mem_cons_self
  dsimp only at hstore hnow hend hone hsum habsent
  have hl : c.limits.Sound := BucketConfig.sound_limits hc
  have hsigned : c.limits.size ≤ maxSigned := Int64.toInt_le c.size
  have hlimits := BucketConfig.limits_eq hc
  have hkept := keeps_widest ns name s run hbefore (fun x hx => (hclocks' x hx).2)
    (fun x hx => (hasked x hx).1) hnone
  refine ⟨?_, ?_, hlimits, ?_⟩
  · refine hkept.imp_right ?_
    rintro ⟨l, b, cells, hleft, hcells, hpast⟩
    exact ⟨cells, _, hleft, hpast, hcells.accumulated_nonneg⟩
  · have hfound : Limits.widest.Leaves (left.found a.storeNow keys c.limits) := by
      rcases hkept.found habsent c.limits with hfull | hcells
      · exact hfull ▸ Limits.leaves_absent hl hsigned
      · exact hcells.1
    exact Take.reckon?_eq_some ⟨hfound.nextAvailable_nonneg, hfound.nextAvailable_le⟩
      ⟨hfound.accumulated_nonneg, hfound.accumulated_le⟩ ⟨hl.size_nonneg, hsigned⟩
      ⟨hnow.le, hend⟩ ⟨Int.le_of_lt hone, hsum⟩
  · have hidle : t.maxIdleMillis = c.maxIdleMillis.toInt := congrArg Limits.maxIdleMillis hlimits
    rw [expiryAt_eq hstore.le, hidle]

/-- The largest bucket is emptied by a server whose clock has stopped at the end of 64 bits. Under
other limits, a server at the very beginning asks for as many tokens again. -/
theorem nothing_overflows_extreme :
    let first : BucketConfig := ⟨1, 9223372036854775807, 0, 9223372036854, false⟩
    let c : BucketConfig := ⟨1000000000, 1, 9223372036854775807, 9223372036854, false⟩
    let run : List (BucketConfig × Arrival) :=
      [(first, ⟨1, 9223372036854775807, 9223372036854775807, 0⟩)]
    let a : Arrival := ⟨9223372036854775807, 1, 9223372036854775807, 9223372036854775807⟩
    let left := serveEach (.of "api" "search") (run.map fun x => (x.1.limits, x.2)) .empty
    let next := left.get? a.storeNow (CellKeys.of "api" "search").nextAvailable
    let tokens := left.get? a.storeNow (CellKeys.of "api" "search").accumulated
    let t := a.take c.limits
    (∀ x ∈ run ++ [(c, a)], x.1.checkRanges "search" = .ok ()) ∧
      next = some maxSigned ∧ tokens = some 0 ∧
      (t.reckon .saturating next tokens).wait = maxSigned - 1 ∧
      (t.reckon .saturating next tokens).deficit = maxSigned ∧
      t.reckon? next tokens = some (t.reckon .saturating next tokens) ∧
      expiryAt a.storeNow t = some maxSigned := by
  intro first c run a left next tokens t
  have hconfigs : ∀ x ∈ run ++ [(c, a)], x.1.checkRanges "search" = .ok () := by decide
  obtain ⟨-, hreckon, -, hexpiry⟩ := nothing_overflows "api" "search" .empty run c a
    (fun x hx => ⟨"search", hconfigs x hx⟩) (by decide +kernel) (by decide +kernel)
    (fun _ _ => ⟨rfl, rfl⟩)
  exact ⟨hconfigs, by decide +kernel, by decide +kernel, by decide +kernel, by decide +kernel,
    hreckon, hexpiry.trans (by decide +kernel)⟩

end Store

end TokenQuota
