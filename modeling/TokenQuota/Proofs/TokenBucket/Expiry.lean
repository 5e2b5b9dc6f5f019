import TokenQuota.Proofs.TokenBucket.LimitChange

/-!
What a caller sees of the expiry of idle cells. If cells live for as long as a bucket takes to pay
its greatest debt and to fill up, then they expire no sooner than they say what absent cells say,
and the decisions are those of a bucket whose cells never expire.
-/

namespace TokenQuota

/-- A bucket that had the time to fill up since it was out of debt is as good as one without
cells. -/
theorem Take.evaluateCells_of_recovered {t : Take} {cells : Cells} (hnow : 0 < t.now)
    (hinterval : 1 ≤ t.interval) (hsize : 1 ≤ t.size) (hsigned : t.size ≤ maxSigned)
    (hcells : 0 ≤ cells.accumulated)
    (hrecovered : cells.nextAvailable + t.size * t.interval ≤ t.now) :
    t.evaluateCells cells = t.evaluate none none := by
  have hworth : 1 ≤ t.size * t.interval := one_le_mul_of_one_le_of_one_le hsize hinterval
  have hlt : cells.nextAvailable < t.now := by omega
  have hfresh : t.size ≤ (t.now - cells.nextAvailable) / max t.interval 1 := by
    rw [max_eq_left hinterval]
    exact (Int.le_ediv_iff_mul_le (by omega)).mpr (by omega)
  have hfull : t.available cells = t.size := by
    simp only [available, if_pos hlt, saturate, minSigned, maxSigned] at *
    omega
  rw [Take.evaluateCells_refilled hlt, hfull, Take.evaluate_none hnow (by omega) hsigned]

/-- Cells live for as long as the bucket takes to pay its greatest debt and to fill up. -/
def Limits.IdleCovers (l : Limits) : Prop :=
  l.maxDebt + l.size * l.interval ≤ l.maxIdleMillis * nanosPerMilli

/-- The same limits over cells that never expire. -/
def Limits.lasting (l : Limits) : Limits :=
  { l with maxIdleMillis := 0 }

namespace Store

variable {s s' : Store} {keys : CellKeys} {l : Limits} {a : Arrival}

/-- Both cells of the bucket are there, and are seen before the clock reads a given time. -/
def HoldsUntil (s : Store) (keys : CellKeys) (cells : Cells) (expiry : Int) : Prop :=
  ∀ now, (now < expiry → s.get? now keys.nextAvailable = some cells.nextAvailable ∧
      s.get? now keys.accumulated = some cells.accumulated) ∧
    (expiry ≤ now → s.Absent now keys)

theorem holdsUntil_write (hkeys : keys.nextAvailable ≠ keys.accumulated) (s : Store)
    (cells : Cells) (expiry : Int) :
    (s.write keys cells (some expiry)).HoldsUntil keys cells expiry := by
  intro now
  constructor
  · intro hlive
    simp [write, get?, NameMap.get?_insert, hkeys, Cell.isLive, hlive]
  · intro hexpired
    simp [Absent, write, get?, NameMap.get?_insert, hkeys, Cell.isLive, hexpired]

theorem decision_of_holdsUntil {cells : Cells} {expiry : Int}
    (h : s.HoldsUntil keys cells expiry) (now : Int) (t : Take) :
    s.decision now keys t = if now < expiry then t.evaluateCells cells else t.evaluate none none := by
  split
  · rename_i hlive
    rw [decision, ((h now).1 hlive).1, ((h now).1 hlive).2]
    rfl
  · rename_i hexpired
    exact decision_of_absent ((h now).2 (not_lt.mp hexpired)) t

/-- Two stores hold the same cells of a bucket. Those of the first one may expire, but not before
the bucket is full again, unless the clock never reads that time. -/
def Outlasts (s s' : Store) (keys : CellKeys) (l : Limits) : Prop :=
  ∃ cells expiry, s.HoldsUntil keys cells expiry ∧ s'.Holds keys cells ∧ 0 ≤ cells.accumulated ∧
    (expiry < maxSigned → cells.nextAvailable + l.size * l.interval ≤ expiry)

/-- Two stores decide a request alike, on cells with tokens that are not owed. -/
def Agree (s s' : Store) (keys : CellKeys) (l : Limits) (a : Arrival) : Prop :=
  ∃ start : Cells, 0 ≤ start.accumulated ∧
    s.decision a.storeNow keys (a.take l) = (a.take l).evaluateCells start ∧
    s'.decision a.storeNow keys (a.take l) = (a.take l).evaluateCells start

theorem agree_of_absent (hl : l.Sound) (hsigned : l.size ≤ maxSigned) (hnow : 0 < a.now)
    (h : s.Absent a.storeNow keys) (h' : s'.Absent a.storeNow keys) : s.Agree s' keys l a := by
  have hsize : 0 ≤ (a.take l).size := by
    have := hl.size_pos
    change 0 ≤ l.size
    omega
  have hfull := Take.evaluate_none (t := a.take l) hnow hsize hsigned
  exact ⟨⟨a.now, l.size⟩, hsize, (decision_of_absent h _).trans hfull,
    (decision_of_absent h' _).trans hfull⟩

theorem Outlasts.agree (h : s.Outlasts s' keys l) (hl : l.Sound) (hsigned : l.size ≤ maxSigned)
    (hclock : a.storeNow = a.now ∧ 0 < a.now ∧ a.now < maxSigned) : s.Agree s' keys l a := by
  obtain ⟨cells, expiry, huntil, hholds, hcells, hrecovers⟩ := h
  obtain ⟨hsame, hnow, hbelow⟩ := hclock
  refine ⟨cells, hcells, ?_, decision_of_holds hholds _ _⟩
  rw [decision_of_holdsUntil huntil, hsame]
  split
  · rfl
  · rename_i hexpired
    have hfilled := hrecovers (by omega)
    exact (Take.evaluateCells_of_recovered (t := a.take l) hnow hl.interval_pos hl.size_pos
      hsigned hcells (by change _ + l.size * l.interval ≤ a.now; omega)).symm

/-- An admission on both sides writes the same cells, which recover before they expire. -/
theorem outlasts_write {wait : Int} {after : Cells} {start : Cells}
    (hkeys : keys.nextAvailable ≠ keys.accumulated) (hl : l.Sound) (hcovers : l.IdleCovers)
    (hclock : a.storeNow = a.now ∧ 0 < a.now) (hstart : 0 ≤ start.accumulated)
    (h : (a.take l).evaluateCells start = .admitted wait after) :
    (s.write keys after (expiryAt a.storeNow (a.take l))).Outlasts
      (s'.write keys after (expiryAt a.storeNow (a.take l.lasting))) keys l := by
  obtain ⟨hsame, hnow⟩ := hclock
  obtain ⟨-, hleft, -, hdebt, -⟩ := Take.evaluateCells_admitted h
  have havailable := Arrival.available_nonneg (a := a) hl hstart
  have hidle : 0 < l.maxIdleMillis := by
    have hworth : 1 ≤ l.size * l.interval :=
      one_le_mul_of_one_le_of_one_le hl.size_pos hl.interval_pos
    have hpos := hl.maxDebt_nonneg
    simp only [Limits.IdleCovers, nanosPerMilli] at hcovers
    omega
  have hexpiry : expiryAt a.storeNow (a.take l) =
      some (saturate (a.now + saturate (l.maxIdleMillis * nanosPerMilli))) := by
    rw [expiryAt, hsame]
    exact if_pos hidle
  rw [hexpiry, expiryAt_eq_none rfl]
  refine ⟨after, _, holdsUntil_write hkeys s after _, holds_write hkeys after, by omega,
    fun hreached => ?_⟩
  -- An expiry before the end of 64 bits was not brought down to it.
  have houter := le_saturate_of_lt hreached
  have hinner : l.maxIdleMillis * nanosPerMilli ≤ saturate (l.maxIdleMillis * nanosPerMilli) :=
    le_saturate_of_lt (by omega)
  have hbooked : after.nextAvailable ≤ a.now + l.maxDebt := by
    change after.nextAvailable - a.now ≤ l.maxDebt at hdebt
    omega
  unfold Limits.IdleCovers at hcovers
  omega

/-- As long as both stores have no cells, or the cells of the one recover before they expire, the
requests are decided alike. -/
theorem serve_eq_of_agree (hkeys : keys.nextAvailable ≠ keys.accumulated) (hl : l.Sound)
    (hsigned : l.size ≤ maxSigned) (hcovers : l.IdleCovers) (arrivals : List Arrival)
    (hclock : ∀ a ∈ arrivals, a.storeNow = a.now ∧ 0 < a.now ∧ a.now < maxSigned)
    (h : (∀ a ∈ arrivals, s.Absent a.storeNow keys ∧ s'.Absent a.storeNow keys) ∨
      s.Outlasts s' keys l) :
    (serve keys l arrivals s).1 = (serve keys l.lasting arrivals s').1 := by
  induction arrivals generalizing s s' with
  | nil => rfl
  | cons a rest ih =>
      obtain ⟨ha, hrest⟩ := List.forall_mem_cons.mp hclock
      have hagree : s.Agree s' keys l a := by
        rcases h with habsent | houtlasts
        · obtain ⟨hnone, hnone'⟩ := habsent a List.mem_cons_self
          exact agree_of_absent hl hsigned ha.2.1 hnone hnone'
        · exact houtlasts.agree hl hsigned ha
      obtain ⟨start, hstart, hdecision, hdecision'⟩ := hagree
      -- How long the cells live is no part of a decision.
      change s'.decision a.storeNow keys (a.take l.lasting) = _ at hdecision'
      change (a, (s.take a.storeNow keys (a.take l)).1) ::
          (serve keys l rest (s.take a.storeNow keys (a.take l)).2).1 =
        (a, (s'.take a.storeNow keys (a.take l.lasting)).1) ::
          (serve keys l.lasting rest (s'.take a.storeNow keys (a.take l.lasting)).2).1
      cases hresult : (a.take l).evaluateCells start with
      | rejected =>
          rw [take_of_rejected (hdecision.trans hresult),
            take_of_rejected (hdecision'.trans hresult)]
          rw [ih hrest (h.imp_left fun hnone b hb => hnone b (List.mem_cons_of_mem _ hb))]
      | admitted wait after =>
          rw [take_of_admitted (hdecision.trans hresult),
            take_of_admitted (hdecision'.trans hresult)]
          rw [ih hrest (.inr (outlasts_write hkeys hl hcovers ⟨ha.1, ha.2.1⟩ hstart hresult))]

/-- If cells live for as long as the bucket takes to pay its greatest debt and to fill up, then
their expiry does not show: from absent cells, every request is decided as it would be if the
cells were kept for ever. -/
theorem expiry_transparent {c : BucketConfig} {location : String}
    (hc : c.checkRanges location = .ok ())
    (hcovers : c.limits.maxDebt + c.limits.size * c.limits.interval ≤
      c.maxIdleMillis.toInt * nanosPerMilli) (ns name : String) (s : Store)
    (arrivals : List Arrival) (habsent : ∀ a ∈ arrivals, s.Absent a.storeNow (.of ns name))
    (hclock : ∀ a ∈ arrivals, a.storeNow = a.now ∧ 0 < a.now ∧ a.now < maxSigned) :
    (serve (.of ns name) c.limits arrivals s).1 =
      (serve (.of ns name) { c with maxIdleMillis := 0 }.limits arrivals s).1 := by
  obtain ⟨-, -, hidle, -⟩ := BucketConfig.ranges_of_checkRanges hc
  have hcovers : c.limits.IdleCovers := by
    change _ ≤ max c.maxIdleMillis.toInt 0 * nanosPerMilli
    rwa [max_eq_left hidle]
  exact serve_eq_of_agree (CellKeys.nextAvailable_ne_accumulated ns name)
    (BucketConfig.sound_limits hc) (Int64.toInt_le c.size) hcovers arrivals hclock
    (.inl fun a ha => ⟨habsent a ha, habsent a ha⟩)

/-- A bucket is emptied and put in debt, and asked again at the very time at which its cells
expire: both requests are admitted, with and without the expiry. -/
theorem expiry_transparent_expired :
    let c : BucketConfig := ⟨10, 1, 700, 600, false⟩
    let arrivals : List Arrival :=
      [⟨1000, 1000, 7, 0⟩, ⟨700001000, 700001000, 1, 0⟩]
    let s₂ := (serve (.of "api" "search") c.limits (arrivals.take 1) .empty).2
    c.checkRanges "search" = .ok () ∧ s₂.Absent 700001000 (.of "api" "search") ∧
      (Store.empty.granted (.of "api" "search") c.limits arrivals).length = 2 ∧
      (serve (.of "api" "search") c.limits arrivals .empty).1 =
        (serve (.of "api" "search") { c with maxIdleMillis := 0 }.limits arrivals .empty).1 := by
  intro c arrivals s₂
  have hc : c.checkRanges "search" = .ok () := by decide
  refine ⟨hc, ⟨by decide +kernel, by decide +kernel⟩, by decide +kernel, ?_⟩
  exact expiry_transparent hc (by decide) "api" "search" .empty arrivals (fun _ _ => ⟨rfl, rfl⟩)
    (by decide)

end Store

end TokenQuota
