import TokenQuota.Proofs.TokenBucket.Runs

/-!
Requests for one bucket while its limits are replaced by others. Each one finds the cells that some
earlier one left under limits of its own, or none, so that only what all these limits leave can be
relied on.
-/

namespace TokenQuota

theorem Limits.Sound.size_nonneg {l : Limits} (hl : l.Sound) : 0 ≤ l.size := by
  have := hl.size_pos
  omega

theorem Limits.Sound.interval_nonneg {l : Limits} (hl : l.Sound) : 0 ≤ l.interval := by
  have := hl.interval_pos
  omega

theorem Limits.leaves_absent {l l' : Limits} (hl : l'.Sound) (hsize : l'.size ≤ l.size) :
    l.Leaves ⟨0, l'.size⟩ :=
  ⟨hl.size_nonneg, hsize, le_refl 0, Int.natCast_nonneg _⟩

/-- A request under limits that let no more tokens accumulate. -/
theorem Limits.Leaves.step_under {l l' : Limits} {a : Arrival} {start after : Cells} {wait : Int}
    (hl : l'.Sound) (hsize : l'.size ≤ l.size) (hstart : l.Leaves start) (hnow : a.now ≤ maxSigned)
    (hrequested : 0 ≤ a.requested) (h : (a.take l').evaluateCells start = .admitted wait after) :
    l.Leaves after ∧ a.now ≤ after.nextAvailable := by
  have hnonneg := Arrival.available_nonneg (a := a) hl hstart.accumulated_nonneg
  have hle := Arrival.available_le (a := a) hsize (.inr hstart.accumulated_le)
  have hbooked := Take.le_booked (t := a.take l') (max_le hstart.nextAvailable_le hnow)
  obtain ⟨-, hleft, hnext, -⟩ := Take.evaluateCells_admitted h
  change after.accumulated = _ - min _ a.requested at hleft
  change after.nextAvailable = (a.take l').booked start at hnext
  change max start.nextAvailable a.now ≤ _ at hbooked
  have hsigned : (a.take l').booked start ≤ maxSigned := (isSigned_saturate _).2
  have hbefore := hstart.nextAvailable_nonneg
  exact ⟨⟨by omega, by omega, by omega, by omega⟩, by omega⟩

namespace Store

variable {P : Cells → Prop} {keys : CellKeys} {s s' : Store}

/-- Decides requests for one bucket, each one under limits of its own: the store that is left. -/
def serveEach (keys : CellKeys) : List (Limits × Arrival) → Store → Store
  | [], s => s
  | (l, a) :: rest, s => serveEach keys rest (s.take a.storeNow keys (a.take l)).2

theorem serve_eq_serveEach (keys : CellKeys) (l : Limits) (arrivals : List Arrival) (s : Store) :
    (serve keys l arrivals s).2 = serveEach keys (arrivals.map fun a => (l, a)) s := by
  induction arrivals generalizing s with
  | nil => rfl
  | cons a rest ih => exact ih _

/-- Nothing has been written since the first store, or a property holds of the cells that were
written last. -/
def Keeps (P : Cells → Prop) (keys : CellKeys) (s s' : Store) : Prop :=
  s' = s ∨ ∃ l a cells, s'.LeftBy keys l a cells ∧ P cells

/-- The cells that a request finds. An absent time is zero, and absent tokens are a full bucket. -/
def found (s : Store) (now : Int) (keys : CellKeys) (l : Limits) : Cells :=
  ⟨(s.get? now keys.nextAvailable).getD 0, (s.get? now keys.accumulated).getD l.size⟩

theorem decision_eq_evaluateCells (s : Store) (now : Int) (keys : CellKeys) (a : Arrival)
    (l : Limits) :
    s.decision now keys (a.take l) = (a.take l).evaluateCells (s.found now keys l) := rfl

theorem found_of_absent {now : Int} (h : s.Absent now keys) (l : Limits) :
    s.found now keys l = ⟨0, l.size⟩ := by
  rw [found, h.1, h.2]
  rfl

/-- Cells that have expired count as a full bucket. -/
theorem LeftBy.found {l : Limits} {a : Arrival} {cells : Cells} (h : s.LeftBy keys l a cells)
    (now : Int) (l' : Limits) :
    s.found now keys l' = cells ∨ s.found now keys l' = ⟨0, l'.size⟩ := by
  rcases h.seen now with ⟨hnext, haccumulated⟩ | ⟨hnone, -⟩
  · rw [Store.found, hnext, haccumulated]
    exact .inl rfl
  · exact .inr (found_of_absent hnone l')

theorem Keeps.found {now : Int} (h : Keeps P keys s s') (habsent : s.Absent now keys)
    (l : Limits) : s'.found now keys l = ⟨0, l.size⟩ ∨ P (s'.found now keys l) := by
  rcases h with rfl | ⟨l', a, cells, hleft, hcells⟩
  · exact .inl (found_of_absent habsent l)
  · rcases hleft.found now l with hlive | hexpired
    · exact .inr (hlive ▸ hcells)
    · exact .inl hexpired

theorem Keeps.take {l : Limits} {a : Arrival} (hkeys : keys.nextAvailable ≠ keys.accumulated)
    (h : Keeps P keys s s') (habsent : s.Absent a.storeNow keys)
    (hstep : ∀ start wait after, start = ⟨0, l.size⟩ ∨ P start →
      (a.take l).evaluateCells start = .admitted wait after → P after) :
    Keeps P keys s (s'.take a.storeNow keys (a.take l)).2 := by
  cases hdecision : s'.decision a.storeNow keys (a.take l) with
  | rejected =>
      rw [take_of_rejected hdecision]
      exact h
  | admitted wait after =>
      rw [take_of_admitted hdecision]
      rw [decision_eq_evaluateCells] at hdecision
      exact .inr ⟨l, a, after, leftBy_write hkeys s' l a after,
        hstep _ wait after (h.found habsent l) hdecision⟩

/-- What holds after every admission, on absent cells or on cells of which it held before, holds of
the cells that are written, whatever the limits are in between. -/
theorem Keeps.serveEach (hkeys : keys.nextAvailable ≠ keys.accumulated)
    (run : List (Limits × Arrival)) (h : Keeps P keys s s')
    (habsent : ∀ x ∈ run, s.Absent x.2.storeNow keys)
    (hstep : ∀ x ∈ run, ∀ start wait after, start = ⟨0, x.1.size⟩ ∨ P start →
      (x.2.take x.1).evaluateCells start = .admitted wait after → P after) :
    Keeps P keys s (serveEach keys run s') := by
  induction run generalizing s' with
  | nil => exact h
  | cons x rest ih =>
      obtain ⟨hx, hrest⟩ := List.forall_mem_cons.mp habsent
      obtain ⟨hstepx, hsteps⟩ := List.forall_mem_cons.mp hstep
      exact ih (h.take hkeys hx hstepx) hrest hsteps

/-- No limits let more tokens accumulate than the greatest ones do. -/
theorem keeps_leaves {l : Limits} (hkeys : keys.nextAvailable ≠ keys.accumulated)
    (run : List (Limits × Arrival)) (hlimits : ∀ x ∈ run, x.1.Sound ∧ x.1.size ≤ l.size)
    (harrivals : ∀ x ∈ run, x.2.now ≤ maxSigned ∧ 0 ≤ x.2.requested)
    (habsent : ∀ x ∈ run, s.Absent x.2.storeNow keys) :
    Keeps (fun cells => l.Leaves cells ∧ ∃ x ∈ run, x.2.now ≤ cells.nextAvailable) keys s
      (serveEach keys run s) := by
  refine Keeps.serveEach hkeys run (.inl rfl) habsent ?_
  intro x hx start wait after hstart h
  obtain ⟨hl, hsize⟩ := hlimits x hx
  obtain ⟨hnow, hrequested⟩ := harrivals x hx
  have hfound : l.Leaves start := by
    rcases hstart with rfl | hstart
    · exact Limits.leaves_absent hl hsize
    · exact hstart.1
  obtain ⟨hafter, hbooked⟩ := hfound.step_under hl hsize hnow hrequested h
  exact ⟨hafter, x, hx, hbooked⟩

end Store

end TokenQuota
