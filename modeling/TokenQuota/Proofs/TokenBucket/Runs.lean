import Mathlib.Data.List.Induction
import TokenQuota.Proofs.TokenBucket.RateBound
import TokenQuota.Proofs.TokenBucket.Separation

/-!
Runs of requests for one bucket. What holds of its cells is carried from one admission to the next:
rejections in between leave the cells alone, and cells that have expired count as a full bucket.
-/

namespace TokenQuota

/-- An admitted request, with what its caller was told. -/
structure Admission where
  arrival : Arrival
  /-- Nanoseconds to wait. -/
  wait : Nat

/-- The reading of its own clock from which on a caller may use its tokens. -/
def Admission.ready (g : Admission) : Int :=
  g.arrival.now + g.wait

def Verdict.admission? (v : Verdict) (a : Arrival) : Option Admission :=
  if v.admitted then some ⟨a, v.wait⟩ else none

/-- Cells as requests under the limits leave them, whatever the clocks read. -/
structure Limits.Leaves (l : Limits) (cells : Cells) : Prop where
  accumulated_nonneg : 0 ≤ cells.accumulated
  accumulated_le : cells.accumulated ≤ l.size
  nextAvailable_nonneg : 0 ≤ cells.nextAvailable
  nextAvailable_le : cells.nextAvailable ≤ maxSigned

section Step

variable {l : Limits} {a : Arrival} {start after : Cells} {wait : Int}

theorem Limits.leaves_full (hl : l.Sound) (hclock : 0 < a.now ∧ a.now ≤ maxSigned) :
    l.Leaves ⟨a.now, l.size⟩ :=
  ⟨by have := hl.size_pos; change 0 ≤ l.size; omega, le_refl l.size, hclock.1.le, hclock.2⟩

theorem Limits.Leaves.le_booked (hstart : l.Leaves start) (hnow : a.now ≤ maxSigned)
    (h : (a.take l).evaluateCells start = .admitted wait after) :
    max start.nextAvailable a.now ≤ after.nextAvailable := by
  have hsigned := hstart.nextAvailable_le
  rw [(Take.evaluateCells_admitted h).2.2.1]
  exact Take.le_booked (t := a.take l) (max_le hsigned hnow)

theorem Limits.Leaves.step (hl : l.Sound) (hstart : l.Leaves start)
    (hclock : 0 < a.now ∧ a.now ≤ maxSigned) (hrequested : 1 ≤ a.requested)
    (h : (a.take l).evaluateCells start = .admitted wait after) : l.Leaves after := by
  obtain ⟨hnonneg, hle⟩ := Arrival.accumulated_of_admitted hl
    ⟨hstart.accumulated_nonneg, hstart.accumulated_le⟩ hrequested h
  have hbooked := hstart.le_booked hclock.2 h
  refine ⟨hnonneg, hle, by omega, ?_⟩
  rw [(Take.evaluateCells_admitted h).2.2.1]
  exact (isSigned_saturate _).2

end Step

namespace Store

variable {s : Store} {keys : CellKeys} {l : Limits} {a : Arrival}

/-- The admitted requests, as their callers are told. -/
def admissions (keys : CellKeys) (l : Limits) (arrivals : List Arrival) (s : Store) :
    List Admission :=
  (serve keys l arrivals s).1.filterMap fun (a, decision) =>
    (Verdict.ofResult decision.result).admission? a

/-- The cells of the bucket are those that the admission of a request left, expired or not. -/
def LeftBy (s : Store) (keys : CellKeys) (l : Limits) (a : Arrival) (cells : Cells) : Prop :=
  s.pair keys = (some ⟨cells.nextAvailable, expiryAt a.storeNow (a.take l)⟩,
    some ⟨cells.accumulated, expiryAt a.storeNow (a.take l)⟩)

/-- Both cells are seen or none is, since they expire together. -/
theorem LeftBy.seen {cells : Cells} (h : s.LeftBy keys l a cells) (now : Int) :
    (s.get? now keys.nextAvailable = some cells.nextAvailable ∧
      s.get? now keys.accumulated = some cells.accumulated) ∨
    (s.Absent now keys ∧ 0 < l.maxIdleMillis) := by
  obtain ⟨hnext, haccumulated⟩ := Prod.mk.inj h
  unfold Absent get?
  rw [hnext, haccumulated]
  by_cases hidle : 0 < l.maxIdleMillis
  · by_cases hlive : Cell.isLive now ⟨0, expiryAt a.storeNow (a.take l)⟩ = true
    · exact .inl ⟨if_pos hlive, if_pos hlive⟩
    · exact .inr ⟨⟨if_neg hlive, if_neg hlive⟩, hidle⟩
  · -- Cells that never expire are always seen.
    have hnever : expiryAt a.storeNow (a.take l) = none := if_neg hidle
    rw [hnever]
    exact .inl ⟨rfl, rfl⟩

theorem LeftBy.holds {cells : Cells} (h : s.LeftBy keys l a cells) (hidle : l.maxIdleMillis = 0) :
    s.Holds keys cells :=
  fun now => (h.seen now).resolve_right fun hnone => hnone.2.ne hidle.symm

theorem LeftBy.decision {cells : Cells} (h : s.LeftBy keys l a cells) (now : Int) (t : Take) :
    s.decision now keys t = t.evaluateCells cells ∨
      (s.decision now keys t = t.evaluate none none ∧ 0 < l.maxIdleMillis) := by
  rcases h.seen now with ⟨hnext, haccumulated⟩ | ⟨habsent, hidle⟩
  · refine .inl ?_
    rw [Store.decision, hnext, haccumulated]
    rfl
  · exact .inr ⟨decision_of_absent habsent t, hidle⟩

theorem leftBy_write (hkeys : keys.nextAvailable ≠ keys.accumulated) (s : Store) (l : Limits)
    (a : Arrival) (cells : Cells) :
    (s.write keys cells (expiryAt a.storeNow (a.take l))).LeftBy keys l a cells :=
  pair_write_self hkeys s cells _

theorem serve_append_singleton (keys : CellKeys) (l : Limits) (arrivals : List Arrival)
    (a : Arrival) (s : Store) :
    let before := (serve keys l arrivals s).2
    serve keys l (arrivals ++ [a]) s =
      ((serve keys l arrivals s).1 ++ [(a, (before.take a.storeNow keys (a.take l)).1)],
        (before.take a.storeNow keys (a.take l)).2) := by
  induction arrivals generalizing s with
  | nil => rfl
  | cons b rest ih => simp [serve, ih]

theorem admissions_append_of_rejected {arrivals : List Arrival}
    (h : (serve keys l arrivals s).2.decision a.storeNow keys (a.take l) = .rejected) :
    s.admissions keys l (arrivals ++ [a]) = s.admissions keys l arrivals ∧
      (serve keys l (arrivals ++ [a]) s).2 = (serve keys l arrivals s).2 := by
  simp [admissions, serve_append_singleton, take_of_rejected h, Decision.result, rejectedResult,
    Verdict.ofResult, Verdict.admission?]

theorem admissions_append_of_admitted {arrivals : List Arrival} {wait : Int} {after : Cells}
    (h : (serve keys l arrivals s).2.decision a.storeNow keys (a.take l) =
      .admitted wait after) :
    s.admissions keys l (arrivals ++ [a]) = s.admissions keys l arrivals ++ [⟨a, wait.toNat⟩] ∧
      (serve keys l (arrivals ++ [a]) s).2 =
        (serve keys l arrivals s).2.write keys after (expiryAt a.storeNow (a.take l)) := by
  simp [admissions, serve_append_singleton, take_of_admitted h, Decision.result,
    Verdict.ofResult_of_nonneg (Take.wait_nonneg h), Verdict.admission?]

theorem admissions_sublist (keys : CellKeys) (l : Limits) (arrivals : List Arrival) (s : Store) :
    ((s.admissions keys l arrivals).map Admission.arrival).Sublist arrivals := by
  induction arrivals using List.reverseRecOn with
  | nil => exact .slnil
  | append_singleton rest a ih =>
      cases h : (serve keys l rest s).2.decision a.storeNow keys (a.take l) with
      | rejected =>
          rw [(admissions_append_of_rejected h).1]
          exact ih.trans (List.sublist_append_left rest [a])
      | admitted wait after =>
          rw [(admissions_append_of_admitted h).1, List.map_append]
          exact ih.append_right [a]

theorem mem_of_append_sublist {past arrivals : List Arrival} (h : (past ++ [a]).Sublist arrivals) :
    a ∈ arrivals :=
  h.subset (List.mem_append_right past List.mem_cons_self)

/-- A run either has admitted nothing and changed nothing, or a property holds of its admissions and
of the cells that the last one left. -/
def Upholds (P : List Admission → Cells → Prop) (keys : CellKeys) (l : Limits)
    (arrivals : List Arrival) (s : Store) : Prop :=
  let admissions := s.admissions keys l arrivals
  let left := (serve keys l arrivals s).2
  (admissions = [] ∧ left = s) ∨
    ∃ last cells, admissions.getLast? = some last ∧ left.LeftBy keys l last.arrival cells ∧
      P admissions cells

theorem Upholds.seen {P : List Admission → Cells → Prop} {arrivals : List Arrival} {now : Int}
    (h : s.Upholds P keys l arrivals) (habsent : s.Absent now keys) :
    let left := (serve keys l arrivals s).2
    left.Absent now keys ∨ ∃ cells, left.get? now keys.nextAvailable = some cells.nextAvailable ∧
      left.get? now keys.accumulated = some cells.accumulated ∧
      P (s.admissions keys l arrivals) cells := by
  intro left
  rcases h with ⟨-, hsame⟩ | ⟨last, cells, -, hleft, hcells⟩
  · refine .inl ?_
    change (serve keys l arrivals s).2.Absent now keys
    rw [hsame]
    exact habsent
  · rcases hleft.seen now with ⟨hnext, haccumulated⟩ | ⟨hnone, -⟩
    · exact .inr ⟨cells, hnext, haccumulated, hcells⟩
    · exact .inl hnone

/-- What holds after every admission on a full bucket, and after every admission on cells of which
it held before, holds over a run from absent cells. -/
theorem upholds_of_step {P : List Admission → Cells → Prop}
    (hkeys : keys.nextAvailable ≠ keys.accumulated) (hl : l.Sound) (hsigned : l.size ≤ maxSigned)
    (arrivals : List Arrival) (hnow : ∀ a ∈ arrivals, 0 < a.now)
    (habsent : ∀ a ∈ arrivals, s.Absent a.storeNow keys)
    (hfull : ∀ past a wait after, (past.map Admission.arrival ++ [a]).Sublist arrivals →
      (past = [] ∨ 0 < l.maxIdleMillis) →
      (a.take l).evaluateCells ⟨a.now, l.size⟩ = .admitted wait after →
      P (past ++ [⟨a, wait.toNat⟩]) after)
    (hnext : ∀ past cells a wait after, (past.map Admission.arrival ++ [a]).Sublist arrivals →
      P past cells → (a.take l).evaluateCells cells = .admitted wait after →
      P (past ++ [⟨a, wait.toNat⟩]) after) :
    s.Upholds P keys l arrivals := by
  -- From the end of the run: the last request finds what the run before it has left.
  induction arrivals using List.reverseRecOn with
  | nil => exact .inl ⟨rfl, rfl⟩
  | append_singleton rest a ih =>
      have hinit := List.sublist_append_left rest [a]
      have ih := ih (fun b hb => hnow b (hinit.subset hb))
        (fun b hb => habsent b (hinit.subset hb))
        (fun past b wait after h => hfull past b wait after (h.trans hinit))
        (fun past cells b wait after h => hnext past cells b wait after (h.trans hinit))
      have hlast : a ∈ rest ++ [a] := by simp
      have hsublist := (admissions_sublist keys l rest s).append_right [a]
      have hdefault : (a.take l).evaluate none none = (a.take l).evaluateCells ⟨a.now, l.size⟩ :=
        Take.evaluate_none (hnow a hlast) (by have := hl.size_pos; change 0 ≤ l.size; omega)
          hsigned
      cases h : (serve keys l rest s).2.decision a.storeNow keys (a.take l) with
      | rejected =>
          unfold Upholds
          rw [(admissions_append_of_rejected h).1, (admissions_append_of_rejected h).2]
          exact ih
      | admitted wait after =>
          have hP : P (s.admissions keys l rest ++ [⟨a, wait.toNat⟩]) after := by
            rcases ih with ⟨hnone, hsame⟩ | ⟨last, cells, -, hleft, hcells⟩
            · rw [hsame, decision_of_absent (habsent a hlast), hdefault] at h
              exact hfull _ a wait after hsublist (.inl hnone) h
            · rcases hleft.decision a.storeNow (a.take l) with hlive | ⟨hexpired, hidle⟩
              · exact hnext _ cells a wait after hsublist hcells (hlive.symm.trans h)
              · rw [hexpired, hdefault] at h
                exact hfull _ a wait after hsublist (.inr hidle) h
          refine .inr ⟨⟨a, wait.toNat⟩, after, ?_, ?_, ?_⟩
          · rw [(admissions_append_of_admitted h).1, List.getLast?_concat]
          · rw [(admissions_append_of_admitted h).2]
            exact leftBy_write hkeys _ l a after
          · rw [(admissions_append_of_admitted h).1]
            exact hP

end Store

end TokenQuota
