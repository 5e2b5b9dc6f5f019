import Mathlib.Algebra.Order.BigOperators.Group.List
import TokenQuota.Proofs.NameMap
import TokenQuota.Proofs.TokenBucket.Spending

/-!
One request for many tokens against many requests for some of them, at one reading of the clock and
from callers that wait for as long as it takes. Tokens that are spent one after the other are spent
as if at once, so that both are admitted or neither is.
-/

namespace TokenQuota

namespace Limits

variable {l : Limits} {cells : Cells} {tokens more : Int}

theorem spend_of_maxSigned (hl : l.Sound) (hcells : maxSigned ≤ cells.nextAvailable)
    (tokens : Int) : l.spend cells tokens =
      ⟨maxSigned, cells.accumulated - min cells.accumulated tokens⟩ := by
  have hborrowed : 0 ≤ (tokens - min cells.accumulated tokens) * l.interval :=
    mul_nonneg (by omega) hl.interval_nonneg
  rw [spend, min_eq_left (by omega)]

/-- Tokens spent after others are spent as if at once, wherever the bucket runs out of them and
wherever the end of 64 bits is reached. -/
theorem spend_spend (hl : l.Sound) (hmore : 0 ≤ more) :
    l.spend (l.spend cells tokens) more = l.spend cells (tokens + more) := by
  have hborrowed : tokens + more - min cells.accumulated (tokens + more) =
      (tokens - min cells.accumulated tokens) +
        (more - min (cells.accumulated - min cells.accumulated tokens) more) := by
    omega
  have hlent : 0 ≤ (more - min (cells.accumulated - min cells.accumulated tokens) more) *
      l.interval :=
    mul_nonneg (by omega) hl.interval_nonneg
  simp only [spend]
  rw [hborrowed, add_mul]
  congr 1
  · omega
  · omega

theorem spend_le_spend (hl : l.Sound) (cells : Cells) (tokens : Int) (hmore : 0 ≤ more) :
    (l.spend cells tokens).nextAvailable ≤ (l.spend cells (tokens + more)).nextAvailable := by
  rw [← spend_spend hl hmore]
  exact le_spend hl (l.spend_le_maxSigned cells tokens) more

end Limits

namespace Store

variable {keys : CellKeys} {l : Limits} {s : Store} {now : Int} {maxWait : Nat}

/-- Requests at one reading of both clocks, from callers that are willing to wait equally long. -/
def atOnce (now : Int) (maxWait : Nat) (requests : List Int) : List Arrival :=
  requests.map fun requested => ⟨now, now, requested, maxWait⟩

theorem write_write (s : Store) (keys : CellKeys) (cells cells' : Cells)
    (expiry expiry' : Option Int) :
    (s.write keys cells expiry).write keys cells' expiry' = s.write keys cells' expiry' := by
  have hcells : ((s.write keys cells expiry).write keys cells' expiry').cells =
      (s.write keys cells' expiry').cells := by
    refine NameMap.ext_get? fun name value => ?_
    simp only [write, NameMap.get?_insert]
    split
    · rfl
    · split
      · rfl
      · rfl
  simp only [write] at hcells ⊢
  rw [hcells]

/-- Before the end of 64 bits, cells that are written are seen at the reading at which they are
written. -/
theorem found_write (hkeys : keys.nextAvailable ≠ keys.accumulated) (s : Store) (cells : Cells)
    {t : Take} (hnow : 0 < now) (hlive : now < maxSigned ∨ t.maxIdleMillis = 0) :
    (s.write keys cells (expiryAt now t)).found now keys l = cells := by
  have hseen : ∀ value, Cell.isLive now ⟨value, expiryAt now t⟩ = true := by
    intro value
    unfold expiryAt
    split
    · rename_i hidle
      refine decide_eq_true ?_
      simp only [saturate, nanosPerMilli, minSigned, maxSigned] at *
      omega
    · rfl
  simp [found, write, get?, NameMap.get?_insert, hkeys, hseen]

theorem serve_atOnce_cons (keys : CellKeys) (l : Limits) (now : Int) (maxWait : Nat) (r : Int)
    (rest : List Int) (s : Store) :
    let next := s.take now keys (l.take now r maxWait)
    let parts := serve keys l (atOnce now maxWait rest) next.2
    serve keys l (atOnce now maxWait (r :: rest)) s =
      ((⟨now, now, r, maxWait⟩, next.1) :: parts.1, parts.2) := rfl

section Patient

variable (hl : l.Sound) (hclock : 0 < now ∧ now ≤ maxSigned) (hpatient : maxSigned ≤ maxWait)

include hl hclock hpatient

/-- One request: its tokens are spent from the cells that it finds, if the debt is allowed, since
its caller waits for as long as it takes. -/
theorem take_patient (hfound : l.Leaves (s.found now keys l)) (requested : Int) :
    let ready := l.ready now (s.found now keys l)
    let spent := l.spend ready requested
    s.take now keys (l.take now requested maxWait) =
      if l.maxDebt < spent.nextAvailable - now then (.rejected, s)
      else (.admitted (ready.nextAvailable - now) spent,
        s.write keys spent (expiryAt now (l.take now requested maxWait))) := by
  intro ready spent
  have hready : ready.nextAvailable ≤ maxSigned := (hfound.ready hl hclock.2).nextAvailable_le
  have hwilling : ¬(0 < ready.nextAvailable - now ∧
      (l.take now requested maxWait).maxWait < ready.nextAvailable - now) := by
    change ¬(_ ∧ min (maxWait : Int) maxSigned < _)
    omega
  have hdecision : s.decision now keys (l.take now requested maxWait) =
      if l.maxDebt < spent.nextAvailable - now ∨ (0 < ready.nextAvailable - now ∧
          (l.take now requested maxWait).maxWait < ready.nextAvailable - now) then .rejected
      else .admitted (ready.nextAvailable - now) spent :=
    (decision_eq_evaluateCells s now keys ⟨now, now, requested, maxWait⟩ l).trans
      (Arrival.evaluateCells_eq_spend hl hfound.nextAvailable_nonneg)
  rw [if_congr (or_iff_left hwilling) rfl rfl] at hdecision
  split
  · rename_i hbeyond
    exact take_of_rejected (hdecision.trans (if_pos hbeyond))
  · rename_i hwithin
    exact take_of_admitted (hdecision.trans (if_neg hwithin))

theorem take_patient_ne_rejected_iff (hfound : l.Leaves (s.found now keys l)) (requested : Int) :
    (s.take now keys (l.take now requested maxWait)).1 ≠ .rejected ↔
      (l.spend (l.ready now (s.found now keys l)) requested).nextAvailable - now ≤ l.maxDebt := by
  rw [take_patient hl hclock hpatient hfound]
  split
  · rename_i hbeyond
    exact iff_of_false (absurd rfl) (not_le.mpr hbeyond)
  · rename_i hwithin
    exact iff_of_true nofun (not_lt.mp hwithin)

/-- Every request but the first one finds the cells that the one before it has written, so that all
of them are admitted if their tokens can be spent at once. -/
theorem serve_atOnce (hkeys : keys.nextAvailable ≠ keys.accumulated)
    (hlive : now < maxSigned ∨ l.maxIdleMillis = 0) (hfound : l.Leaves (s.found now keys l))
    {r : Int} {rest : List Int} (hrequests : ∀ x ∈ r :: rest, 1 ≤ x) :
    let spent := l.spend (l.ready now (s.found now keys l)) (r + rest.sum)
    let parts := serve keys l (atOnce now maxWait (r :: rest)) s
    ((∀ x ∈ parts.1, x.2 ≠ .rejected) ↔ spent.nextAvailable - now ≤ l.maxDebt) ∧
      (spent.nextAvailable - now ≤ l.maxDebt →
        parts.2 = s.write keys spent (expiryAt now (l.take now r maxWait))) := by
  induction rest generalizing r s with
  | nil =>
      rw [List.sum_nil, add_zero, serve_atOnce_cons]
      have hadmitted := take_patient_ne_rejected_iff hl hclock hpatient hfound r
      refine ⟨by simpa [atOnce, serve] using hadmitted, fun hwithin => ?_⟩
      rw [take_patient hl hclock hpatient hfound, if_neg (not_lt.mpr hwithin)]
      rfl
  | cons r' rest ih =>
      obtain ⟨hr, hrest⟩ := List.forall_mem_cons.mp hrequests
      have htake := take_patient hl hclock hpatient hfound r
      have hready := hfound.ready hl hclock.2
      have hnow := l.le_ready now (s.found now keys l)
      dsimp only at htake
      rw [serve_atOnce_cons, List.sum_cons, htake]
      generalize l.ready now (s.found now keys l) = ready at *
      have hspent := hready.spend hl (Int.le_of_lt hr)
      have hbooked := Limits.le_spend hl hready.nextAvailable_le r
      have hasked : 0 ≤ (r' :: rest).sum := List.sum_nonneg fun x hx => Int.le_of_lt (hrest x hx)
      rw [List.sum_cons] at hasked
      by_cases hbeyond : l.maxDebt < (l.spend ready r).nextAvailable - now
      · -- What would be booked for all of the requests is no less.
        have hmore := Limits.spend_le_spend hl ready r hasked
        have htotal : ¬(l.spend ready (r + (r' + rest.sum))).nextAvailable - now ≤ l.maxDebt := by
          omega
        rw [if_pos hbeyond]
        exact ⟨iff_of_false (fun h => h _ List.mem_cons_self rfl) htotal,
          fun h => absurd h htotal⟩
      · -- The second request finds cells that are booked up to its reading or beyond.
        have hfound' := found_write (l := l) (t := l.take now r maxWait) hkeys s (l.spend ready r)
          hclock.1 hlive
        have hready' := Limits.ready_of_le (l := l) (hnow.trans hbooked)
        obtain ⟨hall, hleft⟩ := ih (hfound'.symm ▸ hspent) hrest
        rw [hfound', hready', Limits.spend_spend hl hasked] at hall hleft
        rw [write_write] at hleft
        rw [if_neg hbeyond]
        exact ⟨List.forall_mem_cons.trans ((and_iff_right (by simp)).trans hall), hleft⟩

/-- What is asked for besides does not change the wait. -/
theorem result_take_patient (hfound : l.Leaves (s.found now keys l)) {requested more : Int}
    (hmore : 0 ≤ more)
    (h : (s.take now keys (l.take now (requested + more) maxWait)).1 ≠ .rejected) :
    (s.take now keys (l.take now requested maxWait)).1.result =
      (s.take now keys (l.take now (requested + more) maxWait)).1.result := by
  have hwithin := (take_patient_ne_rejected_iff hl hclock hpatient hfound _).mp h
  have hbooked := Limits.spend_le_spend hl (l.ready now (s.found now keys l)) requested hmore
  rw [take_patient hl hclock hpatient hfound, take_patient hl hclock hpatient hfound,
    if_neg (by omega), if_neg (by omega)]
  rfl

end Patient

theorem leaves_found_take {a : Arrival} (hkeys : keys.nextAvailable ≠ keys.accumulated)
    (hl : l.Sound) (hclock : 0 < a.now ∧ a.now ≤ maxSigned) (hrequested : 1 ≤ a.requested)
    (hfound : l.Leaves (s.found a.storeNow keys l)) :
    l.Leaves ((s.take a.storeNow keys (a.take l)).2.found a.storeNow keys l) := by
  cases hdecision : s.decision a.storeNow keys (a.take l) with
  | rejected =>
      rw [take_of_rejected hdecision]
      exact hfound
  | admitted wait after =>
      rw [take_of_admitted hdecision]
      rw [decision_eq_evaluateCells] at hdecision
      rcases (leftBy_write hkeys s l a after).found a.storeNow l with hlive | hexpired
      · rw [hlive]
        exact hfound.step hl hclock hrequested hdecision
      · rw [hexpired]
        exact Limits.leaves_absent hl (le_refl l.size)

/-- At the end of 64 bits a bucket cannot be booked any further, so that everything is given. -/
theorem take_patient_maxSigned (hl : l.Sound) (hpatient : maxSigned ≤ maxWait)
    (hfound : l.Leaves (s.found maxSigned keys l)) (requested : Int) :
    ∃ wait left, s.take maxSigned keys (l.take maxSigned requested maxWait) =
      (.admitted wait ⟨maxSigned, left⟩,
        s.write keys ⟨maxSigned, left⟩ (expiryAt maxSigned (l.take maxSigned requested maxWait))) := by
  have hdebt := hl.maxDebt_nonneg
  have htake := take_patient hl (by decide) hpatient hfound requested
  dsimp only at htake
  rw [Limits.spend_of_maxSigned hl (l.le_ready _ _), if_neg (by dsimp only; omega)] at htake
  exact ⟨_, _, htake⟩

/-- Whether the cells expire as soon as they are written shows only in the tokens that are left. -/
theorem serve_atOnce_maxSigned (hkeys : keys.nextAvailable ≠ keys.accumulated) (hl : l.Sound)
    (hpatient : maxSigned ≤ maxWait) (hfound : l.Leaves (s.found maxSigned keys l)) {r : Int}
    {rest : List Int} (hrequests : ∀ x ∈ r :: rest, 1 ≤ x) :
    let parts := serve keys l (atOnce maxSigned maxWait (r :: rest)) s
    (∀ x ∈ parts.1, x.2 ≠ .rejected) ∧ ∃ left, parts.2 =
      s.write keys ⟨maxSigned, left⟩ (expiryAt maxSigned (l.take maxSigned r maxWait)) := by
  induction rest generalizing r s with
  | nil =>
      obtain ⟨wait, left, htake⟩ := take_patient_maxSigned hl hpatient hfound r
      rw [serve_atOnce_cons, htake]
      exact ⟨List.forall_mem_singleton.mpr nofun, left, rfl⟩
  | cons r' rest ih =>
      obtain ⟨hr, hrest⟩ := List.forall_mem_cons.mp hrequests
      obtain ⟨wait, left, htake⟩ := take_patient_maxSigned hl hpatient hfound r
      have hleaves := leaves_found_take (a := ⟨maxSigned, maxSigned, r, maxWait⟩) hkeys hl
        (show 0 < maxSigned ∧ maxSigned ≤ maxSigned by decide) hr hfound
      obtain ⟨hall, left', hleft⟩ := ih hleaves hrest
      dsimp only [Arrival.take] at hall hleft
      rw [htake] at hall hleft
      rw [serve_atOnce_cons, htake]
      rw [write_write] at hleft
      exact ⟨List.forall_mem_cons.mpr ⟨nofun, hall⟩, left', hleft⟩

/-- Many requests at one reading, from callers that wait for as long as it takes, are all admitted
if and only if one request for all their tokens is. Then the first of them waits as long as that
one, and the cells are the same in the end. Only at the very end of 64 bits, where cells that are
kept for a while expire as soon as they are written, other tokens may be left. -/
theorem split_request {c : BucketConfig} {location : String}
    (hc : c.checkRanges location = .ok ()) (ns name : String)
    (hclock : 0 < now ∧ now ≤ maxSigned) (hpatient : maxSigned ≤ maxWait)
    (hfound : s.Absent now (.of ns name) ∨ ∃ cells, c.limits.Leaves cells ∧
      s.get? now (CellKeys.of ns name).nextAvailable = some cells.nextAvailable ∧
      s.get? now (CellKeys.of ns name).accumulated = some cells.accumulated)
    {requests : List Int} (hsome : requests ≠ []) (hrequests : ∀ r ∈ requests, 1 ≤ r) :
    let keys := CellKeys.of ns name
    let whole := s.take now keys (c.limits.take now requests.sum maxWait)
    let parts := serve keys c.limits (atOnce now maxWait requests) s
    (whole.1 ≠ .rejected ↔ ∀ x ∈ parts.1, x.2 ≠ .rejected) ∧
      (whole.1 ≠ .rejected →
        parts.1.head?.map (fun x => x.2.result) = some whole.1.result ∧
          ∃ next left left' expiry, whole.2 = s.write keys ⟨next, left⟩ expiry ∧
            parts.2 = s.write keys ⟨next, left'⟩ expiry ∧
            (now < maxSigned ∨ c.maxIdleMillis = 0 → left' = left)) := by
  intro keys whole parts
  have hkeys : keys.nextAvailable ≠ keys.accumulated :=
    CellKeys.nextAvailable_ne_accumulated ns name
  have hl := BucketConfig.sound_limits hc
  have hleaves : c.limits.Leaves (s.found now keys c.limits) := by
    rcases hfound with hnone | ⟨cells, hcells, hnext, htokens⟩
    · rw [found_of_absent hnone]
      exact Limits.leaves_absent hl (le_refl c.limits.size)
    · rw [found, hnext, htokens]
      exact hcells
  obtain ⟨r, rest, rfl⟩ := List.exists_cons_of_ne_nil hsome
  obtain ⟨hr, hrest⟩ := List.forall_mem_cons.mp hrequests
  have hmore : 0 ≤ rest.sum := List.sum_nonneg fun x hx => Int.le_of_lt (hrest x hx)
  have hwait (hadmitted : whole.1 ≠ .rejected) :
      parts.1.head?.map (fun x => x.2.result) = some whole.1.result :=
    congrArg some (result_take_patient hl hclock hpatient hleaves hmore hadmitted)
  by_cases hlive : now < maxSigned ∨ c.limits.maxIdleMillis = 0
  · obtain ⟨hall, hleft⟩ := serve_atOnce hl hclock hpatient hkeys hlive hleaves hrequests
    have hwhole := take_patient_ne_rejected_iff hl hclock hpatient hleaves (r + rest.sum)
    refine ⟨hwhole.trans hall.symm, fun hadmitted => ⟨hwait hadmitted, ?_⟩⟩
    have hwithin := hwhole.mp hadmitted
    have hwritten : whole = _ := take_patient hl hclock hpatient hleaves (r + rest.sum)
    rw [if_neg (not_lt.mpr hwithin)] at hwritten
    exact ⟨_, _, _, _, congrArg Prod.snd hwritten, hleft hwithin, fun _ => rfl⟩
  · obtain rfl : now = maxSigned := by omega
    obtain ⟨hall, left', hleft⟩ := serve_atOnce_maxSigned hkeys hl hpatient hleaves hrequests
    obtain ⟨wait, left, hwhole⟩ := take_patient_maxSigned hl hpatient hleaves (r + rest.sum)
    have hwritten : whole = _ := hwhole
    have hadmitted : whole.1 ≠ .rejected := by simp [hwritten]
    refine ⟨iff_of_true hadmitted hall, fun _ => ⟨hwait hadmitted, ?_⟩⟩
    exact ⟨_, _, _, _, congrArg Prod.snd hwritten, hleft, fun h =>
      absurd (h.imp_right BucketConfig.maxIdleMillis_limits) hlive⟩

/-- A bucket that is in debt, and holds two tokens nevertheless: the first request takes one of
them, the second one the other, and the rest is borrowed. -/
theorem split_request_borrowing :
    let c : BucketConfig := ⟨10, 5, 1000, 600, false⟩
    let keys := CellKeys.of "api" "search"
    let s := Store.empty.write keys ⟨1700000000100000000, 2⟩ none
    let now : Int := 1700000000000000000
    let patient : Nat := 18446744073709551615999999999
    let whole := s.take now keys (c.limits.take now 6 patient)
    let parts := serve keys c.limits (atOnce now patient [1, 3, 2]) s
    c.checkRanges "search" = .ok () ∧
      whole.1 = .admitted 100000000 ⟨1700000000500000000, 0⟩ ∧
      (∀ x ∈ parts.1, x.2 ≠ .rejected) ∧
      parts.1.head?.map (fun x => x.2.result) = some 100000000 ∧ parts.2 = whole.2 := by
  intro c keys s now patient whole parts
  have hc : c.checkRanges "search" = .ok () := by decide
  have hwhole : whole.1 = .admitted 100000000 ⟨1700000000500000000, 0⟩ := by decide +kernel
  obtain ⟨hsame, hleft⟩ := split_request (s := s) hc "api" "search"
    (show 0 < now ∧ now ≤ maxSigned by decide) (show maxSigned ≤ patient by decide)
    (.inr ⟨⟨1700000000100000000, 2⟩, ⟨by decide, by decide, by decide, by decide⟩,
      by decide +kernel, by decide +kernel⟩) (show [1, 3, 2] ≠ [] by decide) (by decide)
  have hadmitted : whole.1 ≠ .rejected := hwhole ▸ nofun
  obtain ⟨hwait, next, left, left', expiry, hwritten, hwritten', hlive⟩ := hleft hadmitted
  rw [hlive (.inl (by decide))] at hwritten'
  have hresult : whole.1.result = 100000000 := congrArg Decision.result hwhole
  exact ⟨hc, hwhole, hsame.mp hadmitted, hwait.trans (congrArg some hresult),
    hwritten'.trans hwritten.symm⟩

/-- At the end of 64 bits, the second of two requests finds a full bucket again. -/
theorem split_request_expired :
    let c : BucketConfig := ⟨1, 10, 1, 0, false⟩
    let keys := CellKeys.of "api" "search"
    let patient : Nat := 18446744073709551615999999999
    let whole := Store.empty.take maxSigned keys (c.limits.take maxSigned 7 patient)
    let parts := serve keys c.limits (atOnce maxSigned patient [3, 4]) .empty
    c.checkRanges "search" = .ok () ∧ Store.empty.Absent maxSigned keys ∧
      whole.1 = .admitted 0 ⟨maxSigned, 3⟩ ∧
      parts.1.map Prod.snd = [.admitted 0 ⟨maxSigned, 7⟩, .admitted 0 ⟨maxSigned, 6⟩] ∧
      parts.2.pair keys ≠ whole.2.pair keys := by
  intro c keys patient whole parts
  exact ⟨by decide, ⟨rfl, rfl⟩, by decide +kernel, by decide +kernel, by decide +kernel⟩

end Store

end TokenQuota
