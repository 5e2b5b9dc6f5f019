import TokenQuota.Bucket.Taking
import TokenQuota.Proofs.Store.Connections
import TokenQuota.Proofs.Task.Amid
import TokenQuota.Proofs.TokenBucket.Evaluation

/-!
A request for tokens is tried several times, and between the attempts the connection is replaced.
However often that fails, the request is decided at most once, and a request that gets no answer has
not touched a cell.
-/

namespace TokenQuota

/-- What a decision on a request at one reading of the clock makes of a store: both cells of the
bucket are written if the request was admitted, and no others. -/
structure Store.Charged (keys : CellKeys) (now : Int) (t : Take) (v : Verdict) (s s' : Store) :
    Prop where
  verdict : v = .ofResult (s.decision now keys t).result
  rejected : v.admitted = false → s'.cells = s.cells
  admitted : v.admitted = true → ∃ wait cells, s.decision now keys t = .admitted wait cells ∧
    s'.cells.get? keys.nextAvailable = some ⟨cells.nextAvailable, expiryAt now t⟩ ∧
    s'.cells.get? keys.accumulated = some ⟨cells.accumulated, expiryAt now t⟩
  others : ∀ key, key ≠ keys.nextAvailable → key ≠ keys.accumulated →
    s'.cells.get? key = s.cells.get? key

/-- What became of a request: it was decided once if it was answered, and otherwise no cell was
touched. -/
def Store.Settled (b : Bucket) (requested : Int) (maxWait : Nat) (s s' : Store) :
    Except QuotaError Verdict → Prop
  | .ok v => ∃ now, Charged b.keys now (b.limits.take now requested maxWait) v s s'
  | .error _ => s'.cells = s.cells

namespace Store

/-- Only the cells of a store matter. -/
theorem Charged.congr {keys : CellKeys} {now : Int} {t : Take} {v : Verdict} {s₁ s₁' s₂ s₂' : Store}
    (h : Charged keys now t v s₁ s₁') (hbefore : s₁.cells = s₂.cells)
    (hafter : s₂'.cells = s₁'.cells) : Charged keys now t v s₂ s₂' := by
  have hdecision := decision_congr hbefore now keys t
  constructor
  · rw [← hdecision]
    exact h.verdict
  · intro hv
    rw [hafter, h.rejected hv, hbefore]
  · intro hv
    rw [hafter, ← hdecision]
    exact h.admitted hv
  · intro key hnext haccumulated
    rw [hafter, ← hbefore]
    exact h.others key hnext haccumulated

theorem Settled.congr {b : Bucket} {requested : Int} {maxWait : Nat} {s₁ s₁' s₂ s₂' : Store}
    {r : Except QuotaError Verdict} (h : Settled b requested maxWait s₁ s₁' r)
    (hbefore : s₁.cells = s₂.cells) (hafter : s₂'.cells = s₁'.cells) :
    Settled b requested maxWait s₂ s₂' r := by
  cases r with
  | ok v =>
      obtain ⟨now, hcharged⟩ := h
      exact ⟨now, hcharged.congr hbefore hafter⟩
  | error e => exact (hafter.trans h).trans hbefore

theorem charged_take (s : Store) (now : Int) {keys : CellKeys}
    (hkeys : keys.nextAvailable ≠ keys.accumulated) (t : Take) :
    Charged keys now t (.ofResult (s.take now keys t).1.result) s (s.take now keys t).2 := by
  cases hdecision : s.decision now keys t with
  | rejected =>
      rw [take_of_rejected hdecision]
      constructor
      · rw [hdecision]
      · exact fun _ => rfl
      · intro hv
        cases hv
      · exact fun _ _ _ => rfl
  | admitted wait cells =>
      have hadmitted : Verdict.ofResult wait = ⟨wait.toNat, true⟩ :=
        Verdict.ofResult_of_nonneg (Take.wait_nonneg hdecision)
      rw [take_of_admitted hdecision]
      constructor
      · rw [hdecision]
      · intro hv
        rw [Decision.result, hadmitted] at hv
        cases hv
      · refine fun _ => ⟨wait, cells, hdecision, ?_, ?_⟩
        · simp [write, NameMap.get?_insert, hkeys]
        · simp [write, NameMap.get?_insert]
      · intro key hnext haccumulated
        simp [write, NameMap.get?_insert, hnext, haccumulated]

end Store

namespace Link

/-- The cells of the store that a connection leads to. -/
def cells (l : Link) : NameMap Cell := l.backend.store.cells

variable {α : Type} {l l' : Link}

theorem cells_of_endsAmid {t : Task Link α} {a : α} (ht : t.Changes KeepsCells)
    (h : t.EndsAmid cells l a l') : l'.cells = l.cells :=
  ht.kept_of_endsAmid cells (fun _ _ h => h) h

theorem endsAmid_call {υ : Type} {still : Link → υ} {c : Call α} {r : Except QuotaError α}
    (h : (call c).run.EndsAmid still l r l') :
    ∃ l₁, still l₁ = still l ∧ r = (c l₁.backend).1 ∧
      still l' = still { l₁ with backend := (c l₁.backend).2 } :=
  Task.endsAmid_atOnce
    (f := fun l : Link => ((c l.backend).1, { l with backend := (c l.backend).2 })) h

/-- An attempt to ask the store either decides the request, or has not reached the store. -/
theorem settled_evaluate (h : Handle) (b : Bucket) (requested : Int) (maxWait : Nat)
    {r : Except QuotaError Int}
    (hends : (evaluate h b requested maxWait).run.EndsAmid cells l r l') :
    Store.Settled b requested maxWait l.backend.store l'.backend.store (r.map .ofResult) := by
  obtain ⟨l₁, hbefore, rfl, hafter⟩ := endsAmid_call hends
  refine Store.Settled.congr ?_ hbefore hafter
  unfold Backend.take Backend.guarded
  dsimp only
  split
  · exact (rfl : l₁.backend.store.cells = _)
  · split
    · exact ⟨_, Store.charged_take l₁.backend.store _
        (CellKeys.nextAvailable_ne_accumulated b.ns b.name) _⟩
    · exact (rfl : l₁.backend.store.cells = _)

/-- A request is decided in the attempt that it is answered from, and in no other one. -/
theorem settled_takeFrom (retry : Retry) (b : Bucket) (requested : Int)
    (maxWait left attempt : Nat) {r : Except QuotaError Verdict}
    (h : (takeFrom retry b requested maxWait left attempt).run.EndsAmid cells l r l') :
    Store.Settled b requested maxWait l.backend.store l'.backend.store r := by
  induction left generalizing attempt l with
  | zero =>
      obtain ⟨rfl, hstill⟩ := Task.endsAmid_done h
      exact hstill
  | succ left ih =>
      -- An attempt that is followed by others leaves the cells as it found them.
      have hagain : ∀ {l₁ : Link}, l₁.cells = l.cells →
          (takeFrom retry b requested maxWait left (attempt + 1)).run.EndsAmid cells l₁ r l' →
          Store.Settled b requested maxWait l.backend.store l'.backend.store r :=
        fun hcells hrest => (ih (attempt + 1) hrest).congr hcells rfl
      rcases Action.endsAmid_bind h with ⟨u, l₁, hpause, hattempt⟩ | ⟨e, l₁, -, hpause, -⟩
      · obtain ⟨u', l₀, -, hsleep, hstill₁⟩ := Action.endsAmid_ofTask hpause
        have hcells₁ : l₁.cells = l.cells :=
          hstill₁.trans (cells_of_endsAmid (Task.changes_pause _ _) hsleep)
        obtain ⟨handle, l₂, hget, hask⟩ := Action.endsAmid_bind_outcome hattempt
        have hcells₂ : l₂.cells = l.cells :=
          (cells_of_endsAmid keepsCells_getOrConnect hget).trans hcells₁
        cases handle with
        | error e => exact hagain hcells₂ hask
        | ok handle =>
            obtain ⟨result, l₃, hevaluate, hlast⟩ := Action.endsAmid_bind_outcome hask
            have hsettled := settled_evaluate handle b requested maxWait hevaluate
            cases result with
            | ok result =>
                obtain ⟨rfl, hdone⟩ := Task.endsAmid_done hlast
                exact hsettled.congr hcells₂ hdone
            | error e =>
                obtain ⟨u, l₄, hreconnect, hrest⟩ := Action.endsAmid_bind_outcome hlast
                refine hagain ?_ hrest
                exact ((cells_of_endsAmid (keepsCells_reconnect handle) hreconnect).trans
                  hsettled).trans hcells₂
      · obtain ⟨u, l₀, heq, -⟩ := Action.endsAmid_ofTask hpause
        cases heq

theorem settled_take (retry : Retry) (b : Bucket) (requested : Int) (maxWait : Nat)
    {r : Except QuotaError Verdict}
    (h : (take retry b requested maxWait).run.EndsAmid cells l r l') :
    Store.Settled b requested maxWait l.backend.store l'.backend.store r :=
  settled_takeFrom retry b requested maxWait retry.count 0 h

end Link

end TokenQuota
