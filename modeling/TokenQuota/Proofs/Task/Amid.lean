import TokenQuota.Proofs.Task.Steps

/-!
One activity from its beginning to its end, while the state changes only from outside between its
steps. What of the state is still then is the same before a step as after the one before it.
-/

namespace TokenQuota

universe u v

namespace Task

variable {σ τ : Type} {α β : Type} {υ : Type u} {κ : Type v}

/-- An activity comes to its end from a state, with a result and a last state. Between its steps
only what is not still changes. -/
inductive EndsAmid (still : σ → υ) : Task σ α → σ → α → σ → Prop
  | done {a : α} {s s' : σ} (hstill : still s' = still s) : EndsAmid still (.done a) s a s'
  | step {ready : σ → Bool} {change : σ → σ} {next : σ → Task σ α} {s s₁ s' : σ} {a : α}
      (hstill : still s₁ = still s) (hready : ready s₁ = true)
      (rest : EndsAmid still (next s₁) (change s₁) a s') :
      EndsAmid still (.step ready change next) s a s'
  | sleep {millis : Nat} {next : Task σ α} {s s' : σ} {a : α}
      (rest : EndsAmid still next s a s') : EndsAmid still (.sleep millis next) s a s'

variable {still : σ → υ} {s s' : σ}

/-- What is still at the beginning is all that the end depends on. -/
theorem EndsAmid.from_still {t : Task σ α} {a : α} {s₀ : σ} (h : t.EndsAmid still s a s')
    (hstill : still s = still s₀) : t.EndsAmid still s₀ a s' := by
  induction h with
  | done hdone => exact .done (hdone.trans hstill)
  | step hbefore hready rest => exact .step (hbefore.trans hstill) hready rest
  | sleep rest ih => exact .sleep (ih hstill)

/-- An activity runs alone to its end, and what is still does not change while it sleeps. -/
theorem endsAmid_of_run (elapse : Nat → σ → σ)
    (helapse : ∀ millis s, still (elapse millis s) = still s)
    {t : Task σ α} {a : α} (h : t.run elapse s = (some a, s')) : t.EndsAmid still s a s' := by
  induction t generalizing s with
  | done b =>
      cases h
      exact .done rfl
  | step ready change next ih =>
      rw [Task.run] at h
      split at h
      · rename_i hready
        exact .step rfl hready (ih s h)
      · cases h
  | sleep millis next ih => exact .sleep ((ih h).from_still (helapse millis s))

theorem endsAmid_alone (elapse : Nat → σ → σ)
    (helapse : ∀ millis s, still (elapse millis s) = still s) {t : Task σ α} {a : α}
    (h : (t.run elapse s).1 = some a) : t.EndsAmid still s a (t.run elapse s).2 :=
  endsAmid_of_run elapse helapse (Prod.ext h rfl)

theorem endsAmid_done {a b : α} (h : (done a).EndsAmid still s b s') :
    b = a ∧ still s' = still s := by
  cases h with
  | done hstill => exact ⟨rfl, hstill⟩

theorem endsAmid_andThen {t : Task σ α} {f : α → Task σ β} {b : β}
    (h : (t.andThen f).EndsAmid still s b s') :
    ∃ a s₁, t.EndsAmid still s a s₁ ∧ (f a).EndsAmid still s₁ b s' := by
  induction t generalizing s with
  | done a => exact ⟨a, s, .done rfl, h⟩
  | step ready change next ih =>
      cases h with
      | step hstill hready rest =>
          obtain ⟨a, s₂, hnext, hf⟩ := ih _ rest
          exact ⟨a, s₂, .step hstill hready hnext, hf⟩
  | sleep millis next ih =>
      cases h with
      | sleep rest =>
          obtain ⟨a, s₂, hnext, hf⟩ := ih rest
          exact ⟨a, s₂, .sleep hnext, hf⟩

theorem endsAmid_atOnce {f : σ → α × σ} {a : α} (h : (atOnce f).EndsAmid still s a s') :
    ∃ s₁, still s₁ = still s ∧ a = (f s₁).1 ∧ still s' = still (f s₁).2 := by
  cases h with
  | @step _ _ _ _ s₁ _ _ hstill hready rest =>
      obtain ⟨ha, hrest⟩ := endsAmid_done rest
      exact ⟨s₁, hstill, ha, hrest⟩

/-- What the changes of an activity keep, and what is still keeps, is the same at its end. -/
theorem Changes.kept_of_endsAmid (kept : σ → κ) {t : Task σ α} {a : α}
    (ht : t.Changes fun s s' => kept s' = kept s)
    (hkept : ∀ s s', still s' = still s → kept s' = kept s) (h : t.EndsAmid still s a s') :
    kept s' = kept s := by
  induction h with
  | done hstill => exact hkept _ _ hstill
  | @step ready change next s s₁ s' a hstill hready rest ih =>
      obtain ⟨hchange, hnext⟩ := ht s₁ hready
      rw [ih hnext, hchange]
      exact hkept _ _ hstill
  | sleep rest ih => exact ih ht

/-- What the changes of an activity keep, and its sleep keeps, is kept when it runs alone. -/
theorem Changes.kept_of_run (kept : σ → κ) (elapse : Nat → σ → σ)
    (helapse : ∀ millis s, kept (elapse millis s) = kept s) {t : Task σ α}
    (ht : t.Changes fun s s' => kept s' = kept s) (s : σ) : kept (t.run elapse s).2 = kept s := by
  induction t generalizing s with
  | done a => rfl
  | step ready change next ih =>
      rw [run]
      split
      · rename_i hready
        obtain ⟨hchange, hnext⟩ := ht s hready
        exact (ih s hnext _).trans hchange
      · rfl
  | sleep millis next ih => exact (ih ht _).trans (helapse millis s)

theorem run_andThen (elapse : Nat → σ → σ) (t : Task σ α) (f : α → Task σ β) (s : σ) :
    (t.andThen f).run elapse s = match t.run elapse s with
      | (some a, s') => (f a).run elapse s'
      | (none, s') => (none, s') := by
  induction t generalizing s with
  | done a => rfl
  | step ready change next ih =>
      rw [andThen, run, run]
      split
      · exact ih s _
      · rfl
  | sleep millis next ih => exact ih _

theorem endsAmid_holding {lock : Part σ Bool} {t : Task σ α} {a : α}
    (h : (holding lock t).EndsAmid still s a s') :
    ∃ s₁ s₂ s₃, still s₁ = still s ∧ lock.get s₁ = false ∧
      t.EndsAmid still (lock.set true s₁) a s₂ ∧ still s₃ = still s₂ ∧
      still s' = still (lock.set false s₃) := by
  obtain ⟨u, s₁', hawait, hrest⟩ := endsAmid_andThen h
  obtain ⟨b, s₂, ht, hleave⟩ := endsAmid_andThen hrest
  obtain ⟨u', s₃', hmodify, hdone⟩ := endsAmid_andThen hleave
  obtain ⟨rfl, hlast⟩ := endsAmid_done hdone
  obtain ⟨s₃, hbefore, -, hafter⟩ := endsAmid_atOnce (f := fun s => ((), lock.set false s)) hmodify
  cases hawait with
  | @step _ _ _ _ s₁ _ _ hstill hready rest =>
      have hset := (endsAmid_done rest).2
      refine ⟨s₁, s₂, s₃, hstill, by simpa using hready, ht.from_still hset, hbefore, ?_⟩
      exact hlast.trans hafter

/-- An activity on a part comes to its end there while the part is as still as the whole. -/
theorem endsAmid_onPart {p : Part σ τ} {t : Task τ α} {a : α} (stillPart : τ → κ)
    (hset : ∀ r s, p.get (p.set r s) = r)
    (hstill : ∀ s s', still s' = still s → stillPart (p.get s') = stillPart (p.get s))
    (h : (t.onPart p).EndsAmid still s a s') :
    t.EndsAmid stillPart (p.get s) a (p.get s') := by
  induction t generalizing s with
  | done b =>
      obtain ⟨rfl, hdone⟩ := endsAmid_done h
      exact .done (hstill _ _ hdone)
  | step ready change next ih =>
      cases h with
      | step hbefore hready rest =>
          have hnext := ih _ rest
          rw [hset] at hnext
          exact .step (hstill _ _ hbefore) hready hnext
  | sleep millis next ih =>
      cases h with
      | sleep rest => exact .sleep (ih rest)

end Task

namespace Action

open TokenQuota.Task

variable {ε σ α β : Type} {υ : Type u} {still : σ → υ} {s s' : σ}

theorem endsAmid_bind {x : Action ε σ α} {f : α → Action ε σ β} {r : Except ε β}
    (h : (x >>= f).run.EndsAmid still s r s') :
    (∃ a s₁, x.run.EndsAmid still s (.ok a) s₁ ∧ (f a).run.EndsAmid still s₁ r s') ∨
      ∃ e s₁, r = .error e ∧ x.run.EndsAmid still s (.error e) s₁ ∧ still s' = still s₁ := by
  obtain ⟨a, s₁, hx, hf⟩ := endsAmid_andThen h
  cases a with
  | ok a => exact .inl ⟨a, s₁, hx, hf⟩
  | error e =>
      obtain ⟨rfl, hstill⟩ := endsAmid_done hf
      exact .inr ⟨e, s₁, rfl, hx, hstill⟩

theorem endsAmid_ofTask {t : Task σ α} {r : Except ε α}
    (h : (Action.ofTask t : Action ε σ α).run.EndsAmid still s r s') :
    ∃ a s₁, r = .ok a ∧ t.EndsAmid still s a s₁ ∧ still s' = still s₁ := by
  obtain ⟨a, s₁, ht, hdone⟩ := endsAmid_andThen h
  obtain ⟨rfl, hstill⟩ := endsAmid_done hdone
  exact ⟨a, s₁, rfl, ht, hstill⟩

theorem endsAmid_atOnce {f : σ → Except ε α × σ} {r : Except ε α}
    (h : (Action.atOnce f).run.EndsAmid still s r s') :
    ∃ s₁, still s₁ = still s ∧ r = (f s₁).1 ∧ still s' = still (f s₁).2 :=
  Task.endsAmid_atOnce h

theorem endsAmid_modify {f : σ → σ} {r : Except ε Unit}
    (h : (Action.modify f : Action ε σ Unit).run.EndsAmid still s r s') :
    r = .ok () ∧ ∃ s₁, still s₁ = still s ∧ still s' = still (f s₁) := by
  obtain ⟨u, s₂, rfl, hmodify, hstill⟩ := endsAmid_ofTask h
  obtain ⟨s₁, hstill₁, -, hstill₂⟩ := Task.endsAmid_atOnce (f := fun s => ((), f s)) hmodify
  exact ⟨rfl, s₁, hstill₁, hstill.trans hstill₂⟩

theorem endsAmid_read {f : σ → α} {r : Except ε α}
    (h : (Action.read f : Action ε σ α).run.EndsAmid still s r s') :
    ∃ s₁, r = .ok (f s₁) ∧ still s₁ = still s ∧ still s' = still s := by
  obtain ⟨a, s₂, rfl, hread, hstill⟩ := endsAmid_ofTask h
  obtain ⟨s₁, hstill₁, rfl, hstill₂⟩ := Task.endsAmid_atOnce (f := fun s => (f s, s)) hread
  exact ⟨s₁, rfl, hstill₁, (hstill.trans hstill₂).trans hstill₁⟩

/-- What follows an outcome comes to its end from where the outcome was known. -/
theorem endsAmid_bind_outcome {x : Action ε σ α} {f : Except ε α → Action ε σ β} {r : Except ε β}
    (h : (x.outcome >>= f).run.EndsAmid still s r s') :
    ∃ a s₁, x.run.EndsAmid still s a s₁ ∧ (f a).run.EndsAmid still s₁ r s' := by
  rw [run_outcome_bind] at h
  exact endsAmid_andThen h

end Action

end TokenQuota
