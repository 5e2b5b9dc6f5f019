import TokenQuota.Proofs.Task.Amid

/-!
An activity that runs alone comes to its end, with a result and a last state of which something
holds. The rules below follow the ways of composing activities.
-/

namespace TokenQuota

namespace Task

variable {σ : Type} {α β : Type} {elapse : Nat → σ → σ} {Q R : α → σ → Prop} {s : σ}

/-- Alone, an activity comes to its end from a state, and something holds of the result and the
last state. -/
def Finishes (elapse : Nat → σ → σ) (Q : α → σ → Prop) : Task σ α → σ → Prop
  | done a, s => Q a s
  | step ready change next, s => ready s = true ∧ (next s).Finishes elapse Q (change s)
  | sleep millis next, s => next.Finishes elapse Q (elapse millis s)

theorem finishes_iff_run {t : Task σ α} :
    t.Finishes elapse Q s ↔ ∃ a s', t.run elapse s = (some a, s') ∧ Q a s' := by
  induction t generalizing s with
  | done a =>
      constructor
      · intro h
        exact ⟨a, s, rfl, h⟩
      · rintro ⟨a', s', heq, h⟩
        cases heq
        exact h
  | step ready change next ih =>
      rw [Finishes, run]
      split
      · rename_i hready
        rw [ih]
        simp [hready]
      · rename_i hready
        simp [hready]
  | sleep millis next ih => exact ih

theorem Finishes.mono {t : Task σ α} (h : t.Finishes elapse Q s) (hQ : ∀ a s, Q a s → R a s) :
    t.Finishes elapse R s := by
  induction t generalizing s with
  | done a => exact hQ a s h
  | step ready change next ih => exact ⟨h.1, ih s h.2⟩
  | sleep millis next ih => exact ih h

theorem Finishes.andThen {R : β → σ → Prop} {t : Task σ α} {f : α → Task σ β}
    (h : t.Finishes elapse Q s) (hf : ∀ a s, Q a s → (f a).Finishes elapse R s) :
    (t.andThen f).Finishes elapse R s := by
  induction t generalizing s with
  | done a => exact hf a s h
  | step ready change next ih => exact ⟨h.1, ih s h.2⟩
  | sleep millis next ih => exact ih h

theorem finishes_pause {Q : Unit → σ → Prop} {millis : Nat} (h : Q () s)
    (helapse : Q () (elapse millis s)) : (pause millis).Finishes elapse Q s := by
  unfold pause
  split
  · exact h
  · exact helapse

theorem Finishes.holding {lock : Part σ Bool} {t : Task σ α} (hfree : lock.get s = false)
    (h : t.Finishes elapse (fun a s => Q a (lock.set false s)) (lock.set true s)) :
    (Task.holding lock t).Finishes elapse Q s := by
  refine ⟨by simp [hfree], h.andThen ?_⟩
  intro a s' ha
  exact ⟨rfl, ha⟩

end Task

namespace Action

open TokenQuota.Task

variable {ε σ α β : Type} {elapse : Nat → σ → σ} {s : σ} {R : Except ε β → σ → Prop}

theorem finishes_bind {Q : Except ε α → σ → Prop} {x : Action ε σ α} {f : α → Action ε σ β}
    (hx : x.run.Finishes elapse Q s)
    (hok : ∀ a s, Q (.ok a) s → (f a).run.Finishes elapse R s)
    (herror : ∀ e s, Q (.error e) s → R (.error e) s) : (x >>= f).run.Finishes elapse R s := by
  refine Task.Finishes.andThen hx fun r s' hr => ?_
  cases r with
  | ok a => exact hok a s' hr
  | error e => exact herror e s' hr

/-- What follows is told whether the first part failed. -/
theorem finishes_bind_outcome {Q : Except ε α → σ → Prop} {x : Action ε σ α}
    {f : Except ε α → Action ε σ β} (hx : x.run.Finishes elapse Q s)
    (hf : ∀ r s, Q r s → (f r).run.Finishes elapse R s) :
    (x.outcome >>= f).run.Finishes elapse R s := by
  rw [run_outcome_bind]
  exact Task.Finishes.andThen hx hf

theorem finishes_bind_ofTask {Q : α → σ → Prop} {t : Task σ α} {f : α → Action ε σ β}
    (ht : t.Finishes elapse Q s) (hf : ∀ a s, Q a s → (f a).run.Finishes elapse R s) :
    ((Action.ofTask t : Action ε σ α) >>= f).run.Finishes elapse R s := by
  refine finishes_bind (Q := fun r s => ∃ a, r = .ok a ∧ Q a s) ?_ ?_ ?_
  · exact Task.Finishes.andThen ht fun a s' ha => ⟨a, rfl, ha⟩
  · rintro a s' ⟨a', heq, ha⟩
    cases heq
    exact hf a s' ha
  · rintro e s' ⟨a, heq, -⟩
    cases heq

theorem finishes_bind_atOnce {g : σ → α × σ} {f : α → Action ε σ β}
    (h : (f (g s).1).run.Finishes elapse R (g s).2) :
    ((Action.ofTask (Task.atOnce g) : Action ε σ α) >>= f).run.Finishes elapse R s := by
  refine finishes_bind_ofTask (Q := fun a s' => a = (g s).1 ∧ s' = (g s).2) ⟨rfl, rfl, rfl⟩ ?_
  rintro a s' ⟨rfl, rfl⟩
  exact h

theorem finishes_bind_read {g : σ → α} {f : α → Action ε σ β}
    (h : (f (g s)).run.Finishes elapse R s) :
    ((Action.read g : Action ε σ α) >>= f).run.Finishes elapse R s :=
  finishes_bind_atOnce (g := fun s => (g s, s)) h

end Action

end TokenQuota
