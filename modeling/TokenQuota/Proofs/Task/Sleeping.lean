import Mathlib.Algebra.Order.Ring.Nat
import TokenQuota.Proofs.Task.Steps

/-!
How long an activity sleeps, whatever others do between its steps. What it sleeps for by itself is
within a limit, and every change may grant it more.
-/

namespace TokenQuota

namespace Task

variable {σ τ : Type} {α β : Type}

/-- The changes by which an activity becomes what is left of it, with the milliseconds that it
sleeps in all. -/
inductive Passes : Task σ α → List (σ × σ) → Nat → Task σ α → Prop
  | refl (t : Task σ α) : Passes t [] 0 t
  | step {ready : σ → Bool} {change : σ → σ} {next : σ → Task σ α} {s : σ}
      {l : List (σ × σ)} {slept : Nat} {t : Task σ α} (hready : ready s = true)
      (rest : Passes (next s) l slept t) :
      Passes (.step ready change next) ((s, change s) :: l) slept t
  | sleep {millis : Nat} {next : Task σ α} {l : List (σ × σ)} {slept : Nat} {t : Task σ α}
      (rest : Passes next l slept t) : Passes (.sleep millis next) l (millis + slept) t

/-- What passes are the steps of an activity, however long it sleeps between them. -/
theorem steps_iff_exists_passes {t t' : Task σ α} {l : List (σ × σ)} :
    Steps t l t' ↔ ∃ slept, Passes t l slept t' := by
  constructor
  · intro h
    induction h with
    | refl t => exact ⟨0, .refl t⟩
    | step hready rest ih =>
        obtain ⟨slept, hrest⟩ := ih
        exact ⟨slept, .step hready hrest⟩
    | sleep rest ih =>
        obtain ⟨slept, hrest⟩ := ih
        exact ⟨_, .sleep hrest⟩
  · rintro ⟨slept, h⟩
    induction h with
    | refl t => exact .refl t
    | step hready rest ih => exact .step hready ih
    | sleep rest ih => exact .sleep ih

/-- The milliseconds that an activity sleeps when it runs alone, as long as the state is ready. -/
def slept (elapse : Nat → σ → σ) : Task σ α → σ → Nat
  | .done _, _ => 0
  | .step ready change next, s => if ready s then (next s).slept elapse (change s) else 0
  | .sleep millis next, s => millis + next.slept elapse (elapse millis s)

theorem exists_passes_of_run (elapse : Nat → σ → σ) {t : Task σ α} {s s' : σ} {a : α}
    (h : t.run elapse s = (some a, s')) : ∃ l, Passes t l (t.slept elapse s) (.done a) := by
  induction t generalizing s with
  | done b =>
      cases h
      exact ⟨[], .refl _⟩
  | step ready change next ih =>
      rw [Task.run] at h
      split at h
      · rename_i hready
        obtain ⟨l, hrest⟩ := ih s h
        rw [slept, if_pos hready]
        exact ⟨_, .step hready hrest⟩
      · cases h
  | sleep millis next ih =>
      obtain ⟨l, hrest⟩ := ih h
      exact ⟨l, .sleep hrest⟩

/-- What is left of an activity sleeps within a limit, to which every change adds what it
grants. -/
def SleepsWithin (grant : σ × σ → Nat) : Task σ α → Nat → Prop
  | .done _, _ => True
  | .step ready change next, limit =>
    ∀ s, ready s = true → (next s).SleepsWithin grant (limit + grant (s, change s))
  | .sleep millis next, limit => millis ≤ limit ∧ next.SleepsWithin grant (limit - millis)

variable {grant : σ × σ → Nat} {m n : Nat}

theorem SleepsWithin.mono {t : Task σ α} (h : t.SleepsWithin grant m) (hmn : m ≤ n) :
    t.SleepsWithin grant n := by
  induction t generalizing m n with
  | done a => exact trivial
  | step ready change next ih =>
      intro s hready
      exact ih s (h s hready) (Nat.add_le_add_right hmn _)
  | sleep millis next ih => exact ⟨h.1.trans hmn, ih h.2 (Nat.sub_le_sub_right hmn millis)⟩

/-- The limits of two activities, one after the other, add up. -/
theorem SleepsWithin.andThen {t : Task σ α} {f : α → Task σ β} (ht : t.SleepsWithin grant m)
    (hf : ∀ a, (f a).SleepsWithin grant n) : (t.andThen f).SleepsWithin grant (m + n) := by
  induction t generalizing m with
  | done a => exact (hf a).mono (Nat.le_add_left n m)
  | step ready change next ih =>
      intro s hready
      exact (ih s (ht s hready)).mono (by omega)
  | sleep millis next ih =>
      obtain ⟨hmillis, hnext⟩ := ht
      exact ⟨hmillis.trans (Nat.le_add_right m n), (ih hnext).mono (by omega)⟩

/-- The limit bounds what is slept in every course of an activity. -/
theorem SleepsWithin.of_passes {t t' : Task σ α} {l : List (σ × σ)} {slept : Nat}
    (ht : t.SleepsWithin grant m) (h : Passes t l slept t') :
    slept ≤ m + (l.map grant).sum := by
  induction h generalizing m with
  | refl t => exact Nat.zero_le _
  | step hready rest ih =>
      have hrest := ih (ht _ hready)
      rw [List.map_cons, List.sum_cons]
      omega
  | sleep rest ih =>
      obtain ⟨hmillis, hnext⟩ := ht
      have hrest := ih hnext
      omega

theorem sleepsWithin_atOnce (f : σ → α × σ) : (atOnce f).SleepsWithin grant 0 :=
  fun _ _ => trivial

theorem sleepsWithin_read (f : σ → α) : (read f).SleepsWithin grant 0 :=
  fun _ _ => trivial

theorem sleepsWithin_pause (millis : Nat) :
    (pause (σ := σ) millis).SleepsWithin grant millis := by
  unfold pause
  split
  · exact trivial
  · exact ⟨Nat.le_refl millis, trivial⟩

theorem SleepsWithin.onPart {p : Part σ τ} {grant' : τ × τ → Nat} {t : Task τ α}
    (hgrant : ∀ s r, grant' (p.get s, r) ≤ grant (s, p.set r s)) (h : t.SleepsWithin grant' m) :
    (t.onPart p).SleepsWithin grant m := by
  induction t generalizing m with
  | done a => exact trivial
  | step ready change next ih =>
      intro s hready
      exact (ih _ (h _ hready)).mono (Nat.add_le_add_left (hgrant s _) m)
  | sleep millis next ih => exact ⟨h.1, ih h.2⟩

theorem SleepsWithin.holding {lock : Part σ Bool} {t : Task σ α} (h : t.SleepsWithin grant m) :
    (Task.holding lock t).SleepsWithin grant m := by
  have hleave : ∀ a : α, (modify (lock.set false) >>= fun _ => pure a).SleepsWithin grant 0 :=
    fun _ _ _ => trivial
  intro s _
  exact (h.andThen hleave).mono (Nat.le_add_right m _)

end Task

namespace Action

open TokenQuota.Task

variable {ε σ α β : Type} {grant : σ × σ → Nat} {m n : Nat}

theorem sleepsWithin_pure (a : α) : (pure a : Action ε σ α).run.SleepsWithin grant 0 := trivial

theorem sleepsWithin_throw (e : ε) : (throw e : Action ε σ α).run.SleepsWithin grant 0 := trivial

theorem sleepsWithin_bind {x : Action ε σ α} {f : α → Action ε σ β}
    (hx : x.run.SleepsWithin grant m) (hf : ∀ a, (f a).run.SleepsWithin grant n) :
    (x >>= f).run.SleepsWithin grant (m + n) := by
  refine SleepsWithin.andThen hx ?_
  intro r
  cases r with
  | ok a => exact hf a
  | error e => exact trivial

/-- What comes before an action without sleeping does not count. -/
theorem sleepsWithin_bind_right {x : Action ε σ α} {f : α → Action ε σ β}
    (hx : x.run.SleepsWithin grant 0) (hf : ∀ a, (f a).run.SleepsWithin grant n) :
    (x >>= f).run.SleepsWithin grant n :=
  (sleepsWithin_bind hx hf).mono (Nat.zero_add n).le

theorem sleepsWithin_ofTask {t : Task σ α} (h : t.SleepsWithin grant m) :
    (Action.ofTask t : Action ε σ α).run.SleepsWithin grant m :=
  SleepsWithin.andThen (n := 0) h fun _ => trivial

theorem sleepsWithin_outcome {x : Action ε σ α} (h : x.run.SleepsWithin grant m) :
    x.outcome.run.SleepsWithin grant m :=
  SleepsWithin.andThen (n := 0) h fun _ => trivial

end Action

end TokenQuota
