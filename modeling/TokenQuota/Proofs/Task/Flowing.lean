import TokenQuota.Task

/-!
Activities that never wait. They find every step ready as long as a part of the state is of one
value whenever they go on, so they come to their end if nobody else changes that part.
-/

namespace TokenQuota

universe u

namespace Task

variable {σ τ : Type} {α β : Type} {κ : Type u}

/-- From a state on, an activity finds every step ready, and in the end the part of the state that
it depends on has a certain value. While it sleeps, only the rest of the state changes. -/
def FlowsFrom (part : σ → κ) (k : κ) : Task σ α → σ → Prop
  | done _, s => part s = k
  | step ready change next, s => ready s = true ∧ (next s).FlowsFrom part k (change s)
  | sleep _ next, s => ∀ s', part s' = part s → next.FlowsFrom part k s'

/-- An activity never waits if a part of the state has a certain value at first, and it has it in
the end. -/
def Flows (part : σ → κ) (k : κ) (t : Task σ α) : Prop :=
  ∀ s, part s = k → t.FlowsFrom part k s

variable {part : σ → κ} {k k' : κ}

theorem FlowsFrom.andThen {t : Task σ α} {f : α → Task σ β} {s : σ} (h : t.FlowsFrom part k s)
    (hf : ∀ a s, part s = k → (f a).FlowsFrom part k' s) : (t.andThen f).FlowsFrom part k' s := by
  induction t generalizing s with
  | done a => exact hf a s h
  | step ready change next ih => exact ⟨h.1, ih s h.2⟩
  | sleep millis next ih => exact fun s' hs' => ih (h s' hs')

theorem flows_done (a : α) : (done a : Task σ α).Flows part k := fun _ h => h

theorem Flows.andThen {t : Task σ α} {f : α → Task σ β} (h : t.Flows part k)
    (hf : ∀ a, (f a).Flows part k) : (t.andThen f).Flows part k :=
  fun s hs => (h s hs).andThen hf

theorem flows_atOnce {f : σ → α × σ} (h : ∀ s, part (f s).2 = part s) :
    (atOnce f).Flows part k :=
  fun s hs => ⟨rfl, (h s).trans hs⟩

theorem flows_modify {f : σ → σ} (h : ∀ s, part (f s) = part s) : (modify f).Flows part k :=
  fun s hs => ⟨rfl, (h s).trans hs⟩

theorem flows_pause (millis : Nat) : (pause millis).Flows part k := by
  intro s hs
  unfold pause
  split
  · exact hs
  · exact fun s' hs' => hs'.trans hs

theorem flows_onPart_pause (p : Part σ τ) (millis : Nat) :
    ((pause millis).onPart p).Flows part k := by
  intro s hs
  unfold pause
  split
  · exact hs
  · exact fun s' hs' => hs'.trans hs

theorem Flows.onPart {p : Part σ τ} {part : τ → κ} {t : Task τ α}
    (hp : ∀ x s, p.get (p.set x s) = x) (h : t.Flows part k) :
    (t.onPart p).Flows (fun s => part (p.get s)) k := by
  have hfrom : ∀ s, t.FlowsFrom part k (p.get s) →
      (t.onPart p).FlowsFrom (fun s => part (p.get s)) k s := by
    clear h
    intro s h
    induction t generalizing s with
    | done a => exact h
    | step ready change next ih =>
        refine ⟨h.1, ih (p.get s) (p.set (change (p.get s)) s) ?_⟩
        rw [hp]
        exact h.2
    | sleep millis next ih => exact fun s' hs' => ih s' (h (p.get s') hs')
  exact fun s hs => hfrom s (h (p.get s) hs)

/-- A lock that is free is taken at once, and it is free again in the end. -/
theorem flows_holding {lock : Part σ Bool} (hlock : ∀ b s, lock.get (lock.set b s) = b)
    {t : Task σ α} (h : t.Flows lock.get true) : (holding lock t).Flows lock.get false := by
  intro s hs
  refine ⟨by simp [hs], (h _ (hlock true s)).andThen ?_⟩
  exact fun a s' _ => ⟨rfl, hlock false s'⟩

/-- An activity that never waits comes to its end if it is alone. -/
theorem Flows.run {t : Task σ α} (h : t.Flows part k) {elapse : Nat → σ → σ}
    (helapse : ∀ millis s, part (elapse millis s) = part s) {s : σ} (hs : part s = k) :
    ∃ a s', t.run elapse s = (some a, s') := by
  have hfrom : ∀ s, t.FlowsFrom part k s → ∃ a s', t.run elapse s = (some a, s') := by
    clear h hs
    intro s h
    induction t generalizing s with
    | done a => exact ⟨a, s, rfl⟩
    | step ready change next ih =>
        rw [Task.run, if_pos h.1]
        exact ih s (change s) h.2
    | sleep millis next ih => exact ih (elapse millis s) (h _ (helapse millis s))
  exact hfrom s (h s hs)

end Task

namespace Action

variable {ε σ τ : Type} {α β : Type} {κ : Type u} {part : σ → κ} {k : κ}

theorem flows_bind {x : Action ε σ α} {f : α → Action ε σ β} (hx : x.run.Flows part k)
    (hf : ∀ a, (f a).run.Flows part k) : (x >>= f).run.Flows part k := by
  refine Task.Flows.andThen hx fun r => ?_
  cases r with
  | ok a => exact hf a
  | error e => exact Task.flows_done _

theorem flows_ofTask {t : Task σ α} (h : t.Flows part k) :
    (Action.ofTask t : Action ε σ α).run.Flows part k :=
  Task.Flows.andThen h fun _ => Task.flows_done _

theorem flows_outcome {x : Action ε σ α} (h : x.run.Flows part k) :
    x.outcome.run.Flows part k :=
  Task.Flows.andThen h fun _ => Task.flows_done _

theorem flows_read (f : σ → α) : (Action.read f : Action ε σ α).run.Flows part k :=
  flows_ofTask fun _ hs => ⟨rfl, hs⟩

end Action

end TokenQuota
