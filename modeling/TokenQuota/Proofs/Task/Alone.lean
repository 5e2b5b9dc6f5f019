import TokenQuota.Proofs.Task.Amid

/-!
An activity that runs alone from its beginning to its end, without a pause. The rules below follow
the ways of composing activities, so that such a run is built step by step.
-/

namespace TokenQuota

/-- A part can be taken out of a state and put back: what is put last is found, and nothing else
changes. -/
structure Part.Fits {σ τ : Type} (p : Part σ τ) (s : σ) : Prop where
  same : p.set (p.get s) s = s
  get_set (r : τ) : p.get (p.set r s) = r
  set_set (r r' : τ) : p.set r' (p.set r s) = p.set r' s

theorem Part.Fits.set {σ τ : Type} {p : Part σ τ} {s : σ} (h : p.Fits s) (r : τ) :
    p.Fits (p.set r s) := by
  constructor
  · rw [h.get_set, h.set_set]
  · intro r'
    rw [h.set_set, h.get_set]
  · intro r' r''
    rw [h.set_set, h.set_set, h.set_set]

namespace Task

variable {σ τ : Type} {α β : Type} {s s' s₁ : σ} {a : α}

/-- Alone and without a pause, an activity comes to its end from a state, with a result and a last
state. -/
inductive RunsTo : Task σ α → σ → α → σ → Prop
  | done (a : α) (s : σ) : RunsTo (.done a) s a s
  | step {ready : σ → Bool} {change : σ → σ} {next : σ → Task σ α} {s s' : σ} {a : α}
      (hready : ready s = true) (rest : RunsTo (next s) (change s) a s') :
      RunsTo (.step ready change next) s a s'

theorem RunsTo.run {t : Task σ α} (h : t.RunsTo s a s') (elapse : Nat → σ → σ) :
    t.run elapse s = (some a, s') := by
  induction h with
  | done a s => rfl
  | step hready rest ih => rw [Task.run, if_pos hready, ih]

theorem RunsTo.andThen {t : Task σ α} {f : α → Task σ β} {b : β} (h : t.RunsTo s a s₁)
    (hf : (f a).RunsTo s₁ b s') : (t.andThen f).RunsTo s b s' := by
  induction h with
  | done a s => exact hf
  | step hready rest ih => exact .step hready (ih hf)

theorem runsTo_atOnce (f : σ → α × σ) (s : σ) : (atOnce f).RunsTo s (f s).1 (f s).2 :=
  .step rfl (.done _ _)

theorem runsTo_await {ready : σ → Bool} (change : σ → σ) (h : ready s = true) :
    (await ready change).RunsTo s () (change s) :=
  .step h (.done _ _)

/-- An activity on a part leaves the whole with the part that it leaves when it runs on that
alone. -/
theorem RunsTo.onPart {p : Part σ τ} {t : Task τ α} {r r' : τ} (h : t.RunsTo r a r')
    (hfits : p.Fits s) (hpart : p.get s = r) : (t.onPart p).RunsTo s a (p.set r' s) := by
  induction h generalizing s with
  | done a r =>
      rw [← hpart, hfits.same]
      exact .done a s
  | @step ready change next r r' a hready rest ih =>
      subst hpart
      have hnext := ih (hfits.set (change (p.get s))) (hfits.get_set _)
      rw [hfits.set_set] at hnext
      exact .step hready hnext

theorem RunsTo.holding {lock : Part σ Bool} {t : Task σ α} (hfree : lock.get s = false)
    (h : t.RunsTo (lock.set true s) a s₁) :
    (Task.holding lock t).RunsTo s a (lock.set false s₁) := by
  refine RunsTo.andThen (runsTo_await (lock.set true) ?_) ?_
  · simp [hfree]
  · exact h.andThen (RunsTo.andThen (runsTo_await (lock.set false) rfl) (.done a _))

end Task

namespace Action

open TokenQuota.Task

variable {ε σ α β : Type} {s s' s₁ : σ}

theorem runsTo_bind {x : Action ε σ α} {f : α → Action ε σ β} {a : α} {r : Except ε β}
    (hx : x.run.RunsTo s (.ok a) s₁) (hf : (f a).run.RunsTo s₁ r s') :
    (x >>= f).run.RunsTo s r s' :=
  hx.andThen hf

theorem runsTo_outcome {x : Action ε σ α} {r : Except ε α} (h : x.run.RunsTo s r s') :
    x.outcome.run.RunsTo s (.ok r) s' :=
  h.andThen (.done _ _)

theorem runsTo_ofTask {t : Task σ α} {a : α} (h : t.RunsTo s a s') :
    (Action.ofTask t : Action ε σ α).run.RunsTo s (.ok a) s' :=
  h.andThen (.done _ _)

theorem runsTo_read (f : σ → α) (s : σ) :
    (Action.read f : Action ε σ α).run.RunsTo s (.ok (f s)) s :=
  runsTo_ofTask (runsTo_atOnce (fun s => (f s, s)) s)

theorem runsTo_modify (f : σ → σ) (s : σ) :
    (Action.modify f : Action ε σ Unit).run.RunsTo s (.ok ()) (f s) :=
  runsTo_ofTask (runsTo_atOnce (fun s => ((), f s)) s)

theorem runsTo_atOnce (f : σ → Except ε α × σ) (s : σ) :
    (Action.atOnce f).run.RunsTo s (f s).1 (f s).2 :=
  Task.runsTo_atOnce f s

end Action

end TokenQuota
