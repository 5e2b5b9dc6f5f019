import TokenQuota.Proofs.Task.Alone
import TokenQuota.Proofs.Task.Protocol

/-!
One caller at a time, while nobody else changes what is to be still. What is known of an activity
by the rules for callers is known at its end, however it came there amid other changes.
-/

namespace TokenQuota

universe u v

open TokenQuota.Task (EndsAmid RunsTo)

namespace Protocol

variable {ι κ σ τ ε ε' α : Type} {υ : Type u} {ω : Type v}

/-- There is one caller, and the others leave alone what is still. -/
def solo (ι : Type) {σ : Type} {υ : Type u} (still : σ → υ) : Protocol ι Unit σ where
  inv _ := True
  given _ := True
  rely _ s s' := still s' = still s
  move _ _ _ _ _ := True
  rely_refl _ _ := rfl
  rely_trans h h' := h'.trans h

variable {still : σ → υ} {i : ι} {s s' : σ} {J : σ → Prop}

theorem Safe.of_endsAmid {Q : Unit → α → σ → Prop} {t : Task σ α} {a : α}
    (h : (solo ι still).Safe i Q t () s) (hends : t.EndsAmid still s a s') : Q () a s' := by
  induction hends with
  | done hstill => exact h _ trivial hstill
  | step hstill hready rest ih =>
      obtain ⟨_, -, hnext⟩ := h _ trivial trivial hstill hready
      exact ih hnext
  | sleep rest ih => exact ih h

theorem Does.of_endsAmid {x : Action ε σ α} {R : Except ε α → σ → Prop} {r : Except ε α}
    (h : (solo ι still).Does i () J x R) (hs : J s) (hends : x.run.EndsAmid still s r s') :
    R r s' :=
  ((h s hs).of_endsAmid hends).2

/-- Where nothing at all is changed by others, an activity that runs alone to its end ends there. -/
theorem safe_of_runsTo {t : Task σ α} {a : α} (h : t.RunsTo s a s') :
    (solo ι (id : σ → σ)).Safe i (fun _ b s₁ => b = a ∧ s₁ = s') t () s := by
  induction h with
  | done a s => exact fun s₁ _ hsame => ⟨rfl, hsame⟩
  | step hready rest ih =>
      rintro s₁ - - (rfl : s₁ = _) -
      exact ⟨(), trivial, ih⟩

theorem does_of_runsTo {x : Action ε σ α} {R : Except ε α → σ → Prop}
    (h : ∀ s, J s → ∃ r s', x.run.RunsTo s r s' ∧ R r s') :
    (solo ι (id : σ → σ)).Does i () J x R := by
  intro s hs
  obtain ⟨r, s', hrun, hr⟩ := h s hs
  refine (safe_of_runsTo hrun).mono ?_
  rintro _ r' s₁ - ⟨rfl, rfl⟩
  exact ⟨rfl, hr⟩

/-- What is done to a part is done in the whole, where the part is as still as the whole. -/
theorem Does.onPart {p : Part σ τ} {stillPart : τ → ω} {k : κ} {F : τ → Prop} {x : Action ε τ α}
    {R : Except ε α → τ → Prop} (hx : (solo κ stillPart).Does k () F x R)
    (hget : ∀ s r, p.get (p.set r s) = r)
    (hpart : ∀ s s', still s' = still s → stillPart (p.get s') = stillPart (p.get s))
    (hJ : (solo ι still).Stable () J) (hset : ∀ s r, J s → J (p.set r s)) :
    (solo ι still).Does i () (fun s => J s ∧ F (p.get s)) (Action.onPart p x)
      fun r s => J s ∧ R r (p.get s) := by
  rintro s ⟨hs, hF⟩
  have hembeds : (solo κ stillPart).Embeds ((solo ι still).assuming J) p k i id :=
    ⟨hget, fun _ _ => trivial, fun _ _ => trivial, fun _ => hpart, fun _ _ _ _ _ _ _ => trivial⟩
  refine ((hx _ hF).onPart_while (fun _ => hJ) hset hembeds hs).mono ?_
  rintro _ r s' - ⟨_, rfl, ⟨-, hR⟩, hs'⟩
  exact ⟨rfl, hs', hR⟩

theorem Does.adapt {x : Action ε σ α} {R : Except ε α → σ → Prop} (f : ε → ε')
    (hx : (solo ι still).Does i () J x R) :
    (solo ι still).Does i () J (ExceptT.adapt f x : Action ε' σ α)
      fun r s => ∃ r', r = r'.mapError f ∧ R r' s := by
  intro s hs
  refine (hx s hs).later.andThen ?_
  intro _ r s' _ hr s'' _ hstill
  exact ⟨rfl, r, rfl, (hr s'' trivial hstill).2⟩

end Protocol

end TokenQuota
