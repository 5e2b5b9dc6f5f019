import TokenQuota.Proofs.Task.Pool

/-!
Callers that rely on nothing but a fact, which all of them keep. In a run that starts with the fact
it holds all the time.
-/

namespace TokenQuota

namespace Protocol

variable {ι κ σ τ ε : Type} {α : Type} {I : σ → Prop} {J : τ → Prop} {i : ι} {k : κ}

/-- Every step keeps a fact, and nobody relies on more. -/
def keeping (ι : Type) (I : σ → Prop) : Protocol ι Unit σ where
  inv := I
  given _ := True
  rely _ _ _ := True
  move _ _ _ _ s' := I s'
  rely_refl _ _ := trivial
  rely_trans _ _ := trivial

theorem stable_keeping (p : Prop) : (keeping ι I).Stable () fun _ => p := fun _ _ _ hp => hp

theorem keeping_of_changes {K : σ → σ → Prop} {x : Action ε σ α} (hx : x.run.Changes K)
    (hK : ∀ s s', I s → K s s' → I s') :
    (keeping ι I).Does i () (fun _ => True) x fun _ _ => True :=
  does_of_changes hx (stable_keeping True) fun s s' _ hs _ h => ⟨hK s s' hs h, trivial⟩

/-- What keeps a fact about a part keeps one about the whole. Nobody relies on what was put into the
part, and so it may be found changed. -/
theorem Safe.keeping_onPart {Q : α → Prop} {p : Part σ τ} (hget : ∀ s, I s → J (p.get s))
    (hset : ∀ s r, I s → J r → I (p.set r s)) {t : Task τ α} {r : τ}
    (h : (keeping κ J).Safe k (fun _ a _ => Q a) t () r) (s : σ) :
    (keeping ι I).Safe i (fun _ a _ => Q a) (t.onPart p) () s := by
  induction t generalizing r s with
  | done a => exact fun s' hs' _ => h (p.get s') (hget s' hs') trivial
  | step ready change next ih =>
      intro s' hs' _ _ hready
      obtain ⟨_, hmove, hnext⟩ := h (p.get s') (hget s' hs') trivial trivial hready
      exact ⟨(), hset s' _ hs' hmove, ih (p.get s') hnext _⟩
  | sleep millis next ih => exact ih h s

theorem Does.keeping_onPart {p : Part σ τ} (hget : ∀ s, I s → J (p.get s))
    (hset : ∀ s r, I s → J r → I (p.set r s)) {x : Action ε τ α} {R : Except ε α → Prop}
    (hx : (keeping κ J).Does k () (fun _ => True) x fun r _ => R r) :
    (keeping ι I).Does i () (fun _ => True) (Action.onPart p x) fun r _ => R r := by
  intro s _
  refine (Safe.keeping_onPart (Q := R) hget hset ((hx (p.get s) trivial).mono ?_) s).mono ?_
  · exact fun _ r _ _ hr => hr.2
  · exact fun _ r _ _ hr => ⟨rfl, hr⟩

end Protocol

/-- What every caller keeps and nothing outside takes away holds in a run as it did in the
beginning. -/
theorem Pool.Run.keeping {ι σ α : Type} {I : σ → Prop} {work : ι → Task σ α}
    {outside : σ → σ → Prop} {s₀ : σ} {es : List (Event σ)} {p : Pool ι σ α}
    (h : Run work outside s₀ es p) (hstart : I s₀)
    (hwork : ∀ i s, (Protocol.keeping ι I).Safe i (fun _ _ _ => True) (work i) () s)
    (houtside : ∀ s s', outside s s' → I s → I s') : I p.state := by
  have hkeeps : (Protocol.keeping ι I).Keeps () outside fun s _ _ => I s :=
    ⟨id, fun hs _ => hs, fun _ _ _ hmove => hmove, fun _ _ _ _ _ _ _ _ => trivial,
      fun hs hchange => houtside _ _ hchange hs, fun _ _ _ _ _ _ => trivial⟩
  obtain ⟨roles, hlast, -⟩ := h.guarded hkeeps hwork hstart fun _ _ => trivial
  exact hlast

end TokenQuota
