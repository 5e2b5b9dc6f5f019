import TokenQuota.Proofs.Task.Pool

/-!
Protocols in which a caller may have a duty that nobody else has meanwhile, such as holding a
lock. While it has the duty it relies on more than the invariant.
-/

namespace TokenQuota

/-- Duties on a state, each of at most one caller at a time. -/
structure Duties (δ σ : Type) where
  /-- What holds of the state between the steps. -/
  inv : σ → Prop
  /-- What is given of the states in which steps start. -/
  given : σ → Prop
  /-- Somebody has the duty. -/
  taken : δ → σ → Prop
  /-- How the others change the state while a caller has the duty. -/
  rely : δ → σ → σ → Prop
  /-- What every step keeps. -/
  guar : σ → σ → Prop
  guar_refl : ∀ s, guar s s
  rely_refl : ∀ d s, rely d s s
  rely_trans : ∀ {d s s' s''}, rely d s s' → rely d s' s'' → rely d s s''
  rely_taken : ∀ {d s s'}, rely d s s' → taken d s → taken d s'

namespace Duties

variable {ι δ σ ε : Type} {α : Type}

/-- A step of a caller with a duty, or without one, that leaves it with another or the same. -/
structure Move (D : Duties δ σ) (m m' : Option δ) (s s' : σ) : Prop where
  inv : D.inv s'
  guar : D.guar s s'
  others : ∀ d, m ≠ some d → D.taken d s → D.rely d s s'
  taken : ∀ d, m' = some d → D.taken d s'
  /-- Only a duty that nobody has is taken up. -/
  free : ∀ d, m' = some d → m ≠ some d → ¬D.taken d s

/-- The roles of a protocol are the duties and having none. -/
def protocol (ι : Type) (D : Duties δ σ) : Protocol ι (Option δ) σ where
  inv := D.inv
  given := D.given
  rely m s s' := ∀ d, m = some d → D.rely d s s'
  move _ := D.Move
  rely_refl _ s d _ := D.rely_refl d s
  rely_trans h h' d hd := D.rely_trans (h d hd) (h' d hd)

/-- There is no duty, and nothing that is to be kept. -/
def nothing (σ : Type) : Duties Empty σ where
  inv _ := True
  given _ := True
  taken _ _ := False
  rely _ _ _ := True
  guar _ _ := True
  guar_refl _ := trivial
  rely_refl _ _ := trivial
  rely_trans _ _ := trivial
  rely_taken _ h := h

theorem move_nothing (m : Option Empty) (s s' : σ) : (nothing σ).Move m m s s' :=
  ⟨trivial, trivial, nofun, nofun, nofun⟩

/-- The invariant holds, every duty is taken by one caller at most, and so it was before every
step so far. -/
structure Kept (D : Duties δ σ) (s : σ) (roles : List (ι × Option δ)) (es : List (Event σ)) :
    Prop where
  inv : D.inv s
  taken : ∀ (n : Nat) (i : ι) (d : δ), roles[n]? = some (i, some d) → D.taken d s
  unique : ∀ (n k : Nat) (i j : ι) (d : δ), roles[n]? = some (i, some d) →
    roles[k]? = some (j, some d) → n = k
  events : ∀ e ∈ es, D.inv e.before ∧ D.guar e.before e.after

/-- The duties of callers, without what else their roles say. -/
def dutiesOf {κ : Type} (roles : List (ι × Option δ × κ)) : List (ι × Option δ) :=
  roles.map fun c => (c.1, c.2.1)

theorem getElem?_dutiesOf {κ : Type} {roles : List (ι × Option δ × κ)} {n : Nat} {i : ι}
    {d : Option δ} {a : κ} (h : roles[n]? = some (i, d, a)) :
    (dutiesOf roles)[n]? = some (i, d) := by
  rw [dutiesOf, List.getElem?_map, h]
  rfl

variable {D : Duties δ σ} {s s' : σ} {roles : List (ι × Option δ)} {es : List (Event σ)}

theorem Kept.join (h : D.Kept s roles es) (i : ι) : D.Kept s (roles ++ [(i, none)]) es := by
  have hold : ∀ (n : Nat) (j : ι) (d : δ), (roles ++ [(i, none)])[n]? = some (j, some d) →
      roles[n]? = some (j, some d) := by
    intro n j d hn
    rw [List.getElem?_append] at hn
    split at hn
    · exact hn
    · rw [List.getElem?_singleton] at hn
      split at hn
      · cases hn
      · cases hn
  constructor
  · exact h.inv
  · intro n j d hn
    exact h.taken n j d (hold n j d hn)
  · intro n k j j' d hn hk
    exact h.unique n k j j' d (hold n j d hn) (hold k j' d hk)
  · exact h.events

theorem rely_others (h : D.Kept s roles es) {n : Nat} {i : ι} {m m' : Option δ}
    (hn : roles[n]? = some (i, m)) (hmove : D.Move m m' s s') (k : Nat) (j : ι) (r : Option δ)
    (hne : k ≠ n) (hk : roles[k]? = some (j, r)) : (D.protocol ι).rely r s s' := by
  rintro d rfl
  refine hmove.others d ?_ (h.taken k j d hk)
  rintro rfl
  exact hne (h.unique k n j i d hk hn)

theorem Kept.step (h : D.Kept s roles es) {n : Nat} {i : ι} {m m' : Option δ}
    (hn : roles[n]? = some (i, m)) (hmove : D.Move m m' s s') :
    D.Kept s' (roles.set n (i, m')) (es ++ [⟨n, s, s'⟩]) := by
  -- A duty is the caller's new one, or another caller's that had it before.
  have hwas : ∀ (k : Nat) (j : ι) (d : δ), (roles.set n (i, m'))[k]? = some (j, some d) →
      (k = n ∧ m' = some d) ∨ (k ≠ n ∧ roles[k]? = some (j, some d)) := by
    intro k j d hk
    rcases (getElem?_set_eq_some hn).mp hk with ⟨heq, hrole⟩ | hold
    · exact .inl ⟨heq, congrArg Prod.snd hrole⟩
    · exact .inr hold
  have hkeeps : ∀ (k : Nat) (j : ι) (d : δ), k ≠ n → roles[k]? = some (j, some d) →
      D.taken d s' := by
    intro k j d hne hk
    exact D.rely_taken (rely_others h hn hmove k j (some d) hne hk d rfl) (h.taken k j d hk)
  have hfree : ∀ (k : Nat) (j : ι) (d : δ), m' = some d → k ≠ n →
      roles[k]? = some (j, some d) → False := by
    intro k j d hd hne hk
    refine hmove.free d hd ?_ (h.taken k j d hk)
    rintro rfl
    exact hne (h.unique k n j i d hk hn)
  constructor
  · exact hmove.inv
  · intro k j d hk
    rcases hwas k j d hk with ⟨-, hd⟩ | ⟨hne, hk⟩
    · exact hmove.taken d hd
    · exact hkeeps k j d hne hk
  · intro k k' j j' d hk hk'
    rcases hwas k j d hk with ⟨heq, hd⟩ | ⟨hne, hold⟩
    · rcases hwas k' j' d hk' with ⟨heq', -⟩ | ⟨hne', hold'⟩
      · rw [heq, heq']
      · exact absurd (hfree k' j' d hd hne' hold') id
    · rcases hwas k' j' d hk' with ⟨-, hd'⟩ | ⟨-, hold'⟩
      · exact absurd (hfree k j d hd' hne hold) id
      · exact h.unique k k' j j' d hold hold'
  · intro e he
    rcases List.mem_append.mp he with he | he
    · exact h.events e he
    · rw [List.mem_singleton.mp he]
      exact ⟨h.inv, hmove.guar⟩

theorem keeps {outside : σ → σ → Prop}
    (houtside : ∀ s s', D.inv s → outside s s' → D.inv s' ∧ ∀ d, D.taken d s → D.rely d s s') :
    (D.protocol ι).Keeps none outside D.Kept where
  inv h := h.inv
  join h i := h.join i
  step h _ hn hmove := h.step hn hmove
  rely_step h hn hmove := rely_others h hn hmove
  change h hs := by
    obtain ⟨hinv, hrely⟩ := houtside _ _ h.inv hs
    refine ⟨hinv, ?_, h.unique, h.events⟩
    intro n i d hn
    exact D.rely_taken (hrely d (h.taken n i d hn)) (h.taken n i d hn)
  rely_change h hs k j r hk := by
    rintro d rfl
    exact (houtside _ _ h.inv hs).2 d (h.taken k j d hk)

/-- In a run the invariant holds before and after all steps, and every step keeps what steps
keep. -/
theorem inv_of_run {work : ι → Task σ α} {outside : σ → σ → Prop} {s₀ : σ} {p : Pool ι σ α}
    (houtside : ∀ s s', D.inv s → outside s s' → D.inv s' ∧ ∀ d, D.taken d s → D.rely d s s')
    (hwork : ∀ i s, (D.protocol ι).Safe i (fun _ _ _ => True) (work i) none s)
    (hinit : D.inv s₀) (hrun : Pool.Run work outside s₀ es p)
    (hgiven : ∀ e ∈ es, D.given e.before) :
    D.inv p.state ∧ ∀ e ∈ es, D.inv e.before ∧ D.guar e.before e.after := by
  have hkept : D.Kept s₀ ([] : List (ι × Option δ)) [] := ⟨hinit, by simp, by simp, by simp⟩
  obtain ⟨roles, h, -⟩ := hrun.guarded (keeps houtside) hwork hkept hgiven
  exact ⟨h.inv, h.events⟩

theorem move_refl {m : Option δ} (hinv : D.inv s) (hm : ∀ d, m = some d → D.taken d s) :
    D.Move m m s s where
  inv := hinv
  guar := D.guar_refl s
  others d _ _ := D.rely_refl d s
  taken := hm
  free _ hd hne := absurd hd hne

/-- Changes that keep the invariant, and on which everybody may rely. -/
def Harmless (D : Duties δ σ) (K : σ → σ → Prop) : Prop :=
  ∀ s s', D.inv s → D.given s → K s s' → D.inv s' ∧ D.guar s s' ∧ ∀ d, D.rely d s s'

variable {K : σ → σ → Prop}

theorem Harmless.move (hK : D.Harmless K) (hinv : D.inv s) (hgiven : D.given s) (h : K s s')
    {m : Option δ} (hm : ∀ d, m = some d → D.taken d s) : D.Move m m s s' := by
  obtain ⟨hinv', hguar, hrely⟩ := hK s s' hinv hgiven h
  constructor
  · exact hinv'
  · exact hguar
  · intro d _ _
    exact hrely d
  · intro d hd
    exact D.rely_taken (hrely d) (hm d hd)
  · intro d hd hne
    exact absurd hd hne

theorem Harmless.safe (hK : D.Harmless K) {i : ι} {t : Task σ α} (ht : t.Changes K) :
    (D.protocol ι).Safe i (fun m _ _ => m = none) t none s := by
  have hnone : ∀ (s : σ) (d : δ), none = some d → D.taken d s := by
    intro s d hd
    cases hd
  have hsafe := Protocol.safe_of_changes (P := D.protocol ι) (i := i) (m := none) (s := s) ht
    fun s₁ s₂ _ hinv hgiven h => ⟨hK.move hinv hgiven h (hnone s₁), fun d hd => by cases hd⟩
  exact hsafe.mono fun m _ _ _ h => h.1

/-- A caller with a duty may take harmless steps, and relies on them itself. -/
theorem Harmless.move_rely (hK : D.Harmless K) (hinv : D.inv s) (hgiven : D.given s)
    (h : K s s') {d : δ} (hd : D.taken d s) :
    D.Move (some d) (some d) s s' ∧ (D.protocol ι).rely (some d) s s' := by
  constructor
  · refine hK.move hinv hgiven h ?_
    rintro _ ⟨⟩
    exact hd
  · rintro _ ⟨⟩
    exact (hK s s' hinv hgiven h).2.2 d

theorem Harmless.does (hK : D.Harmless K) {i : ι} {d : δ} {x : Action ε σ α}
    (hx : x.run.Changes K) {J : σ → Prop} (hJ : (D.protocol ι).Stable (some d) J)
    (htaken : ∀ s, J s → D.taken d s) :
    (D.protocol ι).Does i (some d) J x fun _ s => J s :=
  Protocol.does_of_changes hx hJ fun s _ hs hinv hgiven h =>
    hK.move_rely hinv hgiven h (htaken s hs)

end Duties

end TokenQuota
