import TokenQuota.Proofs.Task.Steps

/-!
How several callers work on one state, and what one of them may rely on while the others come
between its steps.
-/

namespace TokenQuota

/-- How several callers work on one state. Each caller has a role, which its steps may change. -/
structure Protocol (ι μ σ : Type) where
  /-- What holds of the state between the steps. -/
  inv : σ → Prop
  /-- What is given of the states in which steps start. -/
  given : σ → Prop
  /-- How the others change the state while a caller is in a role. -/
  rely : μ → σ → σ → Prop
  /-- How a step of a caller changes its role and the state. -/
  move : ι → μ → μ → σ → σ → Prop
  rely_refl : ∀ m s, rely m s s
  rely_trans : ∀ {m s s' s''}, rely m s s' → rely m s' s'' → rely m s s''

namespace Protocol

variable {ι μ σ τ ε : Type} {α β : Type} (P : Protocol ι μ σ) (i : ι)

/-- Every step of what is left of an activity is a move, whatever the others do as long as the
caller can rely on them, and what holds at the end is known of the role, the result and the
state. -/
def Safe (Q : μ → α → σ → Prop) : Task σ α → μ → σ → Prop
  | .done a, m, s => ∀ s', P.inv s' → P.rely m s s' → Q m a s'
  | .step ready change next, m, s => ∀ s', P.inv s' → P.given s' → P.rely m s s' →
      ready s' = true → ∃ m', P.move i m m' s' (change s') ∧ Safe Q (next s') m' (change s')
  | .sleep _ next, m, s => Safe Q next m s

variable {P i} {Q : μ → α → σ → Prop} {R : μ → β → σ → Prop} {m : μ} {s : σ}

theorem Safe.rely {t : Task σ α} {s' : σ} (h : P.Safe i Q t m s) (hrely : P.rely m s s') :
    P.Safe i Q t m s' := by
  induction t with
  | done a =>
      intro s'' hinv hrely'
      exact h s'' hinv (P.rely_trans hrely hrely')
  | step ready change next ih =>
      intro s'' hinv hgiven hrely'
      exact h s'' hinv hgiven (P.rely_trans hrely hrely')
  | sleep millis next ih => exact ih h

/-- Only the states to which the others bring the current one count. -/
theorem safe_of_later {t : Task σ α}
    (h : ∀ s', P.inv s' → P.rely m s s' → P.Safe i Q t m s') : P.Safe i Q t m s := by
  induction t with
  | done a =>
      intro s' hinv hrely
      exact h s' hinv hrely s' hinv (P.rely_refl m s')
  | step ready change next ih =>
      intro s' hinv hgiven hrely
      exact h s' hinv hrely s' hinv hgiven (P.rely_refl m s')
  | sleep millis next ih => exact ih h

theorem Safe.andThen {t : Task σ α} {f : α → Task σ β} (ht : P.Safe i Q t m s)
    (hf : ∀ m' a s', P.inv s' → Q m' a s' → P.Safe i R (f a) m' s') :
    P.Safe i R (t.andThen f) m s := by
  induction t generalizing m s with
  | done a => exact safe_of_later fun s' hinv hrely => hf m a s' hinv (ht s' hinv hrely)
  | step ready change next ih =>
      intro s' hinv hgiven hrely hready
      obtain ⟨m', hmove, hnext⟩ := ht s' hinv hgiven hrely hready
      exact ⟨m', hmove, ih s' hnext⟩
  | sleep millis next ih => exact ih ht

theorem safe_atOnce {f : σ → α × σ}
    (h : ∀ s', P.inv s' → P.given s' → P.rely m s s' → ∃ m', P.move i m m' s' (f s').2 ∧
      ∀ s'', P.inv s'' → P.rely m' (f s').2 s'' → Q m' (f s').1 s'') :
    P.Safe i Q (Task.atOnce f) m s := by
  intro s' hinv hgiven hrely _
  exact h s' hinv hgiven hrely

/-- Steps that are moves within a role, and on which the role may rely itself, do no harm. -/
theorem safe_of_changes {K : σ → σ → Prop} {t : Task σ α} (ht : t.Changes K)
    (hK : ∀ s₁ s₂, P.rely m s s₁ → P.inv s₁ → P.given s₁ → K s₁ s₂ →
      P.move i m m s₁ s₂ ∧ P.rely m s₁ s₂) :
    P.Safe i (fun m' _ s' => m' = m ∧ P.rely m s s') t m s := by
  -- The states so far come after the first one by what the role relies on, the caller's own
  -- changes included.
  have hgoes : ∀ s₁, P.rely m s s₁ →
      P.Safe i (fun m' _ s' => m' = m ∧ P.rely m s s') t m s₁ := by
    induction t with
    | done a =>
        intro s₁ hs₁ s' _ hrely
        exact ⟨rfl, P.rely_trans hs₁ hrely⟩
    | step ready change next ih =>
        intro s₁ hs₁ s' hinv hgiven hrely hready
        have hs' := P.rely_trans hs₁ hrely
        obtain ⟨hchange, hnext⟩ := ht s' hready
        obtain ⟨hmove, hkept⟩ := hK s' (change s') hs' hinv hgiven hchange
        exact ⟨m, hmove, ih s' hnext _ (P.rely_trans hs' hkept)⟩
    | sleep millis next ih => exact ih ht
  exact hgoes s (P.rely_refl m s)

theorem Safe.mono {Q' : μ → α → σ → Prop} {t : Task σ α} (h : P.Safe i Q t m s)
    (hQ : ∀ m' a s', P.inv s' → Q m' a s' → Q' m' a s') : P.Safe i Q' t m s := by
  induction t generalizing m s with
  | done a =>
      intro s' hinv hrely
      exact hQ m a s' hinv (h s' hinv hrely)
  | step ready change next ih =>
      intro s' hinv hgiven hrely hready
      obtain ⟨m', hmove, hnext⟩ := h s' hinv hgiven hrely hready
      exact ⟨m', hmove, ih s' hnext⟩
  | sleep millis next ih => exact ih h

theorem Safe.later {t : Task σ α} (h : P.Safe i Q t m s) :
    P.Safe i (fun m' a s' => ∀ s'', P.inv s'' → P.rely m' s' s'' → Q m' a s'') t m s := by
  induction t generalizing m s with
  | done a =>
      intro s' _ hrely s'' hinv hrely'
      exact h s'' hinv (P.rely_trans hrely hrely')
  | step ready change next ih =>
      intro s' hinv hgiven hrely hready
      obtain ⟨m', hmove, hnext⟩ := h s' hinv hgiven hrely hready
      exact ⟨m', hmove, ih s' hnext⟩
  | sleep millis next ih => exact ih h

/-- What a caller does on a part of the state, as the whole sees it: every role there stands for one
here. -/
structure Embeds {κ ν : Type} (P' : Protocol κ ν τ) (P : Protocol ι μ σ) (p : Part σ τ) (k : κ)
    (i : ι) (role : ν → μ) : Prop where
  get_set : ∀ s r, p.get (p.set r s) = r
  inv : ∀ s, P.inv s → P'.inv (p.get s)
  given : ∀ s, P.given s → P'.given (p.get s)
  rely : ∀ n s s', P.rely (role n) s s' → P'.rely n (p.get s) (p.get s')
  move : ∀ n n' s r, P.inv s → P.given s → P'.move k n n' (p.get s) r →
    P.move i (role n) (role n') s (p.set r s)

/-- The same protocol, where more is given. -/
def assuming (P : Protocol ι μ σ) (J : σ → Prop) : Protocol ι μ σ :=
  { P with given := fun s => P.given s ∧ J s }

/-- What is safe on a part of the state is safe in the whole, as long as a fact holds there that
neither the others nor changes of the part take away. -/
theorem Safe.onPart_while {κ ν : Type} {P' : Protocol κ ν τ} {p : Part σ τ} {k : κ} {role : ν → μ}
    {S : ν → α → τ → Prop} {J : σ → Prop} (hrely : ∀ n s s', P.rely (role n) s s' → J s → J s')
    (hset : ∀ s r, J s → J (p.set r s)) (hembeds : P'.Embeds (P.assuming J) p k i role)
    {t : Task τ α} {n : ν} (h : P'.Safe k S t n (p.get s)) (hs : J s) :
    P.Safe i (fun m a s' => ∃ n, m = role n ∧ S n a (p.get s') ∧ J s') (t.onPart p) (role n) s := by
  induction t generalizing n s with
  | done a =>
      intro s' hinv hs'
      exact ⟨n, rfl, h _ (hembeds.inv s' hinv) (hembeds.rely n s s' hs'), hrely n s s' hs' hs⟩
  | step ready change next ih =>
      intro s' hinv hgiven hs' hready
      have hJ := hrely n s s' hs' hs
      obtain ⟨n', hmove, hnext⟩ := h _ (hembeds.inv s' hinv) (hembeds.given s' ⟨hgiven, hJ⟩)
        (hembeds.rely n s s' hs') hready
      refine ⟨role n', hembeds.move n n' s' _ hinv ⟨hgiven, hJ⟩ hmove, ih (p.get s') ?_ ?_⟩
      · rw [hembeds.get_set]
        exact hnext
      · exact hset s' _ hJ
  | sleep millis next ih => exact ih h hs

/-- What is safe on a part of the state is safe in the whole. -/
theorem Safe.onPart {κ ν : Type} {P' : Protocol κ ν τ} {p : Part σ τ} {k : κ} {role : ν → μ}
    {S : ν → α → τ → Prop} (hembeds : P'.Embeds P p k i role) {t : Task τ α} {n : ν}
    (h : P'.Safe k S t n (p.get s)) :
    P.Safe i (fun m a s' => ∃ n, m = role n ∧ S n a (p.get s')) (t.onPart p) (role n) s := by
  have hwhile : P'.Embeds (P.assuming fun _ => True) p k i role :=
    ⟨hembeds.get_set, hembeds.inv, fun s' hgiven => hembeds.given s' hgiven.1, hembeds.rely,
      fun n n' s' r hinv hgiven => hembeds.move n n' s' r hinv hgiven.1⟩
  refine (h.onPart_while (fun _ _ _ _ _ => trivial) (fun _ _ _ => trivial) hwhile trivial).mono ?_
  rintro m a s' - ⟨n, hm, hS, -⟩
  exact ⟨n, hm, hS⟩

end Protocol

namespace Protocol

variable {ι μ σ ε : Type} {α β : Type} {P : Protocol ι μ σ} {i : ι} {m : μ} {s : σ}
variable {Q : μ → Except ε α → σ → Prop} {R : μ → Except ε β → σ → Prop}

theorem Safe.bind {x : Action ε σ α} {f : α → Action ε σ β} (hx : P.Safe i Q x.run m s)
    (hok : ∀ m' a s', P.inv s' → Q m' (.ok a) s' → P.Safe i R (f a).run m' s')
    (herror : ∀ m' e s', P.inv s' → Q m' (.error e) s' → R m' (.error e) s') :
    P.Safe i R (x >>= f).run m s := by
  refine hx.later.andThen ?_
  intro m' r s' hinv hr
  cases r with
  | ok a => exact hok m' a s' hinv (hr s' hinv (P.rely_refl m' s'))
  | error e =>
      intro s'' hinv' hrely
      exact herror m' e s'' hinv' (hr s'' hinv' hrely)

/-- A first step, and an activity that goes on from there in the role that it leads to. -/
theorem safe_atOnce_bind {f : σ → α × σ} {g : α → Action ε σ β}
    (h : ∀ s', P.inv s' → P.given s' → P.rely m s s' → ∃ m', P.move i m m' s' (f s').2 ∧
      P.Safe i R (g (f s').1).run m' (f s').2) :
    P.Safe i R (Action.ofTask (Task.atOnce f) >>= g).run m s :=
  fun s' hinv hgiven hrely _ => h s' hinv hgiven hrely

theorem safe_read_bind {f : σ → α} {g : α → Action ε σ β}
    (h : ∀ s', P.inv s' → P.given s' → P.rely m s s' → ∃ m', P.move i m m' s' s' ∧
      P.Safe i R (g (f s')).run m' s') :
    P.Safe i R (Action.read f >>= g).run m s :=
  safe_atOnce_bind (f := fun s => (f s, s)) h

end Protocol

namespace Protocol

variable {ι μ σ ε : Type} {α β : Type} (P : Protocol ι μ σ) (i : ι) (m : μ)

/-- What others do leaves a fact true as long as a caller is in a role. -/
def Stable (J : σ → Prop) : Prop := ∀ s s', P.rely m s s' → J s → J s'

/-- What a caller does without leaving its role: where a fact holds, its action is safe, and
another fact holds at the end. -/
def Does (J : σ → Prop) (x : Action ε σ α) (R : Except ε α → σ → Prop) : Prop :=
  ∀ s, J s → P.Safe i (fun m' r s' => m' = m ∧ R r s') x.run m s

/-- A fact about a result, or one that holds after a failure. -/
def either (R : α → σ → Prop) (E : σ → Prop) : Except ε α → σ → Prop
  | .ok a, s => R a s
  | .error _, s => E s

/-- A result that is no failure, and a fact. -/
def succeeds (R : α → σ → Prop) : Except ε α → σ → Prop := either R fun _ => False

variable {P i m} {J J' : σ → Prop} {R R' : Except ε α → σ → Prop}

theorem Does.mono {x : Action ε σ α} (h : P.Does i m J x R) (hJ : ∀ s, J' s → J s)
    (hR : ∀ r s, P.inv s → R r s → R' r s) : P.Does i m J' x R' := by
  intro s hs
  refine (h s (hJ s hs)).mono ?_
  rintro m' r s' hinv ⟨rfl, hr⟩
  exact ⟨rfl, hR r s' hinv hr⟩

theorem Does.either_of_succeeds {x : Action ε σ α} {S : α → σ → Prop} {E : σ → Prop}
    (h : P.Does i m J x (succeeds S)) : P.Does i m J x (either S E) := by
  refine h.mono (fun _ hs => hs) ?_
  rintro (e | a) s _ hr
  · exact absurd hr id
  · exact hr

/-- What is known whatever the state is need not be part of the fact. -/
theorem does_of_known {p : Prop} {x : Action ε σ α} (h : p → P.Does i m J x R) :
    P.Does i m (fun s => p ∧ J s) x R := by
  rintro s ⟨hp, hs⟩
  exact h hp s hs

theorem Does.bind {x : Action ε σ α} {f : α → Action ε σ β} {S : Except ε β → σ → Prop}
    (hx : P.Does i m J x R) (hf : ∀ a, P.Does i m (R (.ok a)) (f a) S)
    (herror : ∀ e s, P.inv s → R (.error e) s → S (.error e) s) :
    P.Does i m J (x >>= f) S := by
  intro s hs
  refine (hx s hs).bind ?_ ?_
  · rintro m' a s' _ ⟨rfl, ha⟩
    exact hf a s' ha
  · rintro m' e s' hinv ⟨rfl, he⟩
    exact ⟨rfl, herror e s' hinv he⟩

/-- An activity that goes on in other roles after what it does in this one. -/
theorem Does.safe_bind {x : Action ε σ α} {f : α → Action ε σ β}
    {Q : μ → Except ε β → σ → Prop} (hx : P.Does i m J x R)
    (hf : ∀ a s, P.inv s → R (.ok a) s → P.Safe i Q (f a).run m s)
    (herror : ∀ e s, P.inv s → R (.error e) s → Q m (.error e) s) {s : σ} (hs : J s) :
    P.Safe i Q (x >>= f).run m s := by
  refine (hx s hs).bind ?_ ?_
  · rintro m' a s' hinv ⟨rfl, ha⟩
    exact hf a s' hinv ha
  · rintro m' e s' hinv ⟨rfl, he⟩
    exact herror e s' hinv he

theorem Does.outcome {x : Action ε σ α} (hx : P.Does i m J x R) :
    P.Does i m J x.outcome (succeeds R) := by
  intro s hs
  refine (hx s hs).later.andThen ?_
  intro m' r s' _ hr s'' hinv hrely
  exact hr s'' hinv hrely

theorem does_ofExcept (hJ : P.Stable m J) (x : Except ε α) :
    P.Does i m J (Action.ofExcept x) fun r s => r = x ∧ J s := by
  intro s hs
  cases x with
  | ok a => exact fun s' _ hrely => ⟨rfl, rfl, hJ s s' hrely hs⟩
  | error e => exact fun s' _ hrely => ⟨rfl, rfl, hJ s s' hrely hs⟩

theorem does_pure (hJ : P.Stable m J) (a : α) :
    P.Does i m J (pure a : Action ε σ α) fun r s => r = .ok a ∧ J s :=
  does_ofExcept hJ (.ok a)

theorem does_throw (hJ : P.Stable m J) (e : ε) :
    P.Does i m J (throw e : Action ε σ α) fun r s => r = .error e ∧ J s :=
  does_ofExcept hJ (.error e)

theorem does_atOnce {S : α → σ → Prop} {f : σ → α × σ} (hJ : P.Stable m J)
    (hS : ∀ a, P.Stable m (S a))
    (h : ∀ s, P.inv s → P.given s → J s → P.move i m m s (f s).2 ∧ S (f s).1 (f s).2) :
    P.Does i m J (Action.ofTask (Task.atOnce f) : Action ε σ α) (succeeds S) := by
  intro s hs s' hinv hgiven hrely _
  obtain ⟨hmove, hafter⟩ := h s' hinv hgiven (hJ s s' hrely hs)
  refine ⟨m, hmove, ?_⟩
  intro s'' _ hrely'
  exact ⟨rfl, hS _ _ s'' hrely' hafter⟩

theorem does_read {S : α → σ → Prop} {f : σ → α} (hJ : P.Stable m J)
    (hS : ∀ a, P.Stable m (S a))
    (h : ∀ s, P.inv s → P.given s → J s → P.move i m m s s ∧ S (f s) s) :
    P.Does i m J (Action.read f : Action ε σ α) (succeeds S) :=
  does_atOnce (f := fun s => (f s, s)) hJ hS h

theorem does_modify {S : σ → Prop} {f : σ → σ} (hJ : P.Stable m J) (hS : P.Stable m S)
    (h : ∀ s, P.inv s → P.given s → J s → P.move i m m s (f s) ∧ S (f s)) :
    P.Does i m J (Action.modify f : Action ε σ Unit) (succeeds fun _ => S) :=
  does_atOnce (f := fun s => ((), f s)) hJ (fun _ => hS) h

/-- A check that may fail leaves the role alone, whatever comes of it. -/
theorem does_check {f : σ → Except ε α × σ} (hJ : P.Stable m J) (hR : ∀ r, P.Stable m (R r))
    (h : ∀ s, P.inv s → P.given s → J s → P.move i m m s (f s).2 ∧ R (f s).1 (f s).2) :
    P.Does i m J (Action.atOnce f) R := by
  intro s hs s' hinv hgiven hrely _
  obtain ⟨hmove, hafter⟩ := h s' hinv hgiven (hJ s s' hrely hs)
  refine ⟨m, hmove, ?_⟩
  intro s'' _ hrely'
  exact ⟨rfl, hR _ _ s'' hrely' hafter⟩

theorem does_await {S : σ → Prop} {ready : σ → Bool} {change : σ → σ} (hJ : P.Stable m J)
    (hS : P.Stable m S) (h : ∀ s, P.inv s → P.given s → J s → ready s = true →
      P.move i m m s (change s) ∧ S (change s)) :
    P.Does i m J (Action.ofTask (Task.await ready change) : Action ε σ Unit)
      (succeeds fun _ => S) := by
  intro s hs s' hinv hgiven hrely hready
  obtain ⟨hmove, hafter⟩ := h s' hinv hgiven (hJ s s' hrely hs) hready
  refine ⟨m, hmove, ?_⟩
  intro s'' _ hrely'
  exact ⟨rfl, hS _ s'' hrely' hafter⟩

theorem does_of_changes {K : σ → σ → Prop} {x : Action ε σ α} (hx : x.run.Changes K)
    (hJ : P.Stable m J)
    (hK : ∀ s s', J s → P.inv s → P.given s → K s s' → P.move i m m s s' ∧ P.rely m s s') :
    P.Does i m J x fun _ s => J s := by
  intro s hs
  refine (safe_of_changes hx fun s₁ s₂ hrely => hK s₁ s₂ (hJ s s₁ hrely hs)).mono ?_
  rintro m' r s' _ ⟨rfl, hrely⟩
  exact ⟨rfl, hJ s s' hrely hs⟩

theorem does_ofTask_of_changes {K : σ → σ → Prop} {t : Task σ α} (ht : t.Changes K)
    (hJ : P.Stable m J)
    (hK : ∀ s s', J s → P.inv s → P.given s → K s s' → P.move i m m s s' ∧ P.rely m s s') :
    P.Does i m J (Action.ofTask t : Action ε σ α) (succeeds fun _ => J) := by
  intro s hs
  refine (safe_of_changes ht fun s₁ s₂ hrely => hK s₁ s₂ (hJ s s₁ hrely hs)).andThen ?_
  rintro m' r s' _ ⟨rfl, hrely⟩ s'' _ hrely'
  exact ⟨rfl, hJ s' s'' hrely' (hJ s s' hrely hs)⟩

/-- To hold a lock during an action is to take it in one role, where a fact holds, and to leave it
in another. -/
theorem safe_holding_where (lock : Part σ Bool) {a : Action ε σ α} {idle : μ} {J H : σ → Prop}
    {Q Q' : μ → Except ε α → σ → Prop} (hJ : P.Stable idle J)
    (hstable : ∀ m' r, P.Stable m' (Q' m' r))
    (htake : ∀ s, P.inv s → J s → lock.get s = false →
      P.move i idle m s (lock.set true s) ∧ H (lock.set true s))
    (ha : ∀ s, H s → P.Safe i Q a.run m s)
    (hleave : ∀ m' r s, P.inv s → Q m' r s →
      ∃ m'', P.move i m' m'' s (lock.set false s) ∧ Q' m'' r (lock.set false s)) {s : σ}
    (hs : J s) : P.Safe i Q' (Action.holding lock a).run idle s := by
  intro s₁ hinv _ hrely hready
  have hfree : lock.get s₁ = false := by simpa using hready
  obtain ⟨hmove, hs₁⟩ := htake s₁ hinv (hJ s s₁ hrely hs) hfree
  refine ⟨m, hmove, ?_⟩
  change P.Safe i Q' (a.run.andThen fun r =>
    (Task.modify (lock.set false)).andThen fun _ => .done r) m _
  refine (ha _ hs₁).later.andThen ?_
  intro m' r s₂ _ hr s₃ hinv₃ _ hrely _
  obtain ⟨m'', hmove', hafter⟩ := hleave m' r s₃ hinv₃ (hr s₃ hinv₃ hrely)
  exact ⟨m'', hmove', fun s' _ hrely' => hstable m'' r _ s' hrely' hafter⟩

theorem safe_holding (lock : Part σ Bool) {a : Action ε σ α} {idle : μ} {H : σ → Prop}
    {Q Q' : μ → Except ε α → σ → Prop} (hstable : ∀ m' r, P.Stable m' (Q' m' r))
    (htake : ∀ s, P.inv s → lock.get s = false →
      P.move i idle m s (lock.set true s) ∧ H (lock.set true s))
    (ha : ∀ s, H s → P.Safe i Q a.run m s)
    (hleave : ∀ m' r s, P.inv s → Q m' r s →
      ∃ m'', P.move i m' m'' s (lock.set false s) ∧ Q' m'' r (lock.set false s)) (s : σ) :
    P.Safe i Q' (Action.holding lock a).run idle s :=
  safe_holding_where (J := fun _ => True) lock (fun _ _ _ _ => trivial) hstable
    (fun s hinv _ => htake s hinv) ha hleave trivial

end Protocol

end TokenQuota
