import TokenQuota.Task

/-!
What an activity does itself while others come between its steps: the changes that it makes, one
after the other.
-/

namespace TokenQuota

namespace Task

variable {σ τ : Type} {α β : Type}

/-- The changes by which an activity becomes what is left of it. Others may have changed the
state in any way before each of them. -/
inductive Steps : Task σ α → List (σ × σ) → Task σ α → Prop
  | refl (t : Task σ α) : Steps t [] t
  | step {ready : σ → Bool} {change : σ → σ} {next : σ → Task σ α} {s : σ}
      {l : List (σ × σ)} {t : Task σ α} (hready : ready s = true) (rest : Steps (next s) l t) :
      Steps (.step ready change next) ((s, change s) :: l) t
  | sleep {millis : Nat} {next : Task σ α} {l : List (σ × σ)} {t : Task σ α}
      (rest : Steps next l t) : Steps (.sleep millis next) l t

/-- The changes by which an activity comes to its end, and its result. -/
def Ends (t : Task σ α) (l : List (σ × σ)) (a : α) : Prop := Steps t l (.done a)

theorem Steps.trans {t t' t'' : Task σ α} {l l' : List (σ × σ)} (h : Steps t l t')
    (h' : Steps t' l' t'') : Steps t (l ++ l') t'' := by
  induction h with
  | refl t => exact h'
  | step hready rest ih => exact .step hready (ih h')
  | sleep rest ih => exact .sleep (ih h')

theorem ends_done {a b : α} {l : List (σ × σ)} (h : Ends (.done a) l b) : l = [] ∧ b = a := by
  cases h
  exact ⟨rfl, rfl⟩

theorem ends_step {ready : σ → Bool} {change : σ → σ} {next : σ → Task σ α}
    {l : List (σ × σ)} {a : α} (h : Ends (.step ready change next) l a) :
    ∃ s l', l = (s, change s) :: l' ∧ ready s = true ∧ Ends (next s) l' a := by
  cases h with
  | step hready rest => exact ⟨_, _, rfl, hready, rest⟩

theorem ends_sleep {millis : Nat} {next : Task σ α} {l : List (σ × σ)} {a : α}
    (h : Ends (.sleep millis next) l a) : Ends next l a := by
  cases h with
  | sleep rest => exact rest

theorem ends_andThen {t : Task σ α} {f : α → Task σ β} {l : List (σ × σ)} {b : β}
    (h : Ends (t.andThen f) l b) :
    ∃ a l₁ l₂, l = l₁ ++ l₂ ∧ Ends t l₁ a ∧ Ends (f a) l₂ b := by
  induction t generalizing l with
  | done a => exact ⟨a, [], l, rfl, .refl _, h⟩
  | step ready change next ih =>
      obtain ⟨s, l', rfl, hready, hrest⟩ := ends_step h
      obtain ⟨a, l₁, l₂, rfl, hnext, hf⟩ := ih s hrest
      exact ⟨a, _, l₂, rfl, .step hready hnext, hf⟩
  | sleep millis next ih =>
      obtain ⟨a, l₁, l₂, rfl, hnext, hf⟩ := ih (ends_sleep h)
      exact ⟨a, l₁, l₂, rfl, .sleep hnext, hf⟩

theorem ends_read {f : σ → α} {l : List (σ × σ)} {a : α} (h : Ends (read f) l a) :
    ∃ s, l = [(s, s)] ∧ a = f s := by
  obtain ⟨s, l', rfl, -, hdone⟩ := ends_step h
  obtain ⟨rfl, rfl⟩ := ends_done hdone
  exact ⟨s, rfl, rfl⟩

theorem ends_await {ready : σ → Bool} {change : σ → σ} {l : List (σ × σ)}
    (h : Ends (await ready change) l ()) : ∃ s, l = [(s, change s)] ∧ ready s = true := by
  obtain ⟨s, l', rfl, hready, hdone⟩ := ends_step h
  obtain ⟨rfl, -⟩ := ends_done hdone
  exact ⟨s, rfl, hready⟩

theorem ends_modify {f : σ → σ} {l : List (σ × σ)} (h : Ends (modify f) l ()) :
    ∃ s, l = [(s, f s)] := by
  obtain ⟨s, hl, -⟩ := ends_await h
  exact ⟨s, hl⟩

/-- The changes of an activity on a part are those of the activity, made in the whole. -/
theorem ends_onPart {p : Part σ τ} {t : Task τ α} {l : List (σ × σ)} {a : α}
    (h : Ends (t.onPart p) l a) :
    ∃ parts : List (σ × τ), l = parts.map (fun c => (c.1, p.set c.2 c.1)) ∧
      Ends t (parts.map fun c => (p.get c.1, c.2)) a := by
  induction t generalizing l with
  | done b =>
      obtain ⟨rfl, rfl⟩ := ends_done h
      exact ⟨[], rfl, .refl _⟩
  | step ready change next ih =>
      obtain ⟨s, l', rfl, hready, hrest⟩ := ends_step h
      obtain ⟨parts, rfl, hnext⟩ := ih (p.get s) hrest
      exact ⟨(s, change (p.get s)) :: parts, rfl, .step hready hnext⟩
  | sleep millis next ih =>
      obtain ⟨parts, rfl, hnext⟩ := ih (ends_sleep h)
      exact ⟨parts, rfl, .sleep hnext⟩

/-- Every change that an activity makes is of one kind. -/
def Changes (R : σ → σ → Prop) : Task σ α → Prop
  | .done _ => True
  | .step ready change next => ∀ s, ready s = true → R s (change s) ∧ (next s).Changes R
  | .sleep _ next => next.Changes R

theorem Changes.mono {R R' : σ → σ → Prop} (hR : ∀ s s', R s s' → R' s s') {t : Task σ α}
    (h : t.Changes R) : t.Changes R' := by
  induction t with
  | done a => exact trivial
  | step ready change next ih =>
      intro s hready
      exact ⟨hR _ _ (h s hready).1, ih s (h s hready).2⟩
  | sleep millis next ih => exact ih h

theorem Changes.andThen {R : σ → σ → Prop} {t : Task σ α} {f : α → Task σ β}
    (ht : t.Changes R) (hf : ∀ a, (f a).Changes R) : (t.andThen f).Changes R := by
  induction t with
  | done a => exact hf a
  | step ready change next ih =>
      intro s hready
      exact ⟨(ht s hready).1, ih s (ht s hready).2⟩
  | sleep millis next ih => exact ih ht

theorem Changes.of_steps {R : σ → σ → Prop} {t t' : Task σ α} {l : List (σ × σ)}
    (h : t.Changes R) (hsteps : Steps t l t') : ∀ c ∈ l, R c.1 c.2 := by
  induction hsteps with
  | refl t =>
      intro c hc
      exact absurd hc List.not_mem_nil
  | step hready rest ih =>
      intro c hc
      rcases List.mem_cons.mp hc with rfl | hc
      · exact (h _ hready).1
      · exact ih (h _ hready).2 c hc
  | sleep rest ih => exact ih h

theorem changes_atOnce {R : σ → σ → Prop} {f : σ → α × σ} (h : ∀ s, R s (f s).2) :
    (atOnce f).Changes R := by
  intro s _
  exact ⟨h s, trivial⟩

theorem changes_read {R : σ → σ → Prop} (hR : ∀ s, R s s) (f : σ → α) :
    (read f).Changes R := by
  intro s _
  exact ⟨hR s, trivial⟩

theorem changes_await {R : σ → σ → Prop} {ready : σ → Bool} {change : σ → σ}
    (h : ∀ s, ready s = true → R s (change s)) : (await ready change).Changes R := by
  intro s hready
  exact ⟨h s hready, trivial⟩

theorem changes_modify {R : σ → σ → Prop} {f : σ → σ} (h : ∀ s, R s (f s)) :
    (modify f).Changes R := by
  intro s _
  exact ⟨h s, trivial⟩

theorem changes_pause (R : σ → σ → Prop) (millis : Nat) : (pause (σ := σ) millis).Changes R := by
  unfold pause
  split
  · exact trivial
  · exact trivial

theorem Changes.onPart {R : τ → τ → Prop} {R' : σ → σ → Prop} {p : Part σ τ} {t : Task τ α}
    (hR : ∀ s r, R (p.get s) r → R' s (p.set r s)) (h : t.Changes R) :
    (t.onPart p).Changes R' := by
  induction t with
  | done a => exact trivial
  | step ready change next ih =>
      intro s hready
      exact ⟨hR s _ (h _ hready).1, ih _ (h _ hready).2⟩
  | sleep millis next ih => exact ih h

theorem changes_true (t : Task σ α) : t.Changes fun _ _ => True := by
  induction t with
  | done a => exact trivial
  | step ready change next ih =>
      intro s _
      exact ⟨trivial, ih s⟩
  | sleep millis next ih => exact ih

theorem Changes.holding {R : σ → σ → Prop} {lock : Part σ Bool} {t : Task σ α}
    (htake : ∀ s, lock.get s = false → R s (lock.set true s)) (hleave : ∀ s, R s (lock.set false s))
    (h : t.Changes R) : (Task.holding lock t).Changes R := by
  refine Changes.andThen (changes_await ?_) fun _ => Changes.andThen h fun _ =>
    Changes.andThen (changes_modify hleave) fun _ => trivial
  intro s hready
  exact htake s (by simpa using hready)

end Task

namespace Action

open TokenQuota.Task

variable {ε σ τ α β : Type}

theorem run_outcome_bind (x : Action ε σ α) (f : Except ε α → Action ε σ β) :
    (x.outcome >>= f).run = x.run.andThen fun a => (f a).run :=
  andThen_assoc x.run _ _

theorem ends_bind {x : Action ε σ α} {f : α → Action ε σ β} {l : List (σ × σ)}
    {r : Except ε β} (h : Ends (x >>= f).run l r) :
    (∃ a l₁ l₂, l = l₁ ++ l₂ ∧ Ends x.run l₁ (.ok a) ∧ Ends (f a).run l₂ r) ∨
      ∃ e, r = .error e ∧ Ends x.run l (.error e) := by
  obtain ⟨a, l₁, l₂, rfl, hx, hf⟩ := ends_andThen h
  cases a with
  | ok a => exact .inl ⟨a, l₁, l₂, rfl, hx, hf⟩
  | error e =>
      obtain ⟨rfl, rfl⟩ := ends_done hf
      rw [List.append_nil]
      exact .inr ⟨e, rfl, hx⟩

theorem ends_outcome {x : Action ε σ α} {l : List (σ × σ)} {r : Except ε (Except ε α)}
    (h : Ends x.outcome.run l r) : ∃ r', r = .ok r' ∧ Ends x.run l r' := by
  obtain ⟨r', l₁, l₂, rfl, hx, hdone⟩ := ends_andThen h
  obtain ⟨rfl, rfl⟩ := ends_done hdone
  rw [List.append_nil]
  exact ⟨r', rfl, hx⟩

theorem ends_ofTask {t : Task σ α} {l : List (σ × σ)} {r : Except ε α}
    (h : Ends (Action.ofTask t : Action ε σ α).run l r) : ∃ a, r = .ok a ∧ Ends t l a := by
  obtain ⟨a, l₁, l₂, rfl, ht, hdone⟩ := ends_andThen h
  obtain ⟨rfl, rfl⟩ := ends_done hdone
  rw [List.append_nil]
  exact ⟨a, rfl, ht⟩

theorem ends_ofExcept {x : Except ε α} {l : List (σ × σ)} {r : Except ε α}
    (h : Ends (Action.ofExcept x : Action ε σ α).run l r) : l = [] ∧ r = x := by
  cases x with
  | ok a => exact ends_done h
  | error e => exact ends_done h

theorem changes_bind {R : σ → σ → Prop} {x : Action ε σ α} {f : α → Action ε σ β}
    (hx : x.run.Changes R) (hf : ∀ a, (f a).run.Changes R) : (x >>= f).run.Changes R := by
  refine Changes.andThen hx ?_
  intro r
  cases r with
  | ok a => exact hf a
  | error e => exact trivial

theorem changes_ofTask {R : σ → σ → Prop} {t : Task σ α} (h : t.Changes R) :
    (Action.ofTask t : Action ε σ α).run.Changes R :=
  Changes.andThen h fun _ => trivial

theorem changes_outcome {R : σ → σ → Prop} {x : Action ε σ α} (h : x.run.Changes R) :
    x.outcome.run.Changes R :=
  Changes.andThen h fun _ => trivial

theorem changes_ofExcept (R : σ → σ → Prop) (x : Except ε α) :
    (Action.ofExcept x : Action ε σ α).run.Changes R := by
  cases x with
  | ok a => exact trivial
  | error e => exact trivial

/-- If an action fails, so did its first part, or what followed it. -/
theorem changes_of_ends_error {R : σ → σ → Prop} {x : Action ε σ α} {f : α → Action ε σ β}
    {l : List (σ × σ)} {e : ε} (hx : x.run.Changes R)
    (hf : ∀ a l, Ends (f a).run l (.error e) → ∀ c ∈ l, R c.1 c.2)
    (h : Ends (x >>= f).run l (.error e)) : ∀ c ∈ l, R c.1 c.2 := by
  rcases ends_bind h with ⟨a, l₁, l₂, rfl, hfirst, hrest⟩ | ⟨e', -, herror⟩
  · intro c hc
    rcases List.mem_append.mp hc with hc | hc
    · exact hx.of_steps hfirst c hc
    · exact hf a l₂ hrest c hc
  · exact hx.of_steps herror

end Action

end TokenQuota
