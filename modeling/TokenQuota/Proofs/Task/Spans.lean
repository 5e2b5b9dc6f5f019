import TokenQuota.Proofs.Task.Amid

/-!
The changes of one activity from its beginning to its end, joined to each other: between them, and
before the first and after the last one, what is still stays the same.
-/

namespace TokenQuota

universe u

namespace Task

variable {σ : Type} {α β : Type} {υ : Type u} {still : σ → υ} {s s' s₁ : σ}

/-- The changes lead from one state to another, if what is still is the same between them. -/
def Linked (still : σ → υ) : σ → List (σ × σ) → σ → Prop
  | s, [], s' => still s' = still s
  | s, c :: l, s' => still c.1 = still s ∧ Linked still c.2 l s'

/-- The changes by which an activity comes from a state to its end, with its result and a last
state. -/
structure Spans (still : σ → υ) (t : Task σ α) (s : σ) (l : List (σ × σ)) (a : α) (s' : σ) :
    Prop where
  ends : Ends t l a
  linked : Linked still s l s'

theorem Linked.from_still {l : List (σ × σ)} {s₀ : σ} (h : Linked still s l s')
    (hstill : still s = still s₀) : Linked still s₀ l s' := by
  cases l with
  | nil => exact Eq.trans h hstill
  | cons c l => exact ⟨h.1.trans hstill, h.2⟩

theorem Linked.to_still {l : List (σ × σ)} {s₀ : σ} (h : Linked still s l s₀)
    (hstill : still s' = still s₀) : Linked still s l s' := by
  induction l generalizing s with
  | nil => exact Eq.trans hstill h
  | cons c l ih => exact ⟨h.1, ih h.2⟩

theorem linked_append {l₁ l₂ : List (σ × σ)} :
    Linked still s (l₁ ++ l₂) s' ↔ ∃ s₁, Linked still s l₁ s₁ ∧ Linked still s₁ l₂ s' := by
  induction l₁ generalizing s with
  | nil =>
      refine ⟨fun h => ⟨s, rfl, h⟩, ?_⟩
      rintro ⟨s₁, hstill, h⟩
      exact h.from_still hstill
  | cons c l₁ ih =>
      constructor
      · rintro ⟨hstill, h⟩
        obtain ⟨s₁, h₁, h₂⟩ := ih.mp h
        exact ⟨s₁, ⟨hstill, h₁⟩, h₂⟩
      · rintro ⟨s₁, ⟨hstill, h₁⟩, h₂⟩
        exact ⟨hstill, ih.mpr ⟨s₁, h₁, h₂⟩⟩

/-- Changes that leave alone what is still start and end where the state was. -/
theorem Linked.same {l : List (σ × σ)} (h : Linked still s l s')
    (hl : ∀ c ∈ l, still c.2 = still c.1) :
    still s' = still s ∧ ∀ c ∈ l, still c.1 = still s := by
  induction l generalizing s with
  | nil => exact ⟨h, fun c hc => absurd hc List.not_mem_nil⟩
  | cons c l ih =>
      obtain ⟨hstill, h⟩ := h
      obtain ⟨hlast, hall⟩ := ih h fun d hd => hl d (List.mem_cons_of_mem c hd)
      have hc : still c.2 = still s := (hl c List.mem_cons_self).trans hstill
      refine ⟨hlast.trans hc, ?_⟩
      intro d hd
      rcases List.mem_cons.mp hd with rfl | hd
      · exact hstill
      · exact (hall d hd).trans hc

variable {l : List (σ × σ)}

theorem Spans.from_still {t : Task σ α} {a : α} {s₀ : σ} (h : t.Spans still s l a s')
    (hstill : still s = still s₀) : t.Spans still s₀ l a s' :=
  ⟨h.ends, h.linked.from_still hstill⟩

theorem Changes.same_of_spans {t : Task σ α} {a : α}
    (ht : t.Changes fun s s' => still s' = still s) (h : t.Spans still s l a s') :
    still s' = still s ∧ ∀ c ∈ l, still c.1 = still s ∧ still c.2 = still s := by
  have hl := ht.of_steps h.ends
  obtain ⟨hlast, hall⟩ := h.linked.same hl
  exact ⟨hlast, fun c hc => ⟨hall c hc, (hl c hc).trans (hall c hc)⟩⟩

theorem spans_done {a b : α} (h : (done a).Spans still s l b s') :
    l = [] ∧ b = a ∧ still s' = still s := by
  obtain ⟨rfl, rfl⟩ := ends_done h.ends
  exact ⟨rfl, rfl, h.linked⟩

theorem spans_andThen {t : Task σ α} {f : α → Task σ β} {b : β}
    (h : (t.andThen f).Spans still s l b s') :
    ∃ a l₁ l₂ s₁, l = l₁ ++ l₂ ∧ t.Spans still s l₁ a s₁ ∧ (f a).Spans still s₁ l₂ b s' := by
  obtain ⟨a, l₁, l₂, rfl, ht, hf⟩ := ends_andThen h.ends
  obtain ⟨s₁, h₁, h₂⟩ := linked_append.mp h.linked
  exact ⟨a, l₁, l₂, s₁, rfl, ⟨ht, h₁⟩, ⟨hf, h₂⟩⟩

theorem spans_step {ready : σ → Bool} {change : σ → σ} {next : σ → Task σ α} {a : α}
    (h : (step ready change next).Spans still s l a s') :
    ∃ s₁ l', l = (s₁, change s₁) :: l' ∧ ready s₁ = true ∧ still s₁ = still s ∧
      (next s₁).Spans still (change s₁) l' a s' := by
  obtain ⟨s₁, l', rfl, hready, hrest⟩ := ends_step h.ends
  exact ⟨s₁, l', rfl, hready, h.linked.1, hrest, h.linked.2⟩

/-- Taking and leaving a lock is the first and the last change, if both leave alone what is
still. -/
theorem spans_holding {lock : Part σ Bool} (hlock : ∀ b s, still (lock.set b s) = still s)
    {t : Task σ α} {a : α} (h : (holding lock t).Spans still s l a s') :
    ∃ c l' c', l = c :: (l' ++ [c']) ∧ c.2 = lock.set true c.1 ∧ c'.2 = lock.set false c'.1 ∧
      t.Spans still s l' a s' := by
  obtain ⟨u, l₁, l₂, s₁, rfl, hawait, hrest⟩ := spans_andThen h
  obtain ⟨b, l', l₃, s₂, rfl, ht, hleave⟩ := spans_andThen hrest
  obtain ⟨u', l₄, l₅, s₃, rfl, hmodify, hdone⟩ := spans_andThen hleave
  obtain ⟨rfl, rfl, hlast⟩ := spans_done hdone
  obtain ⟨c, rfl, -⟩ := ends_await hawait.ends
  obtain ⟨c', rfl⟩ := ends_modify hmodify.ends
  -- What the lock does is not seen in what is still.
  have htake : still s₁ = still s :=
    (Eq.trans hawait.linked.2 (hlock true c)).trans hawait.linked.1
  have hback : still s' = still s₂ :=
    (hlast.trans (Eq.trans hmodify.linked.2 (hlock false c'))).trans hmodify.linked.1
  exact ⟨_, l', _, rfl, rfl, rfl, ht.ends, (ht.linked.from_still htake).to_still hback⟩

/-- An activity that runs alone to its end takes such a course, if what is still does not change
while it sleeps. -/
theorem exists_spans_of_run (elapse : Nat → σ → σ)
    (helapse : ∀ millis s, still (elapse millis s) = still s) {t : Task σ α} {a : α}
    (h : t.run elapse s = (some a, s')) : ∃ l, t.Spans still s l a s' := by
  induction t generalizing s with
  | done b =>
      cases h
      exact ⟨[], .refl _, rfl⟩
  | step ready change next ih =>
      rw [Task.run] at h
      split at h
      · rename_i hready
        obtain ⟨l, hrest⟩ := ih s h
        exact ⟨(s, change s) :: l, .step hready hrest.ends, rfl, hrest.linked⟩
      · cases h
  | sleep millis next ih =>
      obtain ⟨l, hrest⟩ := ih h
      exact ⟨l, .sleep hrest.ends, (hrest.linked).from_still (helapse millis s)⟩

end Task

namespace Action

open TokenQuota.Task

variable {ε σ α β : Type} {υ : Type u} {still : σ → υ} {s s' : σ} {l : List (σ × σ)}

theorem spans_bind {x : Action ε σ α} {f : α → Action ε σ β} {r : Except ε β}
    (h : (x >>= f).run.Spans still s l r s') :
    (∃ a l₁ l₂ s₁, l = l₁ ++ l₂ ∧ x.run.Spans still s l₁ (.ok a) s₁ ∧
      (f a).run.Spans still s₁ l₂ r s') ∨
      ∃ e, r = .error e ∧ x.run.Spans still s l (.error e) s' := by
  obtain ⟨a, l₁, l₂, s₁, rfl, hx, hf⟩ := spans_andThen h
  cases a with
  | ok a => exact .inl ⟨a, l₁, l₂, s₁, rfl, hx, hf⟩
  | error e =>
      obtain ⟨rfl, rfl, hstill⟩ := spans_done hf
      rw [List.append_nil]
      exact .inr ⟨e, rfl, hx.ends, hx.linked.to_still hstill⟩

/-- What follows an action that cannot fail comes to its end from where that action ended. -/
theorem spans_bind_of_ok {A : List (σ × σ) → α → σ → Prop} {x : Action ε σ α}
    {f : α → Action ε σ β} {r : Except ε β}
    (hx : ∀ l r s', x.run.Spans still s l r s' → ∃ a, r = .ok a ∧ A l a s')
    (h : (x >>= f).run.Spans still s l r s') :
    ∃ a l₁ l₂ s₁, l = l₁ ++ l₂ ∧ A l₁ a s₁ ∧ (f a).run.Spans still s₁ l₂ r s' := by
  rcases spans_bind h with ⟨a, l₁, l₂, s₁, rfl, ha, hf⟩ | ⟨e, -, he⟩
  · obtain ⟨a', heq, hA⟩ := hx l₁ _ s₁ ha
    cases heq
    exact ⟨a, l₁, l₂, s₁, rfl, hA, hf⟩
  · obtain ⟨a, heq, -⟩ := hx l _ s' he
    cases heq

theorem spans_ofTask {t : Task σ α} {r : Except ε α}
    (h : (Action.ofTask t : Action ε σ α).run.Spans still s l r s') :
    ∃ a, r = .ok a ∧ t.Spans still s l a s' := by
  obtain ⟨a, rfl, ht⟩ := ends_ofTask h.ends
  exact ⟨a, rfl, ht, h.linked⟩

theorem spans_read {f : σ → α} {r : Except ε α}
    (h : (Action.read f : Action ε σ α).run.Spans still s l r s') :
    ∃ s₁, l = [(s₁, s₁)] ∧ r = .ok (f s₁) ∧ still s₁ = still s ∧ still s' = still s := by
  obtain ⟨a, rfl, ht⟩ := spans_ofTask h
  obtain ⟨s₁, rfl, rfl⟩ := ends_read ht.ends
  obtain ⟨hstill, hlast⟩ := ht.linked
  exact ⟨s₁, rfl, rfl, hstill, Eq.trans hlast hstill⟩

theorem spans_ofExcept {x : Except ε α} {r : Except ε α}
    (h : (Action.ofExcept x : Action ε σ α).run.Spans still s l r s') :
    l = [] ∧ r = x ∧ still s' = still s := by
  obtain ⟨rfl, rfl⟩ := ends_ofExcept h.ends
  exact ⟨rfl, rfl, h.linked⟩

end Action

end TokenQuota
