import TokenQuota.Proofs.Task.Duties

/-!
What the steps of requests amount to, each to one thing or to nothing, and what all steps for one
request may amount to, one after the other.
-/

namespace TokenQuota

/-- The marks that requests leave. -/
structure Trail (ι δ σ κ : Type) where
  duties : Duties δ σ
  /-- A step leaves a mark, or none. -/
  Amounts : σ → σ → Option κ → Prop
  /-- The marks so far are some that a request may leave. -/
  Allows : ι → List κ → Prop
  allows_nil : ∀ i, Allows i []
  /-- What no step takes away. -/
  Grows : σ → σ → Prop
  grows_refl : ∀ s, Grows s s
  grows_trans : ∀ {s s' s''}, Grows s s' → Grows s' s'' → Grows s s''

namespace Trail

variable {ι δ σ κ : Type} {α : Type}

/-- A role is a duty, or none, and the marks so far. -/
def protocol (T : Trail ι δ σ κ) : Protocol ι (Option δ × List κ) σ where
  inv := T.duties.inv
  given := T.duties.given
  rely m s s' := T.Grows s s' ∧ (T.duties.protocol ι).rely m.1 s s'
  move i m m' s s' := T.duties.Move m.1 m'.1 s s' ∧ T.Grows s s' ∧
    ∃ a : Option κ, T.Amounts s s' a ∧ m'.2 = m.2 ++ a.toList ∧ T.Allows i m'.2
  rely_refl m s := ⟨T.grows_refl s, (T.duties.protocol ι).rely_refl m.1 s⟩
  rely_trans h h' := ⟨T.grows_trans h.1 h'.1, (T.duties.protocol ι).rely_trans h.2 h'.2⟩

/-- The marks that one caller left. -/
def marksOf (n : Nat) (l : List (Event σ × Option κ)) : List κ :=
  l.filterMap fun c => if c.1.caller = n then c.2 else none

/-- Every step is marked, and the marks of a caller are those of its role. -/
structure Marked (T : Trail ι δ σ κ) (s : σ) (roles : List (ι × Option δ × List κ))
    (es : List (Event σ)) : Prop where
  kept : T.duties.Kept s (Duties.dutiesOf roles) es
  callers : ∀ e ∈ es, e.caller < roles.length
  marks : ∃ l : List (Event σ × Option κ), l.map Prod.fst = es ∧
    (∀ c ∈ l, T.Amounts c.1.before c.1.after c.2) ∧
    ∀ (n : Nat) (i : ι) (d : Option δ) (marks : List κ), roles[n]? = some (i, d, marks) →
      marksOf n l = marks ∧ T.Allows i marks

theorem marksOf_eq_nil {n : Nat} {l : List (Event σ × Option κ)}
    (h : ∀ e ∈ l.map Prod.fst, e.caller < n) : marksOf n l = [] := by
  rw [marksOf, List.filterMap_eq_nil_iff]
  intro c hc
  have hlt := h c.1 (List.mem_map_of_mem hc)
  exact if_neg (by omega)

theorem marksOf_concat_self (n : Nat) (l : List (Event σ × Option κ)) (s s' : σ) (a : Option κ) :
    marksOf n (l ++ [(⟨n, s, s'⟩, a)]) = marksOf n l ++ a.toList := by
  rw [marksOf, List.filterMap_append]
  cases a <;> simp [marksOf]

theorem marksOf_concat_of_ne {n k : Nat} (h : k ≠ n) (l : List (Event σ × Option κ)) (s s' : σ)
    (a : Option κ) : marksOf n (l ++ [(⟨k, s, s'⟩, a)]) = marksOf n l := by
  simp [marksOf, h]

variable {T : Trail ι δ σ κ} {s s' : σ} {roles : List (ι × Option δ × List κ)}
variable {es : List (Event σ)}

theorem Marked.join (h : T.Marked s roles es) (i : ι) :
    T.Marked s (roles ++ [(i, none, [])]) es := by
  constructor
  · have hkept := h.kept.join i
    rwa [Duties.dutiesOf, List.map_append]
  · intro e he
    have hlt := h.callers e he
    rw [List.length_append]
    omega
  · obtain ⟨l, rfl, hamounts, hmarks⟩ := h.marks
    refine ⟨l, rfl, hamounts, ?_⟩
    intro n j d marks hn
    rw [List.getElem?_append] at hn
    split at hn
    · exact hmarks n j d marks hn
    · -- The new caller has not made a step yet.
      rename_i hlt
      rw [List.getElem?_singleton] at hn
      split at hn
      · cases hn
        refine ⟨marksOf_eq_nil fun e he => ?_, T.allows_nil i⟩
        have hcaller := h.callers e he
        omega
      · cases hn

theorem Marked.step (h : T.Marked s roles es) {n : Nat} {i : ι} {m m' : Option δ × List κ}
    (hn : roles[n]? = some (i, m)) (hmove : T.protocol.move i m m' s s') :
    T.Marked s' (roles.set n (i, m')) (es ++ [⟨n, s, s'⟩]) := by
  obtain ⟨d, marks⟩ := m
  obtain ⟨d', marks'⟩ := m'
  obtain ⟨hduty, -, a, ha, hmarks', hallows⟩ := hmove
  constructor
  · have hkept := h.kept.step (Duties.getElem?_dutiesOf hn) hduty
    rwa [Duties.dutiesOf, List.map_set]
  · intro e he
    rw [List.length_set]
    rcases List.mem_append.mp he with he | he
    · exact h.callers e he
    · rw [List.mem_singleton.mp he]
      exact (List.getElem?_eq_some_iff.mp hn).1
  · obtain ⟨l, rfl, hamounts, hmarks⟩ := h.marks
    refine ⟨l ++ [(⟨n, s, s'⟩, a)], by rw [List.map_append, List.map_singleton], ?_, ?_⟩
    · intro c hc
      rcases List.mem_append.mp hc with hc | hc
      · exact hamounts c hc
      · rw [List.mem_singleton.mp hc]
        exact ha
    · intro k j d₁ marks₁ hk
      rcases (getElem?_set_eq_some hn).mp hk with ⟨rfl, heq⟩ | ⟨hne, hk⟩
      · cases heq
        rw [marksOf_concat_self, (hmarks k i d marks hn).1]
        exact ⟨hmarks'.symm, hallows⟩
      · rw [marksOf_concat_of_ne (Ne.symm hne)]
        exact hmarks k j d₁ marks₁ hk

theorem keeps {outside : σ → σ → Prop}
    (houtside : ∀ s s', T.duties.inv s → outside s s' → T.duties.inv s' ∧ T.Grows s s' ∧
      ∀ d, T.duties.taken d s → T.duties.rely d s s') :
    T.protocol.Keeps (none, []) outside T.Marked where
  inv h := h.kept.inv
  join h i := h.join i
  step h _ hn hmove := h.step hn hmove
  rely_step h hn hmove k j r hne hk :=
    ⟨hmove.2.1, Duties.rely_others h.kept (Duties.getElem?_dutiesOf hn) hmove.1 k j r.1 hne
      (Duties.getElem?_dutiesOf hk)⟩
  change h hs := by
    have hduties : (T.duties.protocol ι).Keeps none outside T.duties.Kept :=
      Duties.keeps fun s s' hinv hs => ⟨(houtside s s' hinv hs).1, (houtside s s' hinv hs).2.2⟩
    exact ⟨hduties.change h.kept hs, h.callers, h.marks⟩
  rely_change h hs k j r hk := by
    obtain ⟨hinv, hgrows, hrely⟩ := houtside _ _ h.kept.inv hs
    refine ⟨hgrows, ?_⟩
    rintro d hd
    refine hrely d (h.kept.taken k j d ?_)
    rw [Duties.getElem?_dutiesOf hk, hd]

/-- In a run of callers that are safe as far as a trail goes, every step amounts to what it may, and
so do all steps of each caller together. -/
theorem marks_of_run {A : ι → Prop} {R : ι → List κ → α → Prop} {work : ι → Task σ α}
    {outside : σ → σ → Prop} {s₀ : σ} {p : Pool ι σ α}
    (houtside : ∀ s s', T.duties.inv s → outside s s' → T.duties.inv s' ∧ T.Grows s s' ∧
      ∀ d, T.duties.taken d s → T.duties.rely d s s')
    (hwork : ∀ i s, A i → T.protocol.Safe i (fun m r _ => R i m.2 r) (work i) (none, []) s)
    (hinit : T.duties.inv s₀) (hrun : Pool.Run work outside s₀ es p)
    (hA : ∀ i ∈ p.callers.map Caller.request, A i) (hgiven : ∀ e ∈ es, T.duties.given e.before) :
    T.duties.inv p.state ∧ ∃ l : List (Event σ × Option κ), l.map Prod.fst = es ∧
      (∀ c ∈ l, T.duties.inv c.1.before ∧ T.Amounts c.1.before c.1.after c.2) ∧
      ∀ (n : Nat) (i : ι) (t : Task σ α), p.callers[n]? = some ⟨i, t⟩ →
        T.Allows i (marksOf n l) ∧ ∀ r, t = .done r → R i (marksOf n l) r := by
  have hmarked : T.Marked s₀ [] [] := by
    refine ⟨⟨hinit, ?_, ?_, ?_⟩, ?_, [], rfl, ?_, ?_⟩ <;> simp [Duties.dutiesOf]
  obtain ⟨roles, h, hguarded⟩ := hrun.guarded_among (keeps houtside) hwork hmarked hA hgiven
  obtain ⟨l, hl, hamounts, hmarks⟩ := h.marks
  refine ⟨h.kept.inv, l, hl, fun c hc => ⟨?_, hamounts c hc⟩, ?_⟩
  · exact (h.kept.events c.1 (hl ▸ List.mem_map_of_mem hc)).1
  intro n i t hn
  obtain ⟨⟨d, marks⟩, hrole, hsafe⟩ := hguarded.safe n _ hn
  obtain ⟨rfl, hallows⟩ := hmarks n i d marks hrole
  refine ⟨hallows, ?_⟩
  rintro r rfl
  exact hsafe p.state h.kept.inv (T.protocol.rely_refl _ p.state)

end Trail

end TokenQuota
