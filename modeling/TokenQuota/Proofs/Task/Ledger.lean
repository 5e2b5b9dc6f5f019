import TokenQuota.Proofs.Task.Duties

/-!
Requests that take effect one after the other: each at one step of its caller, which settles its
answer. In every run they answer and do what they would answer and do if each ran alone.
-/

namespace TokenQuota

/-- What requests answer one after the other, and the value that they leave. -/
def replay {ι υ ρ : Type} (spec : ι → υ → ρ × υ) : υ → List ι → List ρ × υ
  | v, [] => ([], v)
  | v, i :: rest =>
    ((spec i v).1 :: (replay spec (spec i v).2 rest).1, (replay spec (spec i v).2 rest).2)

theorem replay_append_singleton {ι υ ρ : Type} (spec : ι → υ → ρ × υ) (v : υ) (l : List ι)
    (i : ι) : replay spec v (l ++ [i]) =
      ((replay spec v l).1 ++ [(spec i (replay spec v l).2).1], (spec i (replay spec v l).2).2) := by
  induction l generalizing v with
  | nil => rfl
  | cons j rest ih =>
      rw [List.cons_append, replay, replay, ih]
      rfl

/-- Requests about a value of the state, of which some are answered. -/
structure Ledger (ι δ σ υ ρ : Type) where
  duties : Duties δ σ
  view : σ → υ
  /-- The answer of a request that runs alone, and the value after it. -/
  spec : ι → υ → ρ × υ
  IsAnswered : ι → Prop
  IsFailure : ρ → Prop
  /-- A step for a request that has no effect. -/
  IsQuiet : ι → σ → σ → Prop
  /-- What requests never take away from the value. -/
  Grows : υ → υ → Prop
  grows_refl : ∀ v, Grows v v
  grows_trans : ∀ {v v' v''}, Grows v v' → Grows v' v'' → Grows v v''
  grows_spec : ∀ i v, Grows v (spec i v).2

namespace Ledger

variable {ι δ σ υ ρ : Type} {α : Type}

/-- A step has no effect, or it settles the answer of the request. -/
inductive Books (L : Ledger ι δ σ υ ρ) (i : ι) (s s' : σ) : Option ρ → Option ρ → Prop
  | aside {a : Option ρ} (hview : L.view s' = L.view s) (hquiet : L.IsQuiet i s s') :
      Books L i s s' a a
  | answer {r : ρ} (hanswered : L.IsAnswered i) (hspec : L.spec i (L.view s) = (r, L.view s'))
      (hquiet : L.IsFailure r → L.IsQuiet i s s') : Books L i s s' none (some r)

/-- A role is a duty, or none, and the answer, once it is settled. -/
def protocol (L : Ledger ι δ σ υ ρ) : Protocol ι (Option δ × Option ρ) σ where
  inv := L.duties.inv
  given := L.duties.given
  rely m s s' := L.Grows (L.view s) (L.view s') ∧ (L.duties.protocol ι).rely m.1 s s'
  move i m m' s s' := L.duties.Move m.1 m'.1 s s' ∧ L.Books i s s' m.2 m'.2
  rely_refl m s := ⟨L.grows_refl _, (L.duties.protocol ι).rely_refl m.1 s⟩
  rely_trans h h' := ⟨L.grows_trans h.1 h'.1, (L.duties.protocol ι).rely_trans h.2 h'.2⟩

/-- The answers that are settled are those of the requests one after the other. A caller without an
answer, or with a failure, has had no effect. -/
structure Booked (L : Ledger ι δ σ υ ρ) (s₀ s : σ) (roles : List (ι × Option δ × Option ρ))
    (es : List (Event σ)) : Prop where
  kept : L.duties.Kept s (Duties.dutiesOf roles) es
  order : ∃ order : List (Nat × ι × ρ), (order.map Prod.fst).Nodup ∧
    (∀ n i r, (n, i, r) ∈ order ↔ ∃ d, roles[n]? = some (i, d, some r)) ∧
    replay L.spec (L.view s₀) (order.map fun c => c.2.1) = (order.map fun c => c.2.2, L.view s)
  answered : ∀ (n : Nat) (i : ι) (d : Option δ) (r : ρ), roles[n]? = some (i, d, some r) →
    L.IsAnswered i
  callers : ∀ e ∈ es, e.caller < roles.length
  quiet : ∀ e ∈ es, ∀ i d a, roles[e.caller]? = some (i, d, a) → (∀ r, a = some r → L.IsFailure r) →
    L.IsQuiet i e.before e.after

variable {L : Ledger ι δ σ υ ρ} {s₀ s s' : σ} {roles : List (ι × Option δ × Option ρ)}
variable {es : List (Event σ)}

theorem Books.grows {i : ι} {a a' : Option ρ} (h : L.Books i s s' a a') :
    L.Grows (L.view s) (L.view s') := by
  cases h with
  | aside hview hquiet =>
      rw [hview]
      exact L.grows_refl _
  | answer hanswered hspec hquiet =>
      have hgrows := L.grows_spec i (L.view s)
      rwa [hspec] at hgrows

theorem Booked.join (h : L.Booked s₀ s roles es) (i : ι) :
    L.Booked s₀ s (roles ++ [(i, none, none)]) es := by
  have hold : ∀ (n : Nat) (j : ι) (d : Option δ) (r : ρ),
      (roles ++ [(i, none, none)])[n]? = some (j, d, some r) ↔
        roles[n]? = some (j, d, some r) := by
    intro n j d r
    rw [List.getElem?_append]
    split
    · rfl
    · rename_i hlt
      rw [List.getElem?_eq_none (Nat.not_lt.mp hlt), List.getElem?_singleton]
      split
      · simp
      · simp
  constructor
  · have hkept := h.kept.join i
    rwa [Duties.dutiesOf, List.map_append]
  · obtain ⟨order, hnodup, hmem, hreplay⟩ := h.order
    refine ⟨order, hnodup, ?_, hreplay⟩
    intro n j r
    rw [hmem]
    simp only [hold]
  · exact fun n j d r hn => h.answered n j d r ((hold n j d r).mp hn)
  · intro e he
    have hlt := h.callers e he
    rw [List.length_append]
    omega
  · intro e he j d a hn
    rw [List.getElem?_append_left (h.callers e he)] at hn
    exact h.quiet e he j d a hn

theorem settled_aside {n : Nat} {i : ι} {d d' : Option δ} {a : Option ρ}
    (hn : roles[n]? = some (i, d, a)) (k : Nat) (j : ι) (r : ρ) :
    (∃ d, (roles.set n (i, d', a))[k]? = some (j, d, some r)) ↔
      ∃ d, roles[k]? = some (j, d, some r) := by
  constructor
  · rintro ⟨d₁, hk⟩
    rcases (getElem?_set_eq_some hn).mp hk with ⟨rfl, heq⟩ | ⟨-, hk⟩
    · cases heq
      exact ⟨d, hn⟩
    · exact ⟨d₁, hk⟩
  · rintro ⟨d₁, hk⟩
    by_cases heq : k = n
    · subst heq
      rw [hn] at hk
      cases hk
      exact ⟨d', (getElem?_set_eq_some hn).mpr (.inl ⟨rfl, rfl⟩)⟩
    · exact ⟨d₁, (getElem?_set_eq_some hn).mpr (.inr ⟨heq, hk⟩)⟩

theorem settled_answer {n : Nat} {i : ι} {d d' : Option δ} {r₀ : ρ}
    (hn : roles[n]? = some (i, d, none)) (k : Nat) (j : ι) (r : ρ) :
    (∃ d, (roles.set n (i, d', some r₀))[k]? = some (j, d, some r)) ↔
      (∃ d, roles[k]? = some (j, d, some r)) ∨ (k, j, r) = (n, i, r₀) := by
  constructor
  · rintro ⟨d₁, hk⟩
    rcases (getElem?_set_eq_some hn).mp hk with ⟨rfl, heq⟩ | ⟨-, hk⟩
    · cases heq
      exact .inr rfl
    · exact .inl ⟨d₁, hk⟩
  · rintro (⟨d₁, hk⟩ | heq)
    · refine ⟨d₁, (getElem?_set_eq_some hn).mpr (.inr ⟨?_, hk⟩)⟩
      rintro rfl
      rw [hn] at hk
      cases hk
    · cases heq
      exact ⟨d', (getElem?_set_eq_some hn).mpr (.inl ⟨rfl, rfl⟩)⟩

theorem Booked.order_step (h : L.Booked s₀ s roles es) {n : Nat} {i : ι} {d d' : Option δ}
    {a a' : Option ρ} (hn : roles[n]? = some (i, d, a)) (hbooks : L.Books i s s' a a') :
    ∃ order : List (Nat × ι × ρ), (order.map Prod.fst).Nodup ∧
      (∀ k j r, (k, j, r) ∈ order ↔ ∃ d, (roles.set n (i, d', a'))[k]? = some (j, d, some r)) ∧
      replay L.spec (L.view s₀) (order.map fun c => c.2.1) =
        (order.map fun c => c.2.2, L.view s') := by
  obtain ⟨order, hnodup, hmem, hreplay⟩ := h.order
  cases hbooks with
  | aside hview hquiet =>
      refine ⟨order, hnodup, ?_, ?_⟩
      · intro k j r
        rw [settled_aside hn, hmem]
      · rw [hview]
        exact hreplay
  | @answer r hanswered hspec hquiet =>
      -- The request comes after all that are settled, and finds the value that they left.
      refine ⟨order ++ [(n, i, r)], ?_, ?_, ?_⟩
      · rw [List.map_append, List.nodup_append]
        refine ⟨hnodup, by simp, ?_⟩
        intro k hk k' hk'
        obtain ⟨⟨_, j, r'⟩, hc, rfl⟩ := List.mem_map.mp hk
        obtain ⟨d₁, hsettled⟩ := (hmem _ j r').mp hc
        rw [List.mem_singleton.mp hk']
        rintro rfl
        rw [hn] at hsettled
        cases hsettled
      · intro k j r'
        rw [settled_answer hn, ← hmem, List.mem_append, List.mem_singleton]
      · rw [List.map_append, List.map_append]
        change replay L.spec (L.view s₀) (_ ++ [i]) = (_ ++ [r], _)
        rw [replay_append_singleton, hreplay]
        change (_ ++ [(L.spec i (L.view s)).1], (L.spec i (L.view s)).2) = _
        rw [hspec]

theorem Booked.step (h : L.Booked s₀ s roles es) {n : Nat} {i : ι}
    {m m' : Option δ × Option ρ} (hn : roles[n]? = some (i, m))
    (hmove : L.protocol.move i m m' s s') :
    L.Booked s₀ s' (roles.set n (i, m')) (es ++ [⟨n, s, s'⟩]) := by
  obtain ⟨d, a⟩ := m
  obtain ⟨d', a'⟩ := m'
  obtain ⟨hduty, hbooks⟩ := hmove
  constructor
  · have hkept := h.kept.step (Duties.getElem?_dutiesOf hn) hduty
    rwa [Duties.dutiesOf, List.map_set]
  · exact h.order_step hn hbooks
  · intro k j d₁ r hk
    rcases (getElem?_set_eq_some hn).mp hk with ⟨rfl, heq⟩ | ⟨-, hk⟩
    · cases heq
      cases hbooks with
      | aside hview hquiet => exact h.answered k i d r hn
      | answer hanswered hspec hquiet => exact hanswered
    · exact h.answered k j d₁ r hk
  · intro e he
    rw [List.length_set]
    rcases List.mem_append.mp he with he | he
    · exact h.callers e he
    · rw [List.mem_singleton.mp he]
      exact (List.getElem?_eq_some_iff.mp hn).1
  · intro e he j d₁ a₁ hk hfailed
    rcases List.mem_append.mp he with he | he
    · rcases (getElem?_set_eq_some hn).mp hk with ⟨heq, hrole⟩ | ⟨-, hk⟩
      · -- An earlier step of the same caller: it had no answer then, or the same one.
        cases hrole
        rw [← heq] at hn
        refine h.quiet e he i d a hn ?_
        cases hbooks with
        | aside hview hquiet => exact hfailed
        | answer hanswered hspec hquiet =>
            rintro r ⟨⟩
      · exact h.quiet e he j d₁ a₁ hk hfailed
    · cases List.mem_singleton.mp he
      rcases (getElem?_set_eq_some hn).mp hk with ⟨-, hrole⟩ | ⟨hne, -⟩
      · cases hrole
        cases hbooks with
        | aside hview hquiet => exact hquiet
        | answer hanswered hspec hquiet => exact hquiet (hfailed _ rfl)
      · exact absurd rfl hne

theorem keeps {outside : σ → σ → Prop}
    (houtside : ∀ s s', L.duties.inv s → outside s s' → L.duties.inv s' ∧
      L.view s' = L.view s ∧ ∀ d, L.duties.taken d s → L.duties.rely d s s') :
    L.protocol.Keeps (none, none) outside (L.Booked s₀) where
  inv h := h.kept.inv
  join h i := h.join i
  step h _ hn hmove := h.step hn hmove
  rely_step h hn hmove k j r hne hk :=
    ⟨hmove.2.grows, Duties.rely_others h.kept (Duties.getElem?_dutiesOf hn) hmove.1 k j r.1 hne
      (Duties.getElem?_dutiesOf hk)⟩
  change h hs := by
    obtain ⟨hinv, hview, hrely⟩ := houtside _ _ h.kept.inv hs
    have hduties : (L.duties.protocol ι).Keeps none outside L.duties.Kept :=
      Duties.keeps fun s s' hinv hs => ⟨(houtside s s' hinv hs).1, (houtside s s' hinv hs).2.2⟩
    have hkept := hduties.change h.kept hs
    refine ⟨hkept, ?_, h.answered, h.callers, h.quiet⟩
    rw [hview]
    exact h.order
  rely_change h hs k j r hk := by
    obtain ⟨hinv, hview, hrely⟩ := houtside _ _ h.kept.inv hs
    refine ⟨?_, ?_⟩
    · rw [hview]
      exact L.grows_refl _
    · rintro d hd
      refine hrely d (h.kept.taken k j d ?_)
      rw [Duties.getElem?_dutiesOf hk, hd]

/-- In a run of callers that are safe as far as a ledger goes, the requests are answered as if they
came one after the other, and those that fail have no effect. -/
theorem linear_of_run {work : ι → Task σ ρ} {outside : σ → σ → Prop} {p : Pool ι σ ρ}
    (houtside : ∀ s s', L.duties.inv s → outside s s' → L.duties.inv s' ∧
      L.view s' = L.view s ∧ ∀ d, L.duties.taken d s → L.duties.rely d s s')
    (hwork : ∀ i s, L.protocol.Safe i (fun m r _ => L.IsAnswered i → m.2 = some r) (work i)
      (none, none) s)
    (hinit : L.duties.inv s₀) (hrun : Pool.Run work outside s₀ es p)
    (hgiven : ∀ e ∈ es, L.duties.given e.before) :
    (∃ order : List (Nat × ι × ρ), (order.map Prod.fst).Nodup ∧
      (∀ n i r, (n, i, r) ∈ order → L.IsAnswered i ∧ ∃ t, p.callers[n]? = some ⟨i, t⟩) ∧
      (∀ (n : Nat) (i : ι) (r : ρ), p.callers[n]? = some ⟨i, .done r⟩ → L.IsAnswered i →
        (n, i, r) ∈ order) ∧
      replay L.spec (L.view s₀) (order.map fun c => c.2.1) =
        (order.map fun c => c.2.2, L.view p.state)) ∧
    ∀ (n : Nat) (i : ι) (r : ρ), p.callers[n]? = some ⟨i, .done r⟩ → L.IsAnswered i →
      L.IsFailure r → ∀ c ∈ Pool.changesOf n es, L.IsQuiet i c.1 c.2 := by
  have hbooked : L.Booked s₀ s₀ [] [] := by
    refine ⟨⟨hinit, ?_, ?_, ?_⟩, ⟨[], ?_, ?_, rfl⟩, ?_, ?_, ?_⟩ <;> simp [Duties.dutiesOf]
  obtain ⟨roles, h, hguarded⟩ := hrun.guarded (keeps houtside) hwork hbooked hgiven
  -- A caller that is done has its result as its answer.
  have hdone : ∀ (n : Nat) (i : ι) (r : ρ), p.callers[n]? = some ⟨i, .done r⟩ →
      L.IsAnswered i → ∃ d, roles[n]? = some (i, d, some r) := by
    intro n i r hn hanswered
    obtain ⟨⟨d, a⟩, hrole, hsafe⟩ := hguarded.safe n _ hn
    have hresult : a = some r :=
      hsafe p.state h.kept.inv (L.protocol.rely_refl (d, a) p.state) hanswered
    rw [hresult] at hrole
    exact ⟨d, hrole⟩
  constructor
  · obtain ⟨order, hnodup, hmem, hreplay⟩ := h.order
    refine ⟨order, hnodup, ?_, ?_, hreplay⟩
    · intro n i r hr
      obtain ⟨d, hrole⟩ := (hmem n i r).mp hr
      have hlt : n < p.callers.length := by
        rw [hguarded.length_eq]
        exact (List.getElem?_eq_some_iff.mp hrole).1
      obtain ⟨m, hm, -⟩ := hguarded.safe n p.callers[n] (List.getElem?_eq_getElem hlt)
      rw [hrole] at hm
      obtain ⟨hrequest, -⟩ := Prod.mk.inj (Option.some.inj hm)
      refine ⟨h.answered n i d r hrole, p.callers[n].rest, ?_⟩
      rw [List.getElem?_eq_getElem hlt, hrequest]
    · intro n i r hn hanswered
      exact (hmem n i r).mpr (hdone n i r hn hanswered)
  · intro n i r hn hanswered hfailed c hc
    obtain ⟨e, he, rfl, rfl⟩ := Pool.mem_of_mem_changesOf hc
    obtain ⟨d, hrole⟩ := hdone e.caller i r hn hanswered
    refine h.quiet e he i d (some r) hrole ?_
    rintro _ ⟨⟩
    exact hfailed

end Ledger

end TokenQuota
