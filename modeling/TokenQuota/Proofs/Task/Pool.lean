import TokenQuota.Proofs.Task.Protocol

/-!
Runs of any number of activities on one state, in every order of their steps, beside changes
from outside. A caller whose activity is safe stays so in every run.
-/

namespace TokenQuota

theorem getElem?_set_eq_some {α : Type} {l : List α} {n k : Nat} {x y z : α}
    (hn : l[n]? = some z) :
    (l.set n x)[k]? = some y ↔ (k = n ∧ x = y) ∨ (k ≠ n ∧ l[k]? = some y) := by
  rw [List.getElem?_set, if_pos (List.getElem?_eq_some_iff.mp hn).1]
  split
  · rename_i heq
    simp [heq]
  · rename_i hne
    simp [Ne.symm hne]

/-- A caller: what it asked for, and what is left to do. -/
structure Caller (ι σ α : Type) where
  request : ι
  rest : Task σ α

/-- A step of a caller. -/
structure Event (σ : Type) where
  /-- The place of the caller in the pool. -/
  caller : Nat
  before : σ
  after : σ

/-- The callers that have come so far, and the state that they work on. -/
structure Pool (ι σ α : Type) where
  state : σ
  callers : List (Caller ι σ α)

/-- The states before the steps of an activity that runs alone. -/
def Task.visits {σ α : Type} : Task σ α → σ → List σ
  | .done _, _ => []
  | .step ready change next, s => if ready s then s :: (next s).visits (change s) else []
  | .sleep _ next, s => next.visits s

/-- What the steps of an activity that runs alone do not take away holds all the time. -/
theorem Task.Changes.holds_of_run {σ α : Type} {R : σ → σ → Prop} {K : σ → Prop} {t : Task σ α}
    {s : σ} (ht : t.Changes R) (hK : ∀ s s', R s s' → K s → K s') (hs : K s) :
    (∀ s' ∈ t.visits s, K s') ∧ K (t.run (fun _ s => s) s).2 := by
  induction t generalizing s with
  | done a => exact ⟨by simp [Task.visits], hs⟩
  | step ready change next ih =>
      rw [Task.visits, Task.run]
      split
      · rename_i hready
        obtain ⟨hchange, hnext⟩ := ht s hready
        obtain ⟨hvisits, hlast⟩ := ih s hnext (hK _ _ hchange hs)
        exact ⟨List.forall_mem_cons.mpr ⟨hs, hvisits⟩, hlast⟩
      · exact ⟨by simp, hs⟩
  | sleep millis next ih => exact ih ht hs

namespace Pool

variable {ι μ σ α : Type} (work : ι → Task σ α) (outside : σ → σ → Prop) (s₀ : σ)

/-- What happens from a state on: callers come, one of them makes its next step or wakes up, or
the state changes from outside. -/
inductive Run : List (Event σ) → Pool ι σ α → Prop
  | start : Run [] ⟨s₀, []⟩
  | join {es : List (Event σ)} {p : Pool ι σ α} (h : Run es p) (i : ι) :
      Run es ⟨p.state, p.callers ++ [⟨i, work i⟩]⟩
  | step {es : List (Event σ)} {p : Pool ι σ α} (h : Run es p) {n : Nat} {i : ι}
      {ready : σ → Bool} {change : σ → σ} {next : σ → Task σ α}
      (hn : p.callers[n]? = some ⟨i, .step ready change next⟩) (hready : ready p.state = true) :
      Run (es ++ [⟨n, p.state, change p.state⟩])
        ⟨change p.state, p.callers.set n ⟨i, next p.state⟩⟩
  | wake {es : List (Event σ)} {p : Pool ι σ α} (h : Run es p) {n : Nat} {i : ι} {millis : Nat}
      {next : Task σ α} (hn : p.callers[n]? = some ⟨i, .sleep millis next⟩) :
      Run es ⟨p.state, p.callers.set n ⟨i, next⟩⟩
  | outside {es : List (Event σ)} {p : Pool ι σ α} (h : Run es p) {s : σ}
      (hs : outside p.state s) : Run es ⟨s, p.callers⟩

/-- The changes that a caller made. -/
def changesOf (n : Nat) (es : List (Event σ)) : List (σ × σ) :=
  (es.filter fun e => e.caller == n).map fun e => (e.before, e.after)

variable {work outside s₀} {es : List (Event σ)} {p : Pool ι σ α}

theorem changesOf_append_self (n : Nat) (es : List (Event σ)) (s s' : σ) :
    changesOf n (es ++ [⟨n, s, s'⟩]) = changesOf n es ++ [(s, s')] := by
  simp [changesOf]

theorem changesOf_append_of_ne {n k : Nat} (h : k ≠ n) (es : List (Event σ)) (s s' : σ) :
    changesOf n (es ++ [⟨k, s, s'⟩]) = changesOf n es := by
  simp [changesOf, h]

theorem mem_of_mem_changesOf {n : Nat} {c : σ × σ} (h : c ∈ changesOf n es) :
    ∃ e ∈ es, e.caller = n ∧ c = (e.before, e.after) := by
  obtain ⟨e, he, rfl⟩ := List.mem_map.mp h
  obtain ⟨hmem, hcaller⟩ := List.mem_filter.mp he
  exact ⟨e, hmem, by simpa using hcaller, rfl⟩

theorem mem_changesOf {e : Event σ} (h : e ∈ es) :
    (e.before, e.after) ∈ changesOf e.caller es :=
  List.mem_map.mpr ⟨e, List.mem_filter.mpr ⟨h, by simp⟩, rfl⟩

theorem pairwise_changesOf {R : σ → σ → Prop} (n : Nat)
    (h : es.Pairwise fun e e' => R e.before e'.before) :
    (changesOf n es).Pairwise fun c c' => R c.1 c'.1 :=
  List.pairwise_map.mpr (h.filter _)

theorem Run.caller_lt (h : Run work outside s₀ es p) : ∀ e ∈ es, e.caller < p.callers.length := by
  induction h with
  | start => simp
  | join h i ih =>
      intro e he
      have hlt := ih e he
      rw [List.length_append]
      omega
  | step h hn hready ih =>
      intro e he
      rw [List.length_set]
      rcases List.mem_append.mp he with he | he
      · exact ih e he
      · rw [List.mem_singleton.mp he]
        exact (List.getElem?_eq_some_iff.mp hn).1
  | wake h hn ih =>
      intro e he
      rw [List.length_set]
      exact ih e he
  | outside h hs ih => exact ih

theorem changesOf_eq_nil {n : Nat} (h : ∀ e ∈ es, e.caller < n) : changesOf n es = [] := by
  rw [changesOf, List.map_eq_nil_iff, List.filter_eq_nil_iff]
  intro e he hcaller
  have hlt := h e he
  have heq : e.caller = n := by simpa using hcaller
  omega

/-- What is left of a caller's activity is what its own steps leave of it. -/
theorem Run.steps (h : Run work outside s₀ es p) {n : Nat} {c : Caller ι σ α}
    (hn : p.callers[n]? = some c) : (work c.request).Steps (changesOf n es) c.rest := by
  induction h generalizing c with
  | start => simp at hn
  | @join es p h i ih =>
      rw [List.getElem?_append] at hn
      split at hn
      · exact ih hn
      · rename_i hlt
        obtain ⟨hzero, rfl⟩ : n - p.callers.length = 0 ∧ c = ⟨i, work i⟩ := by
          rw [List.getElem?_singleton] at hn
          split at hn
          · rename_i hzero
            exact ⟨hzero, (Option.some.inj hn).symm⟩
          · cases hn
        have hnil : changesOf n es = [] := by
          refine changesOf_eq_nil fun e he => ?_
          have hcaller := h.caller_lt e he
          omega
        rw [hnil]
        exact .refl _
  | @step es p h k i ready change next hk hready ih =>
      rcases (getElem?_set_eq_some hk).mp hn with ⟨rfl, rfl⟩ | ⟨hne, hn⟩
      · rw [changesOf_append_self]
        exact (ih hk).trans (.step hready (.refl _))
      · rw [changesOf_append_of_ne (Ne.symm hne)]
        exact ih hn
  | @wake es p h k i millis next hk ih =>
      rcases (getElem?_set_eq_some hk).mp hn with ⟨rfl, rfl⟩ | ⟨-, hn⟩
      · rw [← List.append_nil (changesOf n es)]
        exact (ih hk).trans (.sleep (.refl _))
      · exact ih hn
  | outside h hs ih => exact ih hn

/-- A caller may come to its end before anybody else goes on. -/
theorem Run.finish (h : Run work outside s₀ es p) {n : Nat} {i : ι} {t : Task σ α}
    (hn : p.callers[n]? = some ⟨i, t⟩) (hends : (t.run (fun _ s => s) p.state).1.isSome = true) :
    ∃ es' a, Run work outside s₀ es'
        ⟨(t.run (fun _ s => s) p.state).2, p.callers.set n ⟨i, .done a⟩⟩ ∧
      (t.run (fun _ s => s) p.state).1 = some a ∧
      es'.map Event.before = es.map Event.before ++ t.visits p.state := by
  induction t generalizing es p with
  | done b =>
      refine ⟨es, b, ?_, rfl, (List.append_nil _).symm⟩
      obtain ⟨hlt, hget⟩ := List.getElem?_eq_some_iff.mp hn
      rw [← hget, List.set_getElem_self]
      exact h
  | step ready change next ih =>
      rw [Task.run] at hends ⊢
      rw [Task.visits]
      split at hends
      · rename_i hready
        have hset : (p.callers.set n ⟨i, next p.state⟩)[n]? = some ⟨i, next p.state⟩ := by
          rw [List.getElem?_set_self (List.getElem?_eq_some_iff.mp hn).1]
        obtain ⟨es', a, hes', hresult, hvisits⟩ := ih p.state (h.step hn hready) hset hends
        rw [List.set_set] at hes'
        rw [if_pos hready, if_pos hready]
        refine ⟨es', a, hes', hresult, ?_⟩
        rw [hvisits, List.map_append, List.append_assoc]
        rfl
      · cases hends
  | sleep millis next ih =>
      have hset : (p.callers.set n ⟨i, next⟩)[n]? = some ⟨i, next⟩ := by
        rw [List.getElem?_set_self (List.getElem?_eq_some_iff.mp hn).1]
      obtain ⟨es', a, hes', hresult, hvisits⟩ := ih (h.wake hn) hset hends
      rw [List.set_set] at hes'
      exact ⟨es', a, hes', hresult, hvisits⟩

theorem Run.finish_of_run (h : Run work outside s₀ es p) {n : Nat} {i : ι} {t : Task σ α} {a : α}
    {s : σ} (hn : p.callers[n]? = some ⟨i, t⟩)
    (hends : t.run (fun _ s => s) p.state = (some a, s)) :
    ∃ es', Run work outside s₀ es' ⟨s, p.callers.set n ⟨i, .done a⟩⟩ := by
  obtain ⟨es', b, hes', hresult, -⟩ := h.finish hn (by rw [hends]; rfl)
  rw [hends] at hes' hresult
  obtain rfl := Option.some.inj hresult
  exact ⟨es', hes'⟩

theorem Run.joinAndFinish (h : Run work outside s₀ es p) (i : ι)
    (hends : ((work i).run (fun _ s => s) p.state).1.isSome = true) :
    ∃ es' a, Run work outside s₀ es'
        ⟨((work i).run (fun _ s => s) p.state).2, p.callers ++ [⟨i, .done a⟩]⟩ ∧
      ((work i).run (fun _ s => s) p.state).1 = some a ∧
      es'.map Event.before = es.map Event.before ++ (work i).visits p.state := by
  have hn : (p.callers ++ [⟨i, work i⟩])[p.callers.length]? = some ⟨i, work i⟩ := by simp
  obtain ⟨es', a, hes', hresult, hvisits⟩ := (h.join i).finish hn hends
  refine ⟨es', a, ?_, hresult, hvisits⟩
  rwa [List.set_append_right _ _ (Nat.le_refl _), Nat.sub_self] at hes'

theorem Run.exists_after (h : Run work outside s₀ es p) {s : σ} (hstate : p.state = s) (i : ι)
    (hends : ((work i).run (fun _ s => s) s).1.isSome = true) :
    ∃ es' p', Run work outside s₀ es' p' ∧ p'.state = ((work i).run (fun _ s => s) s).2 := by
  subst hstate
  obtain ⟨es', a, h', -⟩ := h.joinAndFinish i hends
  exact ⟨es', _, h', rfl⟩

/-- What some steps bring about stays from each of them on, if no later step and nothing outside
takes it away. -/
theorem Run.pairwise_of_reached {A : Event σ → Prop} {K : Event σ → σ → Prop}
    (h : Run work outside s₀ es p) (hreached : ∀ e ∈ es, A e → K e e.after)
    (hkept : es.Pairwise fun e e' => A e → K e e'.before → K e e'.after)
    (houtside : ∀ e s s', outside s s' → K e s → K e s') :
    es.Pairwise (fun e e' => A e → K e e'.before) ∧ ∀ e ∈ es, A e → K e p.state := by
  induction h with
  | start => simp
  | join h i ih => exact ih hreached hkept
  | @step es p h n i ready change next hn hready ih =>
      obtain ⟨hinit, -, hlast⟩ := List.pairwise_append.mp hkept
      obtain ⟨hpairwise, hstate⟩ := ih (fun e he => hreached e (List.mem_append_left _ he)) hinit
      constructor
      · rw [List.pairwise_append]
        refine ⟨hpairwise, List.pairwise_singleton _ _, ?_⟩
        intro e he e' he'
        rw [List.mem_singleton.mp he']
        exact hstate e he
      · intro e he hA
        rcases List.mem_append.mp he with he | he
        · exact hlast e he _ List.mem_cons_self hA (hstate e he hA)
        · cases List.mem_singleton.mp he
          exact hreached _ (by simp) hA
  | wake h hn ih => exact ih hreached hkept
  | outside h hs ih =>
      obtain ⟨hpairwise, hstate⟩ := ih hreached hkept
      exact ⟨hpairwise, fun e he hA => houtside e _ _ hs (hstate e he hA)⟩

/-- What no step and nothing outside takes away stays from each step on. -/
theorem Run.pairwise_of_kept {K : σ → Prop} (h : Run work outside s₀ es p)
    (hevents : ∀ e ∈ es, K e.before → K e.after)
    (houtside : ∀ s s', outside s s' → K s → K s') :
    es.Pairwise (fun e e' => K e.before → K e'.before) ∧ ∀ e ∈ es, K e.before → K p.state :=
  h.pairwise_of_reached (A := fun e => K e.before) (K := fun _ => K) hevents
    (List.pairwise_of_forall_mem_list fun _ _ e' he' _ => hevents e' he') fun _ => houtside

theorem Run.mono {outside' : σ → σ → Prop} (h : Run work outside s₀ es p)
    (houtside : ∀ s s', outside s s' → outside' s s') : Run work outside' s₀ es p := by
  induction h with
  | start => exact .start
  | join h i ih => exact ih.join i
  | step h hn hready ih => exact ih.step hn hready
  | wake h hn ih => exact ih.wake hn
  | outside h hs ih => exact ih.outside (houtside _ _ hs)

/-- What holds in the beginning holds all the time, if no step and nothing outside takes it
away. -/
theorem Run.kept_of_start {K : σ → Prop} (h : Run work outside s₀ es p) (hstart : K s₀)
    (hevents : ∀ e ∈ es, K e.before → K e.after)
    (houtside : ∀ s s', outside s s' → K s → K s') : (∀ e ∈ es, K e.before) ∧ K p.state := by
  induction h with
  | start => exact ⟨by simp, hstart⟩
  | join h i ih => exact ih hevents
  | step h hn hready ih =>
      obtain ⟨hbefore, hstate⟩ := ih fun e he => hevents e (List.mem_append_left _ he)
      constructor
      · intro e he
        rcases List.mem_append.mp he with he | he
        · exact hbefore e he
        · rw [List.mem_singleton.mp he]
          exact hstate
      · exact hevents _ (List.mem_append_right _ List.mem_cons_self) hstate
  | wake h hn ih => exact ih hevents
  | outside h hs ih =>
      obtain ⟨hbefore, hstate⟩ := ih hevents
      exact ⟨hbefore, houtside _ _ hs hstate⟩

/-- What the marks of the steps record, one after the other, and what holds of the record and the
state. -/
theorem Run.kept_along_marks {κ : Type} {K : List κ → σ → Prop} {record : List κ}
    {l : List (Event σ × Option κ)} (h : Run work outside s₀ es p) (hl : l.map Prod.fst = es)
    (hstart : K record s₀)
    (hmarks : ∀ c ∈ l, ∀ ks, K ks c.1.before → K (ks ++ c.2.toList) c.1.after)
    (houtside : ∀ ks s s', outside s s' → K ks s → K ks s') :
    K (record ++ l.filterMap Prod.snd) p.state := by
  induction h generalizing l with
  | start =>
      rw [List.map_eq_nil_iff.mp hl, List.filterMap_nil, List.append_nil]
      exact hstart
  | join h i ih => exact ih hl hmarks
  | step h hn hready ih =>
      obtain ⟨l, last, rfl, hinit, hlast⟩ := List.map_eq_append_iff.mp hl
      obtain ⟨⟨e, mark⟩, rfl, rfl⟩ := List.map_eq_singleton_iff.mp hlast
      rw [List.forall_mem_append] at hmarks
      have hstep := hmarks.2 _ List.mem_cons_self _ (ih hinit hmarks.1)
      rw [List.append_assoc] at hstep
      rw [List.filterMap_append]
      cases mark with
      | none => exact hstep
      | some a => exact hstep
  | wake h hn ih => exact ih hl hmarks
  | outside h hs ih => exact houtside _ _ _ hs (ih hl hmarks)

/-- The same for marks that can be told from the steps. -/
theorem Run.kept_along {κ : Type} {K : List κ → σ → Prop} {f : Event σ → Option κ} {l : List κ}
    (h : Run work outside s₀ es p) (hstart : K l s₀)
    (hevents : ∀ e ∈ es, ∀ l, K l e.before → K (l ++ (f e).toList) e.after)
    (houtside : ∀ l s s', outside s s' → K l s → K l s') : K (l ++ es.filterMap f) p.state := by
  have hmap : (es.map fun e => (e, f e)).map Prod.fst = es := by simp [Function.comp_def]
  have hmarks : ∀ c ∈ es.map fun e => (e, f e), ∀ l, K l c.1.before →
      K (l ++ c.2.toList) c.1.after := by
    intro c hc
    obtain ⟨e, he, rfl⟩ := List.mem_map.mp hc
    exact hevents e he
  have hkept := h.kept_along_marks hmap hstart hmarks houtside
  rwa [List.filterMap_map] at hkept

/-- What holds before every step and at the end, holds after every step, if nothing outside brings
it about. -/
theorem Run.holds_after {K : σ → Prop} (h : Run work outside s₀ es p)
    (houtside : ∀ s s', outside s s' → K s' → K s) (hbefore : ∀ e ∈ es, K e.before)
    (hlast : K p.state) : ∀ e ∈ es, K e.after := by
  induction h with
  | start => simp
  | join h i ih => exact ih hbefore hlast
  | step h hn hready ih =>
      rw [List.forall_mem_append] at hbefore
      intro e he
      rcases List.mem_append.mp he with he | he
      · exact ih hbefore.1 (hbefore.2 _ List.mem_cons_self) e he
      · cases List.mem_singleton.mp he
        exact hlast
  | wake h hn ih => exact ih hbefore hlast
  | outside h hs ih => exact ih hbefore (houtside _ _ hs hlast)

theorem map_request_set {l : List (Caller ι σ α)} {n : Nat} {i : ι} {t t' : Task σ α}
    (hn : l[n]? = some ⟨i, t⟩) :
    (l.set n ⟨i, t'⟩).map Caller.request = l.map Caller.request := by
  have hrequest : (l.map Caller.request)[n]? = some i := by rw [List.getElem?_map, hn]; rfl
  obtain ⟨hlt, hget⟩ := List.getElem?_eq_some_iff.mp hrequest
  rw [List.map_set, ← hget, List.set_getElem_self]

/-- The callers are all still there, and those that came to their end have their results. -/
def GoOn (l l' : List (Caller ι σ α)) : Prop :=
  ∀ (n : Nat) (i : ι) (t : Task σ α), l[n]? = some ⟨i, t⟩ →
    ∃ t', l'[n]? = some ⟨i, t'⟩ ∧ ∀ a, t = .done a → t' = .done a

theorem goOn_append (l l' : List (Caller ι σ α)) : GoOn l (l ++ l') := by
  intro n i t hn
  refine ⟨t, ?_, fun _ => id⟩
  rw [List.getElem?_append_left (List.getElem?_eq_some_iff.mp hn).1]
  exact hn

theorem goOn_set {l : List (Caller ι σ α)} {n : Nat} {i : ι} {t : Task σ α}
    (hn : l[n]? = some ⟨i, t⟩) (hnot : ∀ a, t ≠ .done a) (t' : Task σ α) :
    GoOn l (l.set n ⟨i, t'⟩) := by
  intro k j u hk
  by_cases heq : k = n
  · subst heq
    cases hn.symm.trans hk
    exact ⟨t', (getElem?_set_eq_some hn).mpr (.inl ⟨rfl, rfl⟩), fun a ha => absurd ha (hnot a)⟩
  · exact ⟨u, (getElem?_set_eq_some hn).mpr (.inr ⟨heq, hk⟩), fun _ => id⟩

end Pool

/-- What holds of the state, the requests with their roles and the steps so far, whatever the
callers and the outside do. -/
structure Protocol.Keeps {ι μ σ : Type} (P : Protocol ι μ σ) (idle : μ)
    (outside : σ → σ → Prop) (I : σ → List (ι × μ) → List (Event σ) → Prop) : Prop where
  inv : ∀ {s roles es}, I s roles es → P.inv s
  join : ∀ {s roles es}, I s roles es → ∀ i, I s (roles ++ [(i, idle)]) es
  step : ∀ {s s' roles es n i m m'}, I s roles es → P.given s → roles[n]? = some (i, m) →
    P.move i m m' s s' → I s' (roles.set n (i, m')) (es ++ [⟨n, s, s'⟩])
  /-- The others may rely on a move. -/
  rely_step : ∀ {s s' roles es n i m m'}, I s roles es → roles[n]? = some (i, m) →
    P.move i m m' s s' → ∀ (k : Nat) (j : ι) (r : μ), k ≠ n → roles[k]? = some (j, r) → P.rely r s s'
  change : ∀ {s s' roles es}, I s roles es → outside s s' → I s' roles es
  /-- The callers may rely on a change from outside. -/
  rely_change : ∀ {s s' roles es}, I s roles es → outside s s' →
    ∀ (k : Nat) (j : ι) (r : μ), roles[k]? = some (j, r) → P.rely r s s'

namespace Pool

variable {ι μ σ α : Type} {work : ι → Task σ α} {outside : σ → σ → Prop} {s₀ : σ}
variable {P : Protocol ι μ σ} {idle : μ} {Q : ι → μ → α → σ → Prop}

/-- Every caller has a role in which what is left of its activity is safe. -/
structure Guarded (P : Protocol ι μ σ) (Q : ι → μ → α → σ → Prop) (roles : List (ι × μ))
    (p : Pool ι σ α) : Prop where
  length_eq : p.callers.length = roles.length
  safe : ∀ (n : Nat) (c : Caller ι σ α), p.callers[n]? = some c →
    ∃ m, roles[n]? = some (c.request, m) ∧ P.Safe c.request (Q c.request) c.rest m p.state

theorem Guarded.join {roles : List (ι × μ)} {p : Pool ι σ α} (h : Guarded P Q roles p) {i : ι}
    {t : Task σ α} (hsafe : P.Safe i (Q i) t idle p.state) :
    Guarded P Q (roles ++ [(i, idle)]) ⟨p.state, p.callers ++ [⟨i, t⟩]⟩ := by
  constructor
  · simp [h.length_eq]
  · intro n c hn
    simp only [List.getElem?_append] at hn ⊢
    split at hn
    · rename_i hlt
      rw [if_pos (by rw [← h.length_eq]; exact hlt)]
      exact h.safe n c hn
    · rename_i hlt
      rw [if_neg (by rw [← h.length_eq]; exact hlt), ← h.length_eq]
      rw [List.getElem?_singleton] at hn ⊢
      split at hn
      · rename_i hzero
        rw [if_pos hzero]
        cases hn
        exact ⟨idle, rfl, hsafe⟩
      · cases hn

theorem Guarded.set {roles : List (ι × μ)} {p : Pool ι σ α} (h : Guarded P Q roles p) {n : Nat}
    {i : ι} {t t' : Task σ α} {m' : μ} {s' : σ} (hn : p.callers[n]? = some ⟨i, t⟩)
    (hsafe : P.Safe i (Q i) t' m' s')
    (hrely : ∀ (k : Nat) (j : ι) (r : μ), k ≠ n → roles[k]? = some (j, r) → P.rely r p.state s') :
    Guarded P Q (roles.set n (i, m')) ⟨s', p.callers.set n ⟨i, t'⟩⟩ := by
  obtain ⟨m₀, hm₀, -⟩ := h.safe n _ hn
  constructor
  · simp [h.length_eq]
  · intro k c hk
    rcases (getElem?_set_eq_some hn).mp hk with ⟨rfl, rfl⟩ | ⟨hne, hk⟩
    · exact ⟨m', (getElem?_set_eq_some hm₀).mpr (.inl ⟨rfl, rfl⟩), hsafe⟩
    · obtain ⟨m, hm, hc⟩ := h.safe k c hk
      exact ⟨m, (getElem?_set_eq_some hm₀).mpr (.inr ⟨hne, hm⟩),
        hc.rely (hrely k c.request m hne hm)⟩

/-- Callers whose activities are safe from the start keep what a protocol keeps, and each stays
safe in its role. Only the requests that are made count. -/
theorem Run.guarded_among {A : ι → Prop} {I : σ → List (ι × μ) → List (Event σ) → Prop}
    (hI : P.Keeps idle outside I) (hwork : ∀ i s, A i → P.Safe i (Q i) (work i) idle s)
    (hinit : I s₀ [] []) {es : List (Event σ)} {p : Pool ι σ α}
    (h : Run work outside s₀ es p) (hA : ∀ i ∈ p.callers.map Caller.request, A i)
    (hgiven : ∀ e ∈ es, P.given e.before) :
    ∃ roles, I p.state roles es ∧ Guarded P Q roles p := by
  induction h with
  | start => exact ⟨[], hinit, rfl, fun n c hn => by simp at hn⟩
  | @join es p h i ih =>
      rw [List.map_append, List.forall_mem_append] at hA
      obtain ⟨roles, hroles, hguarded⟩ := ih hA.1 hgiven
      exact ⟨_, hI.join hroles i, hguarded.join (hwork i p.state (hA.2 i List.mem_cons_self))⟩
  | @step es p h n i ready change next hn hready ih =>
      rw [map_request_set hn] at hA
      obtain ⟨roles, hroles, hguarded⟩ :=
        ih hA fun e he => hgiven e (List.mem_append_left _ he)
      obtain ⟨m, hm, hsafe⟩ := hguarded.safe n _ hn
      have hhere : P.given p.state := hgiven ⟨n, p.state, change p.state⟩ (by simp)
      obtain ⟨m', hmove, hnext⟩ := hsafe p.state (hI.inv hroles) hhere (P.rely_refl m _) hready
      exact ⟨_, hI.step hroles hhere hm hmove,
        hguarded.set hn hnext (hI.rely_step hroles hm hmove)⟩
  | @wake es p h n i millis next hn ih =>
      rw [map_request_set hn] at hA
      obtain ⟨roles, hroles, hguarded⟩ := ih hA hgiven
      obtain ⟨m, hm, hsafe⟩ := hguarded.safe n _ hn
      refine ⟨roles, hroles, ?_⟩
      obtain ⟨hlt, hget⟩ := List.getElem?_eq_some_iff.mp hm
      -- To wake up is no step: the role and the state are the same.
      have hnext : P.Safe i (Q i) next m p.state := hsafe
      have hset := hguarded.set hn hnext fun k j r _ _ => P.rely_refl r p.state
      have hsame : roles.set n (i, m) = roles := by
        have heq : roles[n] = (i, m) := hget
        rw [← heq, List.set_getElem_self]
      rwa [hsame] at hset
  | @outside es p h s hs ih =>
      obtain ⟨roles, hroles, hguarded⟩ := ih hA hgiven
      refine ⟨roles, hI.change hroles hs, hguarded.length_eq, ?_⟩
      intro n c hn
      obtain ⟨m, hm, hsafe⟩ := hguarded.safe n c hn
      exact ⟨m, hm, hsafe.rely (hI.rely_change hroles hs n c.request m hm)⟩

theorem Run.guarded {I : σ → List (ι × μ) → List (Event σ) → Prop}
    (hI : P.Keeps idle outside I) (hwork : ∀ i s, P.Safe i (Q i) (work i) idle s)
    (hinit : I s₀ [] []) {es : List (Event σ)} {p : Pool ι σ α}
    (h : Run work outside s₀ es p) (hgiven : ∀ e ∈ es, P.given e.before) :
    ∃ roles, I p.state roles es ∧ Guarded P Q roles p :=
  h.guarded_among (A := fun _ => True) hI (fun i s _ => hwork i s) hinit (fun _ _ => trivial) hgiven

end Pool

end TokenQuota
