import TokenQuota.Proofs.Task.Pool

/-!
Runs that follow a schedule, and activities that do not tell two states apart. Where such states
are all that two runs differ in, the same turns keep every caller at the same place in both.
-/

namespace TokenQuota

namespace Task

variable {σ τ : Type} {α β : Type} {alike : σ → σ → Prop} {given : σ → Prop}

/-- The activity does not tell alike states apart, the first of which is given: it is ready in both
or in neither, what it does leaves them alike, and it goes on in the same way. -/
def Blind (alike : σ → σ → Prop) (given : σ → Prop) : Task σ α → Prop
  | .done _ => True
  | .step ready change next => ∀ s s', alike s s' → given s → ready s = ready s' ∧
      (ready s = true → alike (change s) (change s') ∧ next s = next s' ∧
        (next s).Blind alike given)
  | .sleep _ next => next.Blind alike given

theorem Blind.andThen {t : Task σ α} {f : α → Task σ β} (ht : t.Blind alike given)
    (hf : ∀ a, (f a).Blind alike given) : (t.andThen f).Blind alike given := by
  induction t with
  | done a => exact hf a
  | step ready change next ih =>
      intro s s' halike hgiven
      obtain ⟨hready, hstep⟩ := ht s s' halike hgiven
      refine ⟨hready, fun h => ?_⟩
      obtain ⟨hchange, hnext, hrest⟩ := hstep h
      exact ⟨hchange, congrArg (fun t : Task σ α => t.andThen f) hnext, ih s hrest⟩
  | sleep millis next ih => exact ih ht

/-- A step that tells alike states apart may be followed by an activity to which the difference is
none. -/
theorem blind_atOnce_andThen {f : σ → α × σ} {g : α → Task σ β}
    (h : ∀ s s', alike s s' → given s → alike (f s).2 (f s').2 ∧ g (f s).1 = g (f s').1)
    (hg : ∀ a, (g a).Blind alike given) : ((atOnce f).andThen g).Blind alike given := by
  intro s s' halike hgiven
  obtain ⟨hchange, hnext⟩ := h s s' halike hgiven
  exact ⟨rfl, fun _ => ⟨hchange, hnext, hg _⟩⟩

theorem blind_atOnce {f : σ → α × σ}
    (h : ∀ s s', alike s s' → given s → alike (f s).2 (f s').2 ∧ (f s).1 = (f s').1) :
    (atOnce f).Blind alike given := by
  intro s s' halike hgiven
  obtain ⟨hchange, hresult⟩ := h s s' halike hgiven
  exact ⟨rfl, fun _ => ⟨hchange, congrArg done hresult, trivial⟩⟩

theorem blind_read {f : σ → α} (h : ∀ s s', alike s s' → f s = f s') :
    (read f).Blind alike given := by
  intro s s' halike _
  exact ⟨rfl, fun _ => ⟨halike, congrArg done (h s s' halike), trivial⟩⟩

theorem blind_await {ready : σ → Bool} {change : σ → σ}
    (hready : ∀ s s', alike s s' → ready s = ready s')
    (hchange : ∀ s s', alike s s' → alike (change s) (change s')) :
    (await ready change).Blind alike given :=
  fun s s' halike _ => ⟨hready s s' halike, fun _ => ⟨hchange s s' halike, rfl, trivial⟩⟩

theorem blind_modify {f : σ → σ} (h : ∀ s s', alike s s' → alike (f s) (f s')) :
    (modify f).Blind alike given :=
  blind_await (fun _ _ _ => rfl) h

theorem blind_pause (millis : Nat) : (pause millis).Blind alike given := by
  unfold pause
  split
  · exact trivial
  · exact trivial

/-- Nothing that is done on a part tells states apart that have the same part. -/
theorem blind_onPart {p : Part σ τ} (hget : ∀ s s', alike s s' → p.get s = p.get s')
    (hset : ∀ s s' r, alike s s' → alike (p.set r s) (p.set r s')) (t : Task τ α) :
    (t.onPart p).Blind alike given := by
  induction t with
  | done a => exact trivial
  | step ready change next ih =>
      intro s s' halike hgiven
      have hpart := hget s s' halike
      refine ⟨congrArg ready hpart, fun _ => ⟨?_, ?_, ih _⟩⟩
      · change alike (p.set (change (p.get s)) s) (p.set (change (p.get s')) s')
        rw [← hpart]
        exact hset s s' _ halike
      · exact congrArg (fun r => (next r).onPart p) hpart
  | sleep millis next ih => exact ih

theorem Blind.holding {lock : Part σ Bool} {t : Task σ α} (ht : t.Blind alike given)
    (hget : ∀ s s', alike s s' → lock.get s = lock.get s')
    (hset : ∀ s s' b, alike s s' → alike (lock.set b s) (lock.set b s')) :
    (Task.holding lock t).Blind alike given := by
  refine Blind.andThen (blind_await ?_ fun s s' => hset s s' true) fun _ => ?_
  · intro s s' halike
    rw [hget s s' halike]
  · exact Blind.andThen ht fun a =>
      Blind.andThen (blind_modify fun s s' => hset s s' false) fun _ => trivial

end Task

namespace Action

open TokenQuota.Task

variable {ε σ τ α β : Type} {alike : σ → σ → Prop} {given : σ → Prop}

theorem blind_bind {x : Action ε σ α} {f : α → Action ε σ β} (hx : x.run.Blind alike given)
    (hf : ∀ a, (f a).run.Blind alike given) : (x >>= f).run.Blind alike given := by
  refine Blind.andThen hx fun r => ?_
  cases r with
  | ok a => exact hf a
  | error e => exact trivial

theorem blind_ofTask {t : Task σ α} (h : t.Blind alike given) :
    (Action.ofTask t : Action ε σ α).run.Blind alike given :=
  Blind.andThen h fun _ => trivial

theorem blind_outcome {x : Action ε σ α} (h : x.run.Blind alike given) :
    x.outcome.run.Blind alike given :=
  Blind.andThen h fun _ => trivial

theorem blind_ofExcept (x : Except ε α) :
    (Action.ofExcept x : Action ε σ α).run.Blind alike given := by
  cases x with
  | ok a => exact trivial
  | error e => exact trivial

end Action

namespace Pool

variable {ι δ σ α : Type}

/-- A turn of a run: somebody comes, a caller goes on if it can, or something happens outside. -/
inductive Turn (ι δ : Type)
  | join (i : ι)
  | next (n : Nat)
  | outside (d : δ)

/-- The pool after a turn. -/
def turn (work : ι → Task σ α) (happen : δ → σ → σ) (p : Pool ι σ α) :
    Turn ι δ → Pool ι σ α
  | .join i => ⟨p.state, p.callers ++ [⟨i, work i⟩]⟩
  | .next n =>
    match p.callers[n]? with
    | some ⟨i, .step ready change next⟩ =>
      if ready p.state then ⟨change p.state, p.callers.set n ⟨i, next p.state⟩⟩ else p
    | some ⟨i, .sleep _ next⟩ => ⟨p.state, p.callers.set n ⟨i, next⟩⟩
    | some ⟨_, .done _⟩ | none => p
  | .outside d => ⟨happen d p.state, p.callers⟩

/-- The pool after some turns. -/
def play (work : ι → Task σ α) (happen : δ → σ → σ) (turns : List (Turn ι δ))
    (p : Pool ι σ α) : Pool ι σ α :=
  turns.foldl (turn work happen) p

theorem play_append (work : ι → Task σ α) (happen : δ → σ → σ) (turns turns' : List (Turn ι δ))
    (p : Pool ι σ α) :
    p.play work happen (turns ++ turns') = (p.play work happen turns).play work happen turns' :=
  List.foldl_append

variable {work : ι → Task σ α} {happen : δ → σ → σ} {outside : σ → σ → Prop} {s₀ : σ}
  {es : List (Event σ)} {p p' : Pool ι σ α}

theorem Run.turn (h : Run work outside s₀ es p) (hhappen : ∀ d s, outside s (happen d s))
    (t : Turn ι δ) : ∃ es', Run work outside s₀ es' (p.turn work happen t) := by
  cases t with
  | join i => exact ⟨es, h.join i⟩
  | outside d => exact ⟨es, h.outside (hhappen d p.state)⟩
  | next n =>
      unfold Pool.turn
      dsimp only
      split
      · rename_i hn
        split
        · rename_i hready
          exact ⟨_, h.step hn hready⟩
        · exact ⟨es, h⟩
      · rename_i hn
        exact ⟨es, h.wake hn⟩
      · exact ⟨es, h⟩
      · exact ⟨es, h⟩

/-- Whatever the turns are, they make a run. -/
theorem Run.play (h : Run work outside s₀ es p) (hhappen : ∀ d s, outside s (happen d s))
    (turns : List (Turn ι δ)) : ∃ es', Run work outside s₀ es' (p.play work happen turns) := by
  induction turns generalizing es p with
  | nil => exact ⟨es, h⟩
  | cons t rest ih =>
      obtain ⟨es', h'⟩ := h.turn hhappen t
      exact ih h'

/-- Every run is one of turns. -/
theorem Run.exists_turns (h : Run work outside s₀ es p)
    (hhappen : ∀ s s', outside s s' → ∃ d, happen d s = s') :
    ∃ turns : List (Turn ι δ), (⟨s₀, []⟩ : Pool ι σ α).play work happen turns = p := by
  have hlast : ∀ {q q' : Pool ι σ α} (t : Turn ι δ), q.turn work happen t = q' →
      (∃ turns : List (Turn ι δ), (⟨s₀, []⟩ : Pool ι σ α).play work happen turns = q) →
      ∃ turns : List (Turn ι δ), (⟨s₀, []⟩ : Pool ι σ α).play work happen turns = q' := by
    rintro q _ t rfl ⟨turns, rfl⟩
    exact ⟨turns ++ [t], play_append work happen turns [t] _⟩
  induction h with
  | start => exact ⟨[], rfl⟩
  | join h i ih => exact hlast (.join i) rfl ih
  | @step es p h n i ready change next hn hready ih =>
      refine hlast (.next n) ?_ ih
      simp only [Pool.turn, hn, if_pos hready]
  | @wake es p h n i millis next hn ih =>
      refine hlast (.next n) ?_ ih
      simp only [Pool.turn, hn]
  | outside h hs ih =>
      obtain ⟨d, rfl⟩ := hhappen _ _ hs
      exact hlast (.outside d) rfl ih

/-- Two pools with the same callers, none of which tells their states apart. -/
structure Twins (alike : σ → σ → Prop) (given : σ → Prop) (p p' : Pool ι σ α) : Prop where
  state : alike p.state p'.state
  callers : p'.callers = p.callers
  blind : ∀ c ∈ p.callers, c.rest.Blind alike given

/-- What happens outside may be such that it does not show either. -/
theorem Twins.set_states {alike : σ → σ → Prop} {given : σ → Prop} {s s' : σ}
    (h : Twins alike given p p') (hstate : alike s s') :
    Twins alike given ⟨s, p.callers⟩ ⟨s', p'.callers⟩ :=
  ⟨hstate, h.callers, h.blind⟩

theorem Twins.turn {alike : σ → σ → Prop} {given : σ → Prop} (h : Twins alike given p p')
    (hgiven : given p.state) (hhappen : ∀ d s s', alike s s' → alike (happen d s) (happen d s'))
    {t : Turn ι δ} (hwork : ∀ i, t = .join i → (work i).Blind alike given) :
    Twins alike given (p.turn work happen t) (p'.turn work happen t) := by
  have hset : ∀ (n : Nat) (i : ι) (rest : Task σ α), rest.Blind alike given →
      ∀ c ∈ p.callers.set n ⟨i, rest⟩, c.rest.Blind alike given := by
    intro n i rest hrest c hc
    rcases List.mem_or_eq_of_mem_set hc with hc | rfl
    · exact h.blind c hc
    · exact hrest
  obtain ⟨s, callers⟩ := p
  obtain ⟨s', callers'⟩ := p'
  obtain rfl : callers' = callers := h.callers
  cases t with
  | join i =>
      refine ⟨h.state, rfl, fun c hc => ?_⟩
      rcases List.mem_append.mp hc with hc | hc
      · exact h.blind c hc
      · rw [List.mem_singleton.mp hc]
        exact hwork i rfl
  | outside d => exact ⟨hhappen d s s' h.state, rfl, h.blind⟩
  | next n =>
      unfold Pool.turn
      dsimp only
      split
      · rename_i i ready change next hn
        have hblind := h.blind _ (List.mem_of_getElem? hn)
        obtain ⟨hready, hstep⟩ := hblind s s' h.state hgiven
        rw [← hready]
        split
        · rename_i hs
          obtain ⟨hchange, hnext, hrest⟩ := hstep hs
          exact ⟨hchange, by rw [hnext], hset n i _ hrest⟩
        · exact h
      · rename_i i millis next hn
        have hblind := h.blind _ (List.mem_of_getElem? hn)
        exact ⟨h.state, rfl, hset n i next hblind⟩
      · exact h
      · exact h

end Pool

end TokenQuota
