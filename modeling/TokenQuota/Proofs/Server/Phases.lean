import TokenQuota.Proofs.Server.Stages

/-!
The phases of a server's life along the steps of its callers, and which callers bring them about.
-/

namespace TokenQuota

namespace Site

/-- The stage of life is the same. -/
def SameLife (s s' : Site) : Prop := s'.server.lifecycle = s.server.lifecycle

theorem coversMinor_sameLife : CoversMinor SameLife where
  link _ _ := rfl
  refl _ := rfl
  resolve ns bucket s := (sameStage_resolve ns bucket s).lifecycle
  sweep s := (sameStage_sweep s).lifecycle
  stats _ _ := rfl

theorem covers_sameLife : Covers SameLife :=
  ⟨⟨fun _ => rfl, fun _ _ => rfl, fun _ _ => rfl, fun _ _ => rfl⟩, fun _ _ => rfl⟩

/-- Only a start and a stop change the stage of life. -/
theorem sameLife_work {i : Request} (hstart : i ≠ .start) (hstop : i ≠ .stop) :
    (work i).Changes SameLife := by
  by_cases hround : i = .round
  · subst hround
    refine Action.changes_bind (Action.changes_bind ?_ fun _ => ?_) fun _ => trivial
    · exact Action.changes_ofTask (Task.changes_await fun _ _ => rfl)
    · refine Action.changes_bind (sameStage_handleChange.mono fun _ _ h => h.lifecycle) fun _ => ?_
      exact Action.changes_ofTask (Task.changes_modify fun _ => rfl)
  · cases hminor : isMinor i with
    | true => exact coversMinor_sameLife.changes_work hminor hstop
    | false => exact covers_sameLife.changes_work hstart hround hminor

/-- What is left of a start after the attempt to load the first configuration. -/
def conclude : Except QuotaError Unit → Task Site (Except QuotaError Reply)
  | .error e => .step (fun _ => true) (fun s => { s with server.lifecycle := .created })
      fun _ => .done (.error e)
  | .ok () => .step (fun _ => true) (fun s => (launch s).2)
      fun s => .done ((launch s).1.map fun _ => .done)

/-- What is left of a stop after the server was taken out of service. -/
def wind : Task Site (Except QuotaError Reply) :=
  (do endLoops; onLink Link.close; return .done : Work Reply).run

theorem work_start : work .start =
    .step (fun _ => true) (fun s => (transition .created .starting s).2) fun s =>
      match (transition .created .starting s).1 with
      | .ok _ => loadFirst.run.andThen conclude
      | .error e => .done (.error e) := by
  refine congrArg (Task.step _ _) (funext fun s => ?_)
  change ((Task.done (transition .created .starting s).1).andThen _).andThen _ = _
  cases (transition .created .starting s).1 with
  | error e => rfl
  | ok u =>
      refine (congrArg (Task.andThen · _) (Action.run_outcome_bind loadFirst _)).trans ?_
      refine (Task.andThen_assoc _ _ _).trans (congrArg (Task.andThen loadFirst.run) ?_)
      funext r
      cases r with
      | error e => rfl
      | ok u =>
          refine congrArg (Task.step _ _) (funext fun s => ?_)
          change (Task.done (launch s).1).andThen _ = _
          cases (launch s).1 <;> rfl

theorem work_stop : work .stop =
    .step (fun _ => true) (fun s => (transition .started .stopped s).2) fun s =>
      match (transition .started .stopped s).1 with
      | .ok _ => wind
      | .error e => .done (.error e) := by
  refine congrArg (Task.step _ _) (funext fun s => ?_)
  change ((Task.done (transition .started .stopped s).1).andThen _).andThen _ = _
  cases (transition .started .stopped s).1 with
  | error e => rfl
  | ok u =>
      refine (Task.andThen_assoc endLoops.run _ _).trans (congrArg (Task.andThen endLoops.run) ?_)
      funext r
      cases r <;> rfl

theorem sameLife_wind : wind.Changes SameLife := by
  refine Action.changes_bind (Action.changes_ofTask (Task.changes_await fun _ _ => rfl)) fun _ => ?_
  exact Action.changes_bind (coversMinor_sameLife.changes_onLink _) fun _ => trivial

/-- The phases of a server's life, with the callers that brought them about. -/
inductive Phase
  | created
  | starting (starter : Nat)
  | started (starter : Nat)
  | stopped (starter stopper : Nat)

namespace Phase

def lifecycle : Phase → Lifecycle
  | created => .created
  | starting _ => .starting
  | started _ => .started
  | stopped _ _ => .stopped

/-- Who started the server. -/
def starter? : Phase → Option Nat
  | created => none
  | starting _ => none
  | started n => some n
  | stopped n _ => some n

/-- A step of a caller leaves the phase as it is, or leads to the next one. The caller that starts
the server, and no other, goes on or gives up. In the end it has started the server or has failed. -/
inductive Turn (callers : List (Caller Request Site (Except QuotaError Reply))) (n : Nat) :
    Phase → Phase → Prop
  | stay (φ : Phase) : Turn callers n φ φ
  | begin {t : Task Site (Except QuotaError Reply)} (hn : callers[n]? = some ⟨.start, t⟩) :
      Turn callers n .created (.starting n)
  | abandon {e : QuotaError} (hn : callers[n]? = some ⟨.start, .done (.error e)⟩) :
      Turn callers n (.starting n) .created
  | launch (hn : callers[n]? = some ⟨.start, .done (.ok .done)⟩) :
      Turn callers n (.starting n) (.started n)
  | halt {k : Nat} {t : Task Site (Except QuotaError Reply)}
      (hn : callers[n]? = some ⟨.stop, t⟩) : Turn callers n (.started k) (.stopped k n)

/-- The steps that were made lead from phase to phase, and the last phase is this one. -/
inductive Lived (callers : List (Caller Request Site (Except QuotaError Reply))) :
    List (Event Site) → Phase → Prop
  | nil : Lived callers [] .created
  | concat {es : List (Event Site)} {φ φ' : Phase} {e : Event Site} (h : Lived callers es φ)
      (hbefore : e.before.server.lifecycle = φ.lifecycle)
      (hafter : e.after.server.lifecycle = φ'.lifecycle) (hturn : Turn callers e.caller φ φ') :
      Lived callers (es ++ [e]) φ'

variable {callers callers' : List (Caller Request Site (Except QuotaError Reply))}
variable {φ φ' : Phase} {n k : Nat} {es : List (Event Site)}

theorem Turn.mono (h : Turn callers n φ φ') (hgoOn : Pool.GoOn callers callers') :
    Turn callers' n φ φ' := by
  cases h with
  | stay => exact .stay φ
  | begin hn =>
      obtain ⟨t', hn', -⟩ := hgoOn n _ _ hn
      exact .begin hn'
  | abandon hn =>
      obtain ⟨t', hn', hdone⟩ := hgoOn n _ _ hn
      rw [hdone _ rfl] at hn'
      exact .abandon hn'
  | launch hn =>
      obtain ⟨t', hn', hdone⟩ := hgoOn n _ _ hn
      rw [hdone _ rfl] at hn'
      exact .launch hn'
  | halt hn =>
      obtain ⟨t', hn', -⟩ := hgoOn n _ _ hn
      exact .halt hn'

theorem Lived.mono (h : Lived callers es φ) (hgoOn : Pool.GoOn callers callers') :
    Lived callers' es φ := by
  induction h with
  | nil => exact .nil
  | concat _ hbefore hafter hturn ih => exact .concat ih hbefore hafter (hturn.mono hgoOn)

/-- Whoever started the server has come to its end. -/
theorem Lived.starter (h : Lived callers es φ) (hn : φ.starter? = some n) :
    callers[n]? = some ⟨.start, .done (.ok .done)⟩ := by
  induction h with
  | nil => cases hn
  | concat _ _ _ hturn ih =>
      cases hturn with
      | stay => exact ih hn
      | begin => cases hn
      | abandon => cases hn
      | launch hlaunched =>
          cases hn
          exact hlaunched
      | halt => exact ih hn

theorem eq_created (h : φ.lifecycle = .created) : φ = .created := by
  cases φ with
  | created => rfl
  | _ => cases h

theorem eq_started (h : φ.lifecycle = .started) : ∃ n, φ = .started n := by
  cases φ with
  | started n => exact ⟨n, rfl⟩
  | _ => cases h

/-- What a caller did so far, and what is left, in a phase. -/
inductive Fits (φ : Phase) (n : Nat) (l : List (Site × Site)) (i : Request)
    (t : Task Site (Except QuotaError Reply)) : Prop
  | waiting (hi : i = .start ∨ i = .stop) (hl : l = []) (ht : t = work i)
  | refused (hi : i = .start ∨ i = .stop) (hl : ∀ c ∈ l, c.2 = c.1) {e : QuotaError}
      (ht : t = .done (.error e))
  | loading (hi : i = .start) (hφ : φ = .starting n) {s : Site} {l' : List (Site × Site)}
      (hl : l = (s, { s with server.lifecycle := .starting }) :: l')
      {rest : Task Site (Except QuotaError Unit)} (hload : loadFirst.run.Steps l' rest)
      (ht : t = rest.andThen conclude)
  | failed (hi : i = .start) {s s' : Site} {l' : List (Site × Site)} {e : QuotaError}
      (hl : l = (s, { s with server.lifecycle := .starting }) ::
        (l' ++ [(s', { s' with server.lifecycle := .created })]))
      (hload : loadFirst.run.Ends l' (.error e)) (ht : t = .done (.error e))
  | launched (hi : i = .start) (hφ : φ.starter? = some n) (ht : t = .done (.ok .done))
  | halted (hi : i = .stop) {k : Nat} (hφ : φ = .stopped k n) (ht : t.Changes SameLife)
  | aside (hstart : i ≠ .start) (hstop : i ≠ .stop) (ht : t.Changes SameLife)

variable {l : List (Site × Site)} {i : Request} {t : Task Site (Except QuotaError Reply)}

theorem fits_work (φ : Phase) (n : Nat) (i : Request) : Fits φ n [] i (work i) := by
  by_cases hstart : i = .start
  · exact .waiting (.inl hstart) rfl rfl
  · by_cases hstop : i = .stop
    · exact .waiting (.inr hstop) rfl rfl
    · exact .aside hstart hstop (sameLife_work hstart hstop)

/-- What others do makes no difference to a caller. -/
theorem Fits.others (h : Fits φ n l i t) (hturn : Turn callers k φ φ') (hne : k ≠ n) :
    Fits φ' n l i t := by
  cases h with
  | waiting hi hl ht => exact .waiting hi hl ht
  | refused hi hl ht => exact .refused hi hl ht
  | failed hi hl hload ht => exact .failed hi hl hload ht
  | aside hstart hstop ht => exact .aside hstart hstop ht
  | loading hi hφ hl hload ht =>
      subst hφ
      cases hturn with
      | stay => exact .loading hi rfl hl hload ht
      | abandon => exact absurd rfl hne
      | launch => exact absurd rfl hne
  | launched hi hφ ht =>
      refine .launched hi ?_ ht
      cases hturn with
      | stay => exact hφ
      | begin => cases hφ
      | abandon => cases hφ
      | launch => cases hφ
      | halt => exact hφ
  | halted hi hφ ht =>
      subst hφ
      cases hturn with
      | stay => exact .halted hi rfl ht

theorem Fits.wake {millis : Nat} {next : Task Site (Except QuotaError Reply)}
    (h : Fits φ n l i (.sleep millis next)) : Fits φ n l i next := by
  cases h with
  | waiting hi hl ht =>
      rcases hi with rfl | rfl
      · rw [work_start] at ht
        cases ht
      · rw [work_stop] at ht
        cases ht
  | refused hi hl ht => cases ht
  | failed hi hl hload ht => cases ht
  | launched hi hφ ht => cases ht
  | halted hi hφ ht => exact .halted hi hφ ht
  | aside hstart hstop ht => exact .aside hstart hstop ht
  | @loading hi hφ s l' hl rest hload ht =>
      cases rest with
      | done r =>
          cases r <;> cases ht
      | step ready change next' => cases ht
      | sleep left next' =>
          cases ht
          have hnext := hload.trans (.sleep (.refl next'))
          rw [List.append_nil] at hnext
          exact .loading hi hφ hl hnext rfl

/-- The step of a caller leads on from the phase. -/
theorem Fits.step {ready : Site → Bool} {change : Site → Site}
    {next : Site → Task Site (Except QuotaError Reply)} {s : Site}
    (h : Fits φ n l i (.step ready change next)) (hready : ready s = true)
    (hs : s.server.lifecycle = φ.lifecycle) (hn : callers[n]? = some ⟨i, next s⟩) :
    ∃ φ', Turn callers n φ φ' ∧ (change s).server.lifecycle = φ'.lifecycle ∧
      Fits φ' n (l ++ [(s, change s)]) i (next s) := by
  cases h with
  | refused hi hl ht => cases ht
  | failed hi hl hload ht => cases ht
  | launched hi hφ ht => cases ht
  | aside hstart hstop ht =>
      obtain ⟨hchange, hnext⟩ := ht s hready
      exact ⟨φ, .stay φ, hchange.trans hs, .aside hstart hstop hnext⟩
  | halted hi hφ ht =>
      obtain ⟨hchange, hnext⟩ := ht s hready
      exact ⟨φ, .stay φ, hchange.trans hs, .halted hi hφ hnext⟩
  | waiting hi hl ht =>
      subst hl
      rcases hi with rfl | rfl
      · rw [work_start] at ht
        cases ht
        beta_reduce at hn ⊢
        by_cases hcreated : s.server.lifecycle = .created
        · obtain rfl := eq_created (hs.symm.trans hcreated)
          rw [transition_of_eq hcreated] at hn ⊢
          exact ⟨.starting n, .begin hn, rfl, .loading rfl rfl rfl (.refl _) rfl⟩
        · obtain ⟨e, he⟩ := transition_of_ne .starting hcreated
          rw [he]
          exact ⟨φ, .stay φ, hs, .refused (.inl rfl) (by simp) rfl⟩
      · rw [work_stop] at ht
        cases ht
        beta_reduce at hn ⊢
        by_cases hstarted : s.server.lifecycle = .started
        · obtain ⟨k, rfl⟩ := eq_started (hs.symm.trans hstarted)
          rw [transition_of_eq hstarted] at hn ⊢
          exact ⟨.stopped k n, .halt hn, rfl, .halted rfl rfl sameLife_wind⟩
        · obtain ⟨e, he⟩ := transition_of_ne .stopped hstarted
          rw [he]
          exact ⟨φ, .stay φ, hs, .refused (.inr rfl) (by simp) rfl⟩
  | @loading hi hφ s₀ l' hl rest hload ht =>
      subst hi hφ hl
      cases rest with
      | sleep left next' => cases ht
      | step ready' change' next' =>
          cases ht
          have hsteps := hload.trans (.step hready (.refl (next' s)))
          have hsame := sameStage_loadFirst.of_steps hsteps (s, change s) (by simp)
          exact ⟨.starting n, .stay _, hsame.lifecycle.trans hs, .loading rfl rfl rfl hsteps rfl⟩
      | done r =>
          cases r with
          | error e =>
              cases ht
              exact ⟨.created, .abandon hn, rfl, .failed rfl rfl hload rfl⟩
          | ok u =>
              cases ht
              beta_reduce at hn ⊢
              rw [launch_eq hs] at hn ⊢
              exact ⟨.started n, .launch hn, rfl, .launched rfl rfl rfl⟩

/-- A stop that goes on while the server runs has not done anything yet. -/
theorem Fits.unbegun {ready : Site → Bool} {change : Site → Site}
    {next : Site → Task Site (Except QuotaError Reply)}
    (h : Fits (.started k) n l .stop (.step ready change next)) : l = [] := by
  cases h with
  | waiting hi hl ht => exact hl
  | refused hi hl ht => cases ht
  | loading hi => cases hi
  | failed hi => cases hi
  | launched hi => cases hi
  | halted hi hφ ht => cases hφ
  | aside hstart hstop ht => exact absurd rfl hstop

/-- How a start or a stop has come to its end, in a phase. -/
inductive Ended (φ : Phase) (n : Nat) :
    List (Site × Site) → Request → Except QuotaError Reply → Prop
  | refused {l : List (Site × Site)} {i : Request} {e : QuotaError} (hl : ∀ c ∈ l, c.2 = c.1) :
      Ended φ n l i (.error e)
  | failed {s s' : Site} {l : List (Site × Site)} {e : QuotaError}
      (hload : loadFirst.run.Ends l (.error e)) :
      Ended φ n ((s, { s with server.lifecycle := .starting }) ::
        (l ++ [(s', { s' with server.lifecycle := .created })])) .start (.error e)
  | launched {l : List (Site × Site)} (hφ : φ.starter? = some n) : Ended φ n l .start (.ok .done)
  | halted {l : List (Site × Site)} {k : Nat} {r : Except QuotaError Reply}
      (hφ : φ = .stopped k n) : Ended φ n l .stop r

theorem Fits.ended {r : Except QuotaError Reply} (h : Fits φ n l i (.done r))
    (hi : i = .start ∨ i = .stop) : Ended φ n l i r := by
  cases h with
  | waiting hi hl ht =>
      rcases hi with rfl | rfl
      · rw [work_start] at ht
        cases ht
      · rw [work_stop] at ht
        cases ht
  | refused hi hl ht =>
      cases ht
      exact .refused hl
  | @loading hi hφ s l' hl rest hload ht =>
      cases rest with
      | done r' => cases r' <;> cases ht
      | step ready change next => cases ht
      | sleep left next => cases ht
  | failed hi hl hload ht =>
      subst hi hl
      cases ht
      exact .failed hload
  | launched hi hφ ht =>
      subst hi
      cases ht
      exact .launched hφ
  | halted hi hφ ht =>
      subst hi
      exact .halted hφ
  | aside hstart hstop ht =>
      rcases hi with hi | hi
      · exact absurd hi hstart
      · exact absurd hi hstop

/-- A start that succeeds is the one that started the server. -/
theorem Fits.starter {r : Reply} (h : Fits φ n l .start (.done (.ok r))) :
    φ.starter? = some n := by
  cases h.ended (.inl rfl) with
  | launched hφ => exact hφ

/-- A stop that succeeds is the one that stopped the server. -/
theorem Fits.stopper {r : Reply} (h : Fits φ n l .stop (.done (.ok r))) :
    ∃ k, φ = .stopped k n := by
  cases h.ended (.inr rfl) with
  | halted hφ => exact ⟨_, hφ⟩

variable {s₀ : Site} {p : Pool Request Site (Except QuotaError Reply)}

/-- The phase that the steps so far have led to, and how all callers fit it. -/
structure Describes (φ : Phase) (es : List (Event Site))
    (p : Pool Request Site (Except QuotaError Reply)) : Prop where
  lived : Lived p.callers es φ
  lifecycle : p.state.server.lifecycle = φ.lifecycle
  fits : ∀ (n : Nat) (i : Request) (t : Task Site (Except QuotaError Reply)),
    p.callers[n]? = some ⟨i, t⟩ → Fits φ n (Pool.changesOf n es) i t
  /-- The start that succeeded had come to its end before the stop that succeeded began. -/
  order : ∀ n k, φ = .stopped n k → es.Pairwise fun e e' => e.caller = k → e'.caller ≠ n

theorem describes_of_isFresh (hfresh : s₀.IsFresh) : Describes .created [] ⟨s₀, []⟩ := by
  obtain ⟨initial, sweepMillis, retry, since, heq⟩ := hfresh
  refine ⟨.nil, ?_, by simp, fun _ _ _ => .nil⟩
  change s₀.server.lifecycle = .created
  rw [heq]
  rfl

theorem Describes.join (h : Describes φ es p) (hlt : ∀ e ∈ es, e.caller < p.callers.length)
    (i : Request) : Describes φ es ⟨p.state, p.callers ++ [⟨i, work i⟩]⟩ := by
  refine ⟨h.lived.mono (Pool.goOn_append _ _), h.lifecycle, ?_, h.order⟩
  intro n j t hn
  rw [List.getElem?_append] at hn
  split at hn
  · exact h.fits n j t hn
  · -- The new caller has not done anything yet.
    rename_i hge
    rw [List.getElem?_singleton] at hn
    split at hn
    · cases hn
      have hnil : Pool.changesOf n es = [] := Pool.changesOf_eq_nil fun e he => by
        have := hlt e he
        omega
      rw [hnil]
      exact fits_work φ n i
    · cases hn

theorem Describes.outside (h : Describes φ es p) {s : Site} (hs : p.state.Meanwhile s) :
    Describes φ es ⟨s, p.callers⟩ :=
  ⟨h.lived, hs.server.1.trans h.lifecycle, h.fits, h.order⟩

theorem Describes.wake (h : Describes φ es p) {millis : Nat}
    {next : Task Site (Except QuotaError Reply)}
    (hn : p.callers[n]? = some ⟨i, .sleep millis next⟩) :
    Describes φ es ⟨p.state, p.callers.set n ⟨i, next⟩⟩ := by
  refine ⟨h.lived.mono (Pool.goOn_set hn (by rintro a ⟨⟩) next), h.lifecycle, ?_, h.order⟩
  intro k j t hk
  rcases (getElem?_set_eq_some hn).mp hk with ⟨rfl, heq⟩ | ⟨-, hk⟩
  · cases heq
    exact (h.fits k _ _ hn).wake
  · exact h.fits k j t hk

/-- Whoever goes on after the server was started is not the one that started it. -/
theorem Describes.ne_starter (h : Describes φ es p) {ready : Site → Bool} {change : Site → Site}
    {next : Site → Task Site (Except QuotaError Reply)}
    (hn : p.callers[n]? = some ⟨i, .step ready change next⟩) : φ.starter? ≠ some n := by
  intro hstarter
  cases hn.symm.trans (h.lived.starter hstarter)

theorem Describes.step (h : Describes φ es p) {ready : Site → Bool} {change : Site → Site}
    {next : Site → Task Site (Except QuotaError Reply)}
    (hn : p.callers[n]? = some ⟨i, .step ready change next⟩) (hready : ready p.state = true) :
    ∃ φ', Describes φ' (es ++ [⟨n, p.state, change p.state⟩])
      ⟨change p.state, p.callers.set n ⟨i, next p.state⟩⟩ := by
  have hset : (p.callers.set n ⟨i, next p.state⟩)[n]? = some ⟨i, next p.state⟩ :=
    (getElem?_set_eq_some hn).mpr (.inl ⟨rfl, rfl⟩)
  obtain ⟨φ', hturn, hafter, hfits⟩ := (h.fits n _ _ hn).step hready h.lifecycle hset
  have hgoOn := Pool.goOn_set hn (by rintro a ⟨⟩) (next p.state)
  refine ⟨φ', .concat (h.lived.mono hgoOn) h.lifecycle hafter hturn, hafter, ?_, ?_⟩
  · intro k j t hk
    rcases (getElem?_set_eq_some hn).mp hk with ⟨rfl, heq⟩ | ⟨hne, hk⟩
    · cases heq
      rw [Pool.changesOf_append_self]
      exact hfits
    · rw [Pool.changesOf_append_of_ne (Ne.symm hne)]
      exact (h.fits k j t hk).others hturn (Ne.symm hne)
  · intro m k hφ'
    rw [List.pairwise_append]
    cases hturn with
    | stay =>
        have hne : n ≠ m := by
          rintro rfl
          exact h.ne_starter hn (congrArg starter? hφ')
        refine ⟨h.order m k hφ', List.pairwise_singleton _ _, ?_⟩
        intro e _ e' he' _
        rw [List.mem_singleton.mp he']
        exact hne
    | halt hstop =>
        cases hφ'
        have hne : n ≠ m := by
          rintro rfl
          exact h.ne_starter hn rfl
        cases hset.symm.trans hstop
        have hnone := (h.fits n _ _ hn).unbegun
        refine ⟨List.pairwise_of_forall_mem_list fun e he e' _ heq => ?_,
          List.pairwise_singleton _ _, ?_⟩
        · have hmem := Pool.mem_changesOf he
          rw [heq, hnone] at hmem
          cases hmem
        · intro e _ e' he' _
          rw [List.mem_singleton.mp he']
          exact hne
    | _ => cases hφ'

/-- In every run there is such a phase at any time. -/
theorem exists_describes (hfresh : s₀.IsFresh) (hrun : Pool.Run work Meanwhile s₀ es p) :
    ∃ φ, Describes φ es p := by
  induction hrun with
  | start => exact ⟨.created, describes_of_isFresh hfresh⟩
  | join hrun i ih =>
      obtain ⟨φ, h⟩ := ih
      exact ⟨φ, h.join hrun.caller_lt i⟩
  | step _ hn hready ih =>
      obtain ⟨φ, h⟩ := ih
      exact h.step hn hready
  | wake _ hn ih =>
      obtain ⟨φ, h⟩ := ih
      exact ⟨φ, h.wake hn⟩
  | outside _ hs ih =>
      obtain ⟨φ, h⟩ := ih
      exact ⟨φ, h.outside hs⟩

end Phase

end Site

end TokenQuota
