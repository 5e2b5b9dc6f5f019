import TokenQuota.Proofs.Server.Snapshots

/-!
The loops of a server beside its stage of life. Once they have ended, nobody applies or reports
anything any more.
-/

namespace TokenQuota

namespace Site

open TokenQuota.Protocol (either succeeds)

/-- The stage of life and the loops are the same. -/
structure SameStage (s s' : Site) : Prop where
  lifecycle : s'.server.lifecycle = s.server.lifecycle
  reloader : s'.server.reloader = s.server.reloader
  sinceSweep : s'.server.sinceSweep = s.server.sinceSweep

/-- What others do to a server meanwhile: anything happens around it, or time goes by, with the
sweeps that are due. -/
inductive Meanwhile (s : Site) : Site → Prop
  | around {s' : Site} (hserver : s'.server = s.server) : Meanwhile s s'
  | elapse (millis : Nat) : Meanwhile s (elapse millis s)

variable {s s' : Site}

theorem SameStage.refl (s : Site) : s.SameStage s := ⟨rfl, rfl, rfl⟩

theorem SameStage.trans {s'' : Site} (h : s.SameStage s') (h' : s'.SameStage s'') :
    s.SameStage s'' :=
  ⟨h'.lifecycle.trans h.lifecycle, h'.reloader.trans h.reloader, h'.sinceSweep.trans h.sinceSweep⟩

theorem coversLink_sameStage : CoversLink SameStage := ⟨fun _ _ => ⟨rfl, rfl, rfl⟩⟩

theorem covers_sameStage : Covers SameStage where
  refl := .refl
  late _ _ := ⟨rfl, rfl, rfl⟩
  archive _ _ := ⟨rfl, rfl, rfl⟩
  lock _ _ := ⟨rfl, rfl, rfl⟩
  stats _ _ := ⟨rfl, rfl, rfl⟩

theorem sameStage_sweep (s : Site) : s.SameStage s.sweep.2 := ⟨rfl, rfl, rfl⟩

theorem sameStage_resolve (ns bucket : String) (s : Site) :
    s.SameStage (s.resolve ns bucket).2 := by
  unfold resolve
  split <;> exact ⟨rfl, rfl, rfl⟩

theorem sameStage_sweeps (count : Nat) (s : Site) : s.SameStage (sweeps count s) := by
  induction count generalizing s with
  | zero => exact .refl s
  | succ count ih => exact (sameStage_sweep s).trans (ih _)

theorem coversApplying_sameStage : CoversApplying SameStage :=
  ⟨covers_sameStage.toCoversArchive, coversLink_sameStage, fun _ _ => ⟨rfl, rfl, rfl⟩,
    fun _ _ => ⟨rfl, rfl, rfl⟩⟩

theorem sameStage_loadFirst : loadFirst.run.Changes SameStage :=
  coversApplying_sameStage.changes_loadFirst

theorem sameStage_reload : reload.run.Changes SameStage := coversApplying_sameStage.changes_reload

theorem sameStage_handleChange : handleChange.run.Changes SameStage :=
  coversApplying_sameStage.changes_handleChange

/-- Nothing from outside changes the stage of life or the loops. After the loops have ended, time
going by changes nothing at all. -/
theorem Meanwhile.server (h : s.Meanwhile s') :
    s'.server.lifecycle = s.server.lifecycle ∧ s'.server.reloader = s.server.reloader ∧
      (s'.server.sinceSweep = none ↔ s.server.sinceSweep = none) ∧
      (s.server.sinceSweep = none → s'.server = s.server) := by
  cases h with
  | around hserver =>
      rw [hserver]
      exact ⟨rfl, rfl, .rfl, fun _ => rfl⟩
  | elapse millis =>
      unfold Site.elapse
      cases hsince : s.server.sinceSweep with
      | none => exact ⟨rfl, rfl, iff_of_true hsince rfl, fun _ => rfl⟩
      | some since =>
          have hsame := sameStage_sweeps ((since + millis) / s.server.sweepMillis) s
          refine ⟨hsame.lifecycle, hsame.reloader, iff_of_false ?_ ?_, ?_⟩
          · rintro ⟨⟩
          · rintro ⟨⟩
          · rintro ⟨⟩

/-- What at most one caller does at a time: it loads the first configuration, applies a change, or
stops the server. -/
inductive Staging
  | loading
  | reloading
  | stopping

namespace Staging

def IsTaken : Staging → Site → Prop
  | loading, s => s.server.lifecycle = .starting
  | reloading, s => s.server.reloader = .busy
  | stopping, s => s.server.lifecycle = .stopped

/-- The loops run only in a server that was started. They have ended only in one that was
stopped. -/
structure Inv (s : Site) : Prop where
  running : s.server.reloader = .waiting ∨ s.server.reloader = .busy → s.WasStarted
  ended : s.server.reloader = .ended →
    s.server.lifecycle = .stopped ∧ s.server.sinceSweep = none

/-- After the loops have ended, the active snapshot and what was reported are left alone, unless
somebody sweeps. -/
structure Settled (s s' : Site) : Prop where
  reloader : s'.server.reloader = s.server.reloader
  sinceSweep : s'.server.sinceSweep = s.server.sinceSweep
  outcome : s'.server.outcome = s.server.outcome
  active : s'.server.active = s.server.active ∨ s' = s.sweep.2

/-- Steps that change neither the stage of life nor the loops, and settle what has ended. -/
structure Calm (s s' : Site) : Prop extends SameStage s s' where
  settled : s.server.reloader = .ended → Settled s s'

/-- Whoever applies a configuration relies on being the only one. -/
def duties : Duties Staging Site where
  inv := Inv
  given _ := True
  taken := IsTaken
  rely d s s' := d.IsTaken s → d.IsTaken s'
  guar s s' := s.server.reloader = .ended → Settled s s'
  guar_refl _ _ := ⟨rfl, rfl, rfl, .inl rfl⟩
  rely_refl _ _ := id
  rely_trans h h' := h' ∘ h
  rely_taken h := h

abbrev rules : Protocol Request (Option Staging) Site := duties.protocol Request

theorem Calm.of_active (h : s.SameStage s') (houtcome : s'.server.outcome = s.server.outcome)
    (hactive : s'.server.active = s.server.active) : Calm s s' :=
  ⟨h, fun _ => ⟨h.reloader, h.sinceSweep, houtcome, .inl hactive⟩⟩

theorem coversLink_calm : CoversLink fun s s' => Inv s → Calm s s' :=
  ⟨fun _ _ _ => .of_active ⟨rfl, rfl, rfl⟩ rfl rfl⟩

theorem covers_calm : Covers fun s s' => Inv s → Calm s s' where
  refl s _ := .of_active (.refl s) rfl rfl
  late _ _ _ := .of_active ⟨rfl, rfl, rfl⟩ rfl rfl
  archive _ _ _ := .of_active ⟨rfl, rfl, rfl⟩ rfl rfl
  lock _ _ _ := .of_active ⟨rfl, rfl, rfl⟩ rfl rfl
  stats _ _ _ := .of_active ⟨rfl, rfl, rfl⟩ rfl rfl

theorem IsTaken.of_sameStage {d : Staging} (hd : d.IsTaken s) (h : s.SameStage s') :
    d.IsTaken s' := by
  cases d with
  | loading => exact h.lifecycle.trans hd
  | reloading => exact h.reloader.trans hd
  | stopping => exact h.lifecycle.trans hd

theorem inv_of_sameStage (hinv : Inv s) (h : s.SameStage s') : Inv s' := by
  constructor
  · rw [h.reloader, WasStarted, h.lifecycle]
    exact hinv.running
  · rw [h.reloader, h.lifecycle, h.sinceSweep]
    exact hinv.ended

/-- Calm steps do no harm. -/
theorem harmless_calm : duties.Harmless fun s s' => Inv s → Calm s s' := by
  intro s s' hinv _ h
  obtain ⟨hsame, hsettled⟩ := h hinv
  exact ⟨inv_of_sameStage hinv hsame, hsettled, fun d hd => hd.of_sameStage hsame⟩

theorem not_ended (hinv : Inv s) (h : s.server.lifecycle ≠ .stopped) :
    s.server.reloader ≠ .ended :=
  fun hended => h (hinv.ended hended).1

theorem not_ended_of_starting (hinv : Inv s) (h : s.server.lifecycle = .starting) :
    s.server.reloader ≠ .ended :=
  not_ended hinv (by rw [h]; rintro ⟨⟩)

theorem not_ended_of_busy (h : s.server.reloader = .busy) : s.server.reloader ≠ .ended := by
  rw [h]
  rintro ⟨⟩

theorem not_busy_of_starting (hinv : Inv s) (h : s.server.lifecycle = .starting) :
    s.server.reloader ≠ .busy :=
  fun hbusy => not_wasStarted h (hinv.running (.inr hbusy))

theorem stable_taken {d : Staging} : rules.Stable (some d) d.IsTaken := fun _ _ h hs => h d rfl hs

/-- What changes neither the stage nor the loops is calm as long as the loops have not ended. -/
theorem does_calm (i : Request) {α : Type} {d : Staging} {x : Work α}
    (hx : x.run.Changes SameStage)
    (hnot : ∀ s, Inv s → d.IsTaken s → s.server.reloader ≠ .ended) :
    rules.Does i (some d) d.IsTaken x fun _ s => d.IsTaken s := by
  refine Protocol.does_of_changes hx stable_taken ?_
  intro s s' hs hinv _ hsame
  have hcalm : Calm s s' := ⟨hsame, fun hended => absurd hended (hnot s hinv hs)⟩
  exact harmless_calm.move_rely hinv trivial (fun _ => hcalm) hs

theorem move_begin (hinv : Inv s) (hcreated : s.server.lifecycle = .created) :
    duties.Move none (some .loading) s { s with server.lifecycle := .starting } := by
  have hnot : ¬s.WasStarted := by
    rintro (heq | heq) <;> rw [hcreated] at heq <;> cases heq
  have hended := not_ended hinv (by rw [hcreated]; rintro ⟨⟩)
  have hfree : ∀ d : Staging, ¬d.IsTaken s := by
    intro d hd
    cases d with
    | loading => cases hcreated.symm.trans hd
    | reloading => exact hnot (hinv.running (.inr hd))
    | stopping => cases hcreated.symm.trans hd
  constructor
  · exact ⟨fun h => absurd (hinv.running h) hnot, fun h => absurd h hended⟩
  · exact fun h => absurd h hended
  · exact fun d _ hd => absurd hd (hfree d)
  · rintro _ ⟨⟩
    rfl
  · exact fun d _ _ => hfree d

/-- A server that starts is left alone by all others. -/
theorem others_of_starting (hinv : Inv s) (hstarting : s.server.lifecycle = .starting) (d : Staging)
    (hne : some .loading ≠ some d) (hd : d.IsTaken s) : duties.rely d s s' := by
  cases d with
  | loading => exact absurd rfl hne
  | reloading => exact absurd hd (not_busy_of_starting hinv hstarting)
  | stopping => cases hstarting.symm.trans hd

theorem move_abandon (hinv : Inv s) (hstarting : s.server.lifecycle = .starting) :
    duties.Move (some .loading) none s { s with server.lifecycle := .created } := by
  have hended := not_ended_of_starting hinv hstarting
  constructor
  · exact ⟨fun h => absurd (hinv.running h) (not_wasStarted hstarting), fun h => absurd h hended⟩
  · exact fun h => absurd h hended
  · exact others_of_starting hinv hstarting
  · rintro _ ⟨⟩
  · rintro _ ⟨⟩

theorem move_launch (hinv : Inv s) (hstarting : s.server.lifecycle = .starting) :
    duties.Move (some .loading) none s (launch s).2 := by
  rw [launch_eq hstarting]
  constructor
  · refine ⟨fun _ => .inl rfl, ?_⟩
    rintro ⟨⟩
  · exact fun h => absurd h (not_ended_of_starting hinv hstarting)
  · exact others_of_starting hinv hstarting
  · rintro _ ⟨⟩
  · rintro _ ⟨⟩

theorem move_takeUp (hinv : Inv s) (hready : mayReload s = true) :
    duties.Move none (some .reloading) s s.takeUp := by
  have hwaiting : s.server.reloader = .waiting := by
    rw [mayReload, Bool.and_eq_true, beq_iff_eq] at hready
    exact hready.1
  have hbusy : s.server.reloader ≠ .busy := by
    rw [hwaiting]
    rintro ⟨⟩
  constructor
  · refine ⟨fun _ => hinv.running (.inl hwaiting), ?_⟩
    rintro ⟨⟩
  · intro hended
    rw [hwaiting] at hended
    cases hended
  · intro d _ hd
    cases d with
    | loading => exact id
    | reloading => exact absurd hd hbusy
    | stopping => exact id
  · rintro _ ⟨⟩
    rfl
  · rintro _ ⟨⟩ _
    exact hbusy

theorem move_leaveOff (hinv : Inv s) (hbusy : s.server.reloader = .busy) :
    duties.Move (some .reloading) none s s.leaveOff := by
  constructor
  · refine ⟨fun _ => hinv.running (.inr hbusy), ?_⟩
    rintro ⟨⟩
  · exact fun hended => absurd hended (not_ended_of_busy hbusy)
  · intro d hne _
    cases d with
    | loading => exact id
    | reloading => exact absurd rfl hne
    | stopping => exact id
  · rintro _ ⟨⟩
  · rintro _ ⟨⟩

theorem move_halt (hinv : Inv s) (hstarted : s.server.lifecycle = .started) :
    duties.Move none (some .stopping) s { s with server.lifecycle := .stopped } := by
  have hended := not_ended hinv (by rw [hstarted]; rintro ⟨⟩)
  constructor
  · exact ⟨fun _ => .inr rfl, fun h => absurd h hended⟩
  · exact fun h => absurd h hended
  · intro d _ hd
    cases d with
    | loading => cases hstarted.symm.trans hd
    | reloading => exact id
    | stopping => exact fun _ => rfl
  · rintro _ ⟨⟩
    rfl
  · rintro _ ⟨⟩ _ hd
    cases hstarted.symm.trans hd

/-- The loops end. A change that is being applied is waited for. -/
theorem move_endLoops (hinv : Inv s) (hstopped : s.server.lifecycle = .stopped)
    (hready : s.server.reloader ≠ .busy) :
    duties.Move (some .stopping) (some .stopping) s
      { s with server.reloader := .ended, server.sinceSweep := none } := by
  constructor
  · refine ⟨?_, fun _ => ⟨hstopped, rfl⟩⟩
    rintro (h | h) <;> cases h
  · intro hended
    exact ⟨hended.symm, (hinv.ended hended).2.symm, rfl, .inl rfl⟩
  · intro d hne hd
    cases d with
    | loading => cases hstopped.symm.trans hd
    | reloading => exact absurd hd hready
    | stopping => exact absurd rfl hne
  · rintro _ ⟨⟩
    exact hstopped
  · exact fun d hd hne => absurd hd hne

theorem safe_stop (s : Site) :
    rules.Safe .stop (fun _ _ _ => True) (work .stop) none s := by
  refine Protocol.Safe.bind (Q := fun _ _ _ => True) ?_ (fun _ _ _ _ _ _ _ _ => trivial)
    fun _ _ _ _ _ => trivial
  refine Protocol.Safe.bind
    (Q := fun m r s => ∀ u, r = .ok u → m = some .stopping ∧ IsTaken .stopping s)
    ?_ ?_ fun _ _ _ _ _ => trivial
  · refine Protocol.safe_atOnce ?_
    intro s₁ hinv _ _
    by_cases heq : s₁.server.lifecycle = .started
    · rw [transition_of_eq heq]
      exact ⟨_, move_halt hinv heq, fun s₂ _ hrely u _ => ⟨rfl, stable_taken _ s₂ hrely rfl⟩⟩
    · obtain ⟨e, he⟩ := transition_of_ne .stopped heq
      rw [he]
      refine ⟨none, Duties.move_refl hinv (by rintro _ ⟨⟩), ?_⟩
      rintro s₂ _ _ u ⟨⟩
  · rintro m u s₁ _ hs₁
    obtain ⟨rfl, hs⟩ := hs₁ u rfl
    have hloops : rules.Does .stop (some .stopping) (IsTaken .stopping) endLoops
        (succeeds fun _ s => IsTaken .stopping s) := by
      refine Protocol.does_await stable_taken stable_taken ?_
      intro s hinv _ hs hready
      exact ⟨move_endLoops hinv hs (by simpa using hready), hs⟩
    have hclose : rules.Does .stop (some .stopping) (IsTaken .stopping) (onLink Link.close)
        fun _ s => IsTaken .stopping s :=
      harmless_calm.does (coversLink_calm.changes_onLink _) stable_taken
        fun _ hs => hs
    refine hloops.safe_bind ?_ (fun _ _ _ he => absurd he id) hs
    exact fun _ s₂ _ hs₂ => (hclose s₂ hs₂).mono fun _ _ _ _ _ => trivial

/-- Tokens are taken calmly: buckets come only while the server runs. -/
theorem calm_allow (ns bucket : String) (tokens : Int) (maxWait : Nat) :
    (allow ns bucket tokens maxWait).run.Changes fun s s' => Inv s → Calm s s' := by
  refine Action.changes_bind (Task.changes_atOnce fun s hinv => ?_) fun b => ?_
  · unfold accept
    split
    · exact covers_calm.refl s hinv
    · rename_i hstarted
      split
      · exact covers_calm.refl s hinv
      · refine ⟨sameStage_resolve ns bucket s, fun hended => absurd ?_ hstarted⟩
        rw [(hinv.ended hended).1]
        rintro ⟨⟩
  · refine Action.changes_bind (Action.changes_ofTask (Task.changes_read covers_calm.refl _)) fun retry => ?_
    refine Action.changes_bind
      (coversLink_calm.changes_onLink _) fun verdict => ?_
    split
    · exact Action.changes_bind (Action.changes_ofTask
        (Task.changes_modify fun s => covers_calm.stats s _)) fun _ => trivial
    · exact trivial

theorem calm_sweep (s : Site) : Calm s s.sweep.2 :=
  ⟨sameStage_sweep s, fun _ => ⟨rfl, rfl, rfl, .inr rfl⟩⟩

/-- Whoever neither starts nor stops the server, nor applies changes, is calm. -/
theorem calm_work {r : Request} (hstart : r ≠ .start) (hstop : r ≠ .stop) (hround : r ≠ .round) :
    (work r).Changes fun s s' => Inv s → Calm s s' := by
  cases hminor : isMinor r with
  | false => exact covers_calm.changes_work hstart hround hminor
  | true =>
      cases r with
      | stop => exact absurd rfl hstop
      | allow ns bucket tokens maxWait =>
          exact Action.changes_bind (calm_allow ns bucket tokens maxWait) fun _ => trivial
      | health =>
          exact Action.changes_bind (coversLink_calm.changes_onLink _)
            fun _ => trivial
      | sweep =>
          exact Action.changes_bind (Action.changes_ofTask
            (Task.changes_atOnce fun s _ => calm_sweep s)) fun _ => trivial
      | _ => cases hminor

theorem does_handleChange (i : Request) :
    rules.Does i (some .reloading) (IsTaken .reloading) handleChange
      (succeeds fun _ s => IsTaken .reloading s) := by
  have hreport : ∀ outcome s, Inv s → IsTaken .reloading s →
      rules.move i (some .reloading) (some .reloading) s (s.report outcome) := by
    intro outcome s hinv hs
    have hcalm : Calm s (s.report outcome) :=
      ⟨⟨rfl, rfl, rfl⟩, fun hended => absurd hended (not_ended_of_busy hs)⟩
    refine harmless_calm.move hinv trivial (fun _ => hcalm) ?_
    rintro _ ⟨⟩
    exact hs
  refine Site.does_handleChange (R := fun _ => IsTaken .reloading) (fun _ => stable_taken)
    stable_taken stable_taken
    ((does_calm i sameStage_reload fun s _ (hs : IsTaken .reloading s) => not_ended_of_busy hs).mono (fun _ hs => hs) ?_)
    (fun v s hinv _ hs => ⟨hreport _ s hinv hs, hs⟩) fun e s hinv _ hs => ⟨hreport _ s hinv hs, hs⟩
  rintro (e | v) s _ hs
  · exact hs
  · exact hs

theorem safe_work (r : Request) (s : Site) :
    rules.Safe r (fun _ _ _ => True) (work r) none s := by
  by_cases hstart : r = .start
  · subst hstart
    refine safe_start (stable_taken (d := .loading)) stable_taken ?_ ?_ ?_ ?_ ?_ s
    · exact fun s hinv => Duties.move_refl hinv (by rintro _ ⟨⟩)
    · exact fun s hinv hcreated => ⟨move_begin hinv hcreated, rfl⟩
    · refine (does_calm .start sameStage_loadFirst fun s => not_ended_of_starting).mono
        (fun _ hs => hs) ?_
      rintro (e | u) s _ hs
      · exact hs
      · exact hs
    · exact fun s hinv hs => move_abandon hinv hs
    · exact fun s hinv hs => move_launch hinv hs
  · by_cases hround : r = .round
    · subst hround
      refine safe_round (stable_taken (d := .reloading)) stable_taken ?_ ?_ ?_ s
      · exact fun s hinv hready => ⟨move_takeUp hinv hready, rfl⟩
      · exact does_handleChange .round
      · exact fun s hinv hs => move_leaveOff hinv hs
    · by_cases hstop : r = .stop
      · subst hstop
        exact safe_stop s
      · exact (harmless_calm.safe (calm_work hstart hstop hround)).mono fun _ _ _ _ _ => trivial

theorem inv_of_meanwhile (hinv : Inv s) (h : s.Meanwhile s') :
    Inv s' ∧ ∀ d : Staging, d.IsTaken s → duties.rely d s s' := by
  obtain ⟨hlifecycle, hreloader, hsince, -⟩ := h.server
  constructor
  · constructor
    · rw [hreloader, WasStarted, hlifecycle]
      exact hinv.running
    · rw [hreloader, hlifecycle, hsince]
      exact hinv.ended
  · intro d _ hd
    cases d with
    | loading => exact hlifecycle.trans hd
    | reloading => exact hreloader.trans hd
    | stopping => exact hlifecycle.trans hd

theorem inv_of_isFresh (hfresh : s.IsFresh) : Inv s := by
  obtain ⟨initial, sweepMillis, retry, since, heq⟩ := hfresh
  constructor
  · rw [heq]
    rintro (h | h) <;> cases h
  · rw [heq]
    rintro ⟨⟩

variable {s₀ : Site} {es : List (Event Site)} {p : Pool Request Site (Except QuotaError Reply)}

theorem inv_of_run (hfresh : s₀.IsFresh) (hrun : Pool.Run work Meanwhile s₀ es p) :
    Inv p.state ∧ ∀ e ∈ es, Inv e.before ∧ duties.guar e.before e.after :=
  duties.inv_of_run (fun _ _ => inv_of_meanwhile) safe_work (inv_of_isFresh hfresh) hrun
    fun _ _ => trivial

/-- The loops have ended, and the server shows what it showed in another state. -/
structure EndedAs (x s : Site) : Prop where
  reloader : s.server.reloader = .ended
  sinceSweep : s.server.sinceSweep = none
  outcome : s.server.outcome = x.server.outcome
  snapshot : x.SameSnapshot s

theorem EndedAs.step {x : Site} (h : EndedAs x s) (hsettled : Settled s s') : EndedAs x s' := by
  refine ⟨hsettled.reloader.trans h.reloader, hsettled.sinceSweep.trans h.sinceSweep,
    hsettled.outcome.trans h.outcome, ?_⟩
  rcases hsettled.active with heq | rfl
  · refine ⟨(congrArg Snapshot.config heq).trans h.snapshot.config, ?_⟩
    rw [heq]
    exact h.snapshot.buckets
  · exact ⟨h.snapshot.config,
      h.snapshot.buckets.trans (Container.follows_sweep s.server.active.buckets s.roster).static⟩

/-- After a step that leaves the loops ended, nothing is applied or reported any more. -/
theorem settled_of_ended (hfresh : s₀.IsFresh) (hrun : Pool.Run work Meanwhile s₀ es p) :
    es.Pairwise (fun e e' => e.after.server.reloader = .ended → EndedAs e.after e'.before ∧
      Settled e'.before e'.after) ∧
      ∀ e ∈ es, e.after.server.reloader = .ended → EndedAs e.after p.state := by
  obtain ⟨hinv, hevents⟩ := inv_of_run hfresh hrun
  have hnone : ∀ e ∈ es, e.after.server.reloader = .ended → e.after.server.sinceSweep = none := by
    refine hrun.holds_after (K := fun s => s.server.reloader = .ended → s.server.sinceSweep = none)
      ?_ (fun e he hended => ((hevents e he).1.ended hended).2) fun hended => (hinv.ended hended).2
    intro s s' h hs' hended
    obtain ⟨-, hreloader, hsince, -⟩ := h.server
    exact hsince.mp (hs' (hreloader.trans hended))
  have hkept : es.Pairwise fun e e' => e.after.server.reloader = .ended →
      EndedAs e.after e'.before → EndedAs e.after e'.after :=
    List.pairwise_of_forall_mem_list fun e _ e' he' _ h => h.step ((hevents e' he').2 h.reloader)
  have houtside : ∀ (e : Event Site) (s s' : Site), s.Meanwhile s' → EndedAs e.after s →
      EndedAs e.after s' := by
    intro e s s' h hs
    obtain ⟨-, -, -, hserver⟩ := h.server
    have heq := hserver hs.sinceSweep
    refine ⟨?_, ?_, ?_, ?_, ?_⟩
    · rw [heq]
      exact hs.reloader
    · rw [heq]
      exact hs.sinceSweep
    · rw [heq]
      exact hs.outcome
    · rw [activeConfig, heq]
      exact hs.snapshot.config
    · rw [heq]
      exact hs.snapshot.buckets
  obtain ⟨hpairwise, hlast⟩ := hrun.pairwise_of_reached
    (fun e he hended => ⟨hended, hnone e he hended, rfl, .refl _⟩) hkept houtside
  refine ⟨hpairwise.imp_of_mem ?_, hlast⟩
  intro e e' _ he' h hended
  exact ⟨h hended, (hevents e' he').2 (h hended).reloader⟩

end Staging

end Site

end TokenQuota
