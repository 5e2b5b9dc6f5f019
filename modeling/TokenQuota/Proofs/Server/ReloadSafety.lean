import TokenQuota.Proofs.Server.Snapshots

/-!
Whatever happens around a server, it only ever applies well-formed configurations, with their own
buckets, and in ascending order of their versions. A change that cannot be applied leaves the
active configuration and the cells alone.
-/

namespace TokenQuota

namespace Site

open TokenQuota.Protocol (either succeeds)

namespace Applying

variable {s s' : Site}

theorem does_readArchive (i : Request) {d : Applying} :
    rules.Does i (some d) d.IsTaken readArchive (either (fun _ => d.IsTaken) d.IsTaken) := by
  refine (harmless_steady.does covers_steady.changes_readArchive stable_taken fun _ hs => hs).mono
    (fun _ hs => hs) ?_
  rintro (e | content) s _ hs
  · exact hs
  · exact hs

/-- The version that comes out of an attempt to apply a change is that of the active
configuration. -/
theorem does_reload (i : Request) :
    rules.Does i (some .reloading) IsBusy reload
      (either (fun v s => IsBusy s ∧ s.activeConfig.version = v) IsBusy) := by
  have hactive := fun active => stable_config (d := .reloading) (· = active)
  refine Site.does_reload (K := fun _ => IsBusy)
    (N := fun c active s => c.check = .ok () ∧ IsBusy s ∧ s.activeConfig = active)
    (fun _ => stable_taken) (fun c active s s' h hs => ⟨hs.1, hactive active s s' h hs.2⟩)
    (does_readArchive i) (fun _ _ hs => hs) ?_ ?_ ?_
  · intro content c s hdecode hinv _ hs
    have hcheck := (decodeChange_eq_ok_iff.mp hdecode).2
    refine ⟨Duties.move_refl hinv ?_, hcheck, hs, rfl⟩
    rintro _ ⟨⟩
    exact hs
  · rintro active s _ ⟨-, hs, rfl⟩
    exact ⟨hs, rfl⟩
  · intro c active wallClock _
    refine Protocol.does_of_known fun hcheck => ?_
    refine (does_apply (hactive active) (hactive (restamp wallClock active c)) ?_ ?_).mono
      (fun _ hs => hs) ?_
    · intro s s' hs hinv hgiven h
      exact harmless_steady.move_rely hinv hgiven h.server hs.1
    · rintro s hinv _ ⟨hbusy, rfl⟩
      have hserved : (install (restamp wallClock s.activeConfig c) s).IsServed :=
        ⟨(check_restamp wallClock _ c).trans hcheck, serves_install _ s⟩
      refine ⟨move_busy hinv hbusy hbusy rfl hserved ?_, hbusy, rfl⟩
      intro _ hne
      exact .inr ⟨version_lt_restamp hne wallClock c, date_le_restamp wallClock _ c⟩
    · rintro (e | v) s _ hs
      · exact hs.1
      · obtain ⟨rfl, hbusy, hconfig⟩ := hs
        exact ⟨hbusy, congrArg ServiceConfig.version hconfig⟩

theorem does_handleChange (i : Request) :
    rules.Does i (some .reloading) IsBusy handleChange
      (succeeds fun _ s => IsBusy s ∧ s.IsReported) := by
  refine Site.does_handleChange
    (fun v => stable_config (d := .reloading) fun c => c.version = v) stable_taken
    stable_isReported (does_reload i) ?_ ?_
  · rintro v s hinv _ ⟨hs, hversion⟩
    refine ⟨move_report hinv hs _, hs, ?_⟩
    rintro v' ⟨⟩
    exact hversion
  · intro e s hinv _ hs
    refine ⟨move_report hinv hs _, hs, ?_⟩
    rintro v ⟨⟩

theorem does_loadFirst (i : Request) :
    rules.Does i (some .loading) IsStarting loadFirst
      (either (fun _ => IsServedFirst) IsStarting) := by
  have hloaded : ∀ c : ServiceConfig, rules.Stable (some .loading) fun s =>
      IsStarting s ∧ s.IsServed ∧ s.activeConfig.version = c.version := by
    rintro c s s' h ⟨hs, hserved, hversion⟩
    have hrely := h .loading rfl
    exact ⟨hrely.taken hs, hrely.isServed hserved, by rw [hrely.config]; exact hversion⟩
  have hmove : ∀ {s s' : Site}, Inv s → IsStarting s → IsStarting s' →
      s'.server.reloader = s.server.reloader → rules.move i (some .loading) (some .loading) s s' :=
    fun hinv hs hs' hreloader => move_starting hinv hs hs' hreloader
  refine Site.does_loadFirst (K := fun _ => IsStarting) (F := fun _ => IsStarting) stable_taken
    (fun _ => stable_taken) (fun _ => stable_taken) hloaded stable_served ?_ (does_readArchive i)
    (fun _ _ hs => hs) ?_ (fun _ _ _ _ hs => hs) (fun _ _ hs => hs) ?_ ?_ ?_
  · exact fun s hinv _ hs => ⟨hmove hinv hs hs rfl, hs⟩
  · exact fun s hinv _ hs => ⟨hmove hinv hs hs rfl, hs⟩
  · exact fun c => Protocol.does_of_changes (undisturbed_onLink _) stable_taken
      fun s s' hs hinv hgiven h => harmless_steady.move_rely hinv hgiven h.server hs
  · exact fun c s hcheck hinv _ hs =>
      ⟨hmove hinv hs hs rfl, hs, ⟨hcheck, serves_install c s⟩, rfl⟩
  · rintro c s hinv _ ⟨hs, hserved, hversion⟩
    refine ⟨hmove hinv hs hs rfl, hs, isServed_of_active_eq hserved rfl, ?_⟩
    rintro v ⟨⟩
    exact hversion

/-- Callers that neither start the server nor apply changes leave alone what is applied. -/
theorem steady_work {r : Request} (hstart : r ≠ .start) (hround : r ≠ .round) :
    (work r).Changes fun s s' => s.server.Steady s'.server := by
  cases hminor : isMinor r with
  | true => exact (undisturbed_work hminor).mono fun _ _ h => h.server
  | false => exact covers_steady.changes_work hstart hround hminor

theorem safe_work (r : Request) (s : Site) :
    rules.Safe r (fun _ _ _ => True) (work r) none s := by
  by_cases hstart : r = .start
  · rw [hstart]
    refine safe_start stable_taken stable_served (fun s hinv => ?_) ?_ (does_loadFirst .start)
      (fun s hinv hs => move_to_created hinv hs)
      (fun s hinv hs => move_to_started hinv hs.1 hs.2.1 hs.2.2) s
    · refine Duties.move_refl hinv ?_
      rintro _ ⟨⟩
    · exact fun s hinv hcreated => ⟨move_to_starting hinv hcreated, rfl⟩
  · by_cases hround : r = .round
    · rw [hround]
      exact safe_round stable_taken stable_isReported
        (fun s hinv hready => ⟨move_takeUp hinv hready, rfl⟩) (does_handleChange .round)
        (fun s hinv hs => move_leaveOff hinv hs.1 hs.2) s
    · exact (harmless_steady.safe (steady_work hstart hround)).mono fun _ _ _ _ _ => trivial

theorem inv_of_isFresh (h : s.IsFresh) : Inv s := by
  obtain ⟨initial, sweepMillis, retry, since, heq⟩ := h
  have hnot : ¬s.WasStarted := by
    rintro (hs | hs) <;> rw [heq] at hs <;> cases hs
  refine ⟨?_, fun hs => absurd hs hnot, fun hs => absurd hs hnot⟩
  rintro (hs | hs) <;> rw [heq] at hs <;> cases hs

theorem around_harmless (hinv : Inv s) (h : s.Around s') :
    Inv s' ∧ ∀ d : Applying, d.IsTaken s → d.Rely s s' := by
  have hsteady : s.server.Steady s'.server := by
    rw [h]
    exact .refl _
  obtain ⟨hinv', -, hrely⟩ := harmless_steady s s' hinv trivial hsteady
  exact ⟨hinv', fun d _ => hrely d⟩

end Applying

/-- Whatever happens around a server that was started: the active configuration is well formed,
and the buckets are those of it; while versions can grow, another configuration becomes active
only with a greater version and no smaller date; a round of which the attempt fails leaves the
active configuration and the cells as they were, and reports the failure; and between the rounds
the version that was reported last is the active one. -/
theorem reload_safety {s₀ : Site} {es : List (Event Site)}
    {p : Pool Request Site (Except QuotaError Reply)} (hfresh : s₀.IsFresh)
    (hrun : Pool.Run work Around s₀ es p) :
    (p.state.WasStarted → p.state.IsServed) ∧
    (∀ e ∈ es, e.before.WasStarted → e.before.activeConfig.version ≠ lastVersion →
      e.before.SameSnapshot e.after ∨ e.before.MovedOn e.after) ∧
    (∀ (n : Nat) (r : Except QuotaError Reply), p.callers[n]? = some ⟨.round, .done r⟩ →
      ∃ attempt result, IsRound (Pool.changesOf n es) attempt result ∧
        ∀ e, result = .error e → ∀ c ∈ Pool.changesOf n es, Unapplied c.1 c.2) ∧
    (p.state.WasStarted → p.state.server.reloader ≠ .busy → p.state.IsReported) := by
  obtain ⟨hinv, hevents⟩ := Applying.duties.inv_of_run
    (fun _ _ hinv h => Applying.around_harmless hinv h) Applying.safe_work
    (Applying.inv_of_isFresh hfresh) hrun fun _ _ => trivial
  refine ⟨hinv.isServed, fun e he => (hevents e he).2, ?_, hinv.isReported⟩
  intro n r hn
  obtain ⟨attempt, result, hround⟩ := isRound_of_ends (hrun.steps hn)
  refine ⟨attempt, result, hround, ?_⟩
  rintro e rfl c hc
  obtain ⟨s₁, s₂, s₃, -, hchanges⟩ := hround.changes
  rw [hchanges] at hc
  rcases List.mem_cons.mp hc with rfl | hc
  · exact ⟨rfl, rfl⟩
  · rcases List.mem_append.mp hc with hc | hc
    · exact unapplied_of_error hround.ends c hc
    · rcases List.mem_cons.mp hc with rfl | hc
      · exact ⟨rfl, rfl⟩
      · rw [List.mem_singleton.mp hc]
        exact ⟨rfl, rfl⟩

/-- A server is started, and then outsiders keep what is no configuration: the round that follows
fails and reports so. -/
theorem reload_safety_unreadable :
    let unreadable : Archive := ⟨.shelf ⟨some "x", (∅ : NameMap Bytes).insert "x" [0x78], ["x"]⟩,
      true, false⟩
    let started := ((work .start).run (fun _ s => s) (fresh (.ofStorage (.shelf .empty)))).2
    let s := ((work .round).run (fun _ s => s) { started with archive := unreadable }).2
    s.server.outcome = .failed (.configApply
      "Cannot decode configuration: Serialization error: expected value") ∧
      s.IsServed ∧ ∃ es attempt result, IsRound (Pool.changesOf 1 es) attempt result ∧
        ∀ e, result = .error e → ∀ c ∈ Pool.changesOf 1 es, Unapplied c.1 c.2 := by
  intro unreadable started s
  have h₀ : Pool.Run work Around (fresh (.ofStorage (.shelf .empty))) []
      ⟨fresh (.ofStorage (.shelf .empty)), []⟩ := .start
  obtain ⟨es₁, r₁, h₁, -⟩ := h₀.joinAndFinish .start (by decide +kernel)
  have hends : ((work .round).run (fun _ s => s) { started with archive := unreadable }).1.isSome =
      true := by
    decide +kernel
  obtain ⟨es₂, r₂, h₂, -⟩ := (h₁.outside (s := { started with archive := unreadable })
    rfl).joinAndFinish .round hends
  have hsafe := reload_safety (isFresh_fresh _) h₂
  have hstarted : s.WasStarted := .inl (by decide +kernel)
  refine ⟨by decide +kernel, hsafe.1 hstarted, es₂, ?_⟩
  exact hsafe.2.2.1 1 r₂ rfl

end Site

end TokenQuota
