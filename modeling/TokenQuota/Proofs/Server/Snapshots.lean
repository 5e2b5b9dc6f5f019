import TokenQuota.Proofs.Server.Procedures

/-!
The configuration that a server serves: which steps of its callers put another one in place, and
what the caller that does so relies on.
-/

namespace TokenQuota

namespace Site

/-- Anything may happen around a server. -/
def Around (s s' : Site) : Prop := s'.server = s.server

/-- The active configuration is well formed, and the buckets are those of it. -/
structure IsServed (s : Site) : Prop where
  check : s.activeConfig.check = .ok ()
  serves : s.server.active.buckets.Serves s.activeConfig

/-- The version that was reported as applied is that of the active configuration. -/
def IsReported (s : Site) : Prop :=
  ∀ v, s.server.outcome = .applied v → s.activeConfig.version = v

/-- The active configuration and its buckets are the same, dynamic ones aside. -/
structure SameSnapshot (s s' : Site) : Prop where
  config : s'.activeConfig = s.activeConfig
  buckets : s.server.active.buckets.SameStatic s'.server.active.buckets

/-- Another configuration is active, with a greater version and no smaller date. -/
structure MovedOn (s s' : Site) : Prop where
  version : s.activeConfig.version < s'.activeConfig.version
  date : s.activeConfig.date ≤ s'.activeConfig.date

theorem SameSnapshot.refl (s : Site) : s.SameSnapshot s := ⟨rfl, .refl _⟩

/-- What at most one caller does at a time: it loads the first configuration, or applies a
change. -/
inductive Applying
  | loading
  | reloading

namespace Applying

def IsTaken : Applying → Site → Prop
  | loading, s => s.server.lifecycle = .starting
  | reloading, s => s.server.reloader = .busy

/-- What holds of a server between the steps of its callers. -/
structure Inv (s : Site) : Prop where
  wasStarted : s.server.reloader = .waiting ∨ s.server.reloader = .busy → s.WasStarted
  isServed : s.WasStarted → s.IsServed
  isReported : s.WasStarted → s.server.reloader ≠ .busy → s.IsReported

/-- While a configuration is applied, nobody else applies one or reports anything. -/
structure Rely (d : Applying) (s s' : Site) : Prop where
  taken : d.IsTaken s → d.IsTaken s'
  config : s'.activeConfig = s.activeConfig
  serves : ∀ c, s.server.active.buckets.Serves c → s'.server.active.buckets.Serves c
  outcome : s'.server.outcome = s.server.outcome

/-- A step applies a later configuration or none. -/
def Guar (s s' : Site) : Prop :=
  s.WasStarted → s.activeConfig.version ≠ lastVersion → s.SameSnapshot s' ∨ s.MovedOn s'

/-- Applying configurations. -/
def duties : Duties Applying Site where
  inv := Inv
  given _ := True
  taken := IsTaken
  rely := Rely
  guar := Guar
  guar_refl s _ _ := .inl (.refl s)
  rely_refl _ _ := ⟨id, rfl, fun _ h => h, rfl⟩
  rely_trans h h' := ⟨h'.taken ∘ h.taken, h'.config.trans h.config,
    fun c hc => h'.serves c (h.serves c hc), h'.outcome.trans h.outcome⟩
  rely_taken h := h.taken

variable {s s' : Site}

theorem Rely.isServed {d : Applying} (h : d.Rely s s') (hs : s.IsServed) : s'.IsServed := by
  constructor
  · rw [h.config]
    exact hs.check
  · rw [h.config]
    exact h.serves _ hs.serves

theorem Rely.isReported {d : Applying} (h : d.Rely s s') (hs : s.IsReported) :
    s'.IsReported := by
  intro v hv
  rw [h.config]
  exact hs v (by rw [← h.outcome]; exact hv)

theorem guar_of_active_eq (h : s'.server.active = s.server.active) : Guar s s' := by
  intro _ _
  refine .inl ⟨congrArg Snapshot.config h, ?_⟩
  rw [h]
  exact .refl _

theorem isServed_of_active_eq (hs : s.IsServed) (h : s'.server.active = s.server.active) :
    s'.IsServed := by
  constructor
  · rw [activeConfig, h]
    exact hs.check
  · rw [activeConfig, h]
    exact hs.serves

/-- A server of which only dynamic buckets come and go stays as it should be. -/
theorem harmless_steady : duties.Harmless fun s s' : Site => s.server.Steady s'.server := by
  intro s s' hinv _ h
  have hstarted := wasStarted_iff h
  have hrely : ∀ d : Applying, d.Rely s s' := by
    intro d
    refine ⟨?_, h.config, h.buckets.serves, h.outcome⟩
    cases d with
    | loading =>
        intro (hloading : s.server.lifecycle = .starting)
        rcases h.lifecycle with heq | ⟨heq, -⟩
        · exact heq.trans hloading
        · rw [heq] at hloading
          cases hloading
    | reloading =>
        intro (hbusy : s.server.reloader = .busy)
        rcases h.reloader with heq | ⟨hnot, -⟩
        · exact heq.trans hbusy
        · exact absurd hbusy hnot
  refine ⟨⟨?_, ?_, ?_⟩, fun _ _ => .inl ⟨h.config, h.buckets.static⟩, hrely⟩
  · intro hreloader
    refine hstarted.mpr (hinv.wasStarted ?_)
    rcases h.reloader with heq | ⟨-, heq⟩
    · rwa [heq] at hreloader
    · rw [heq] at hreloader
      rcases hreloader with hreloader | hreloader <;> cases hreloader
  · intro hs'
    exact (hrely .loading).isServed (hinv.isServed (hstarted.mp hs'))
  · intro hs' hnot
    refine (hrely .loading).isReported (hinv.isReported (hstarted.mp hs') ?_)
    rcases h.reloader with heq | ⟨hnot', -⟩
    · rwa [heq] at hnot
    · exact hnot'

/-- While a change is applied, the server was started before, and nobody loads. -/
theorem others_of_busy (hinv : Inv s) (hbusy : s.server.reloader = .busy) (d : Applying)
    (hne : some .reloading ≠ some d) (htaken : d.IsTaken s) : d.Rely s s' := by
  cases d with
  | loading =>
      have hloading : s.server.lifecycle = .starting := htaken
      rcases hinv.wasStarted (.inr hbusy) with heq | heq <;> rw [hloading] at heq <;> cases heq
  | reloading => exact absurd rfl hne

theorem others_of_starting (hinv : Inv s) (hstarting : s.server.lifecycle = .starting)
    (d : Applying) (hne : some .loading ≠ some d) (htaken : d.IsTaken s) : d.Rely s s' := by
  cases d with
  | loading => exact absurd rfl hne
  | reloading => exact absurd (hinv.wasStarted (.inr htaken)) (not_wasStarted hstarting)

theorem covers_steady : Covers fun s s' => s.server.Steady s'.server where
  refl s := .refl s.server
  late s _ := .refl s.server
  archive s _ := .refl s.server
  lock _ _ := ⟨rfl, rfl, .refl _, rfl, .inl rfl, .inl rfl⟩
  stats _ _ := ⟨rfl, rfl, .refl _, rfl, .inl rfl, .inl rfl⟩

abbrev rules : Protocol Request (Option Applying) Site := duties.protocol Request

/-- A change is being applied. -/
def IsBusy (s : Site) : Prop := s.server.reloader = .busy

/-- The first configuration is being loaded. -/
def IsStarting (s : Site) : Prop := s.server.lifecycle = .starting

theorem stable_taken {d : Applying} : rules.Stable (some d) d.IsTaken :=
  fun _ _ h hs => (h d rfl).taken hs

theorem stable_config {d : Applying} (C : ServiceConfig → Prop) :
    rules.Stable (some d) fun s => d.IsTaken s ∧ C s.activeConfig := by
  rintro s s' h ⟨htaken, hC⟩
  refine ⟨stable_taken s s' h htaken, ?_⟩
  rw [(h d rfl).config]
  exact hC

theorem move_busy (hinv : Inv s) (hs : IsBusy s) (hs' : IsBusy s')
    (hlifecycle : s'.server.lifecycle = s.server.lifecycle) (hserved : s'.IsServed)
    (hguar : Guar s s') : duties.Move (some .reloading) (some .reloading) s s' := by
  have hstarted : s'.WasStarted := by
    rw [WasStarted, hlifecycle]
    exact hinv.wasStarted (.inr hs)
  constructor
  · exact ⟨fun _ => hstarted, fun _ => hserved, fun _ hnot => absurd hs' hnot⟩
  · exact hguar
  · exact others_of_busy hinv hs
  · rintro _ ⟨⟩
    exact hs'
  · exact fun _ hd hne => absurd hd hne

theorem stable_isReported {d : Applying} :
    rules.Stable (some d) fun s => d.IsTaken s ∧ s.IsReported :=
  fun s s' h hs => ⟨stable_taken s s' h hs.1, (h d rfl).isReported hs.2⟩

theorem move_report (hinv : Inv s) (hs : IsBusy s) (outcome : Outcome) :
    duties.Move (some .reloading) (some .reloading) s (s.report outcome) :=
  move_busy hinv hs hs rfl
    (isServed_of_active_eq (hinv.isServed (hinv.wasStarted (.inr hs))) rfl) (guar_of_active_eq rfl)

theorem move_takeUp (hinv : Inv s) (hready : mayReload s = true) :
    duties.Move none (some .reloading) s s.takeUp := by
  have hwaiting : s.server.reloader = .waiting := by
    rw [mayReload, Bool.and_eq_true, beq_iff_eq] at hready
    exact hready.1
  have hnot : ¬IsBusy s := by
    intro hbusy
    rw [IsBusy, hwaiting] at hbusy
    cases hbusy
  have hstarted := hinv.wasStarted (.inl hwaiting)
  constructor
  · exact ⟨fun _ => hstarted, fun _ => isServed_of_active_eq (hinv.isServed hstarted) rfl,
      fun _ hnot => absurd rfl hnot⟩
  · exact guar_of_active_eq rfl
  · intro d _ htaken
    cases d with
    | loading => exact absurd hstarted (not_wasStarted htaken)
    | reloading => exact absurd htaken hnot
  · rintro _ ⟨⟩
    rfl
  · rintro _ ⟨⟩ _
    exact hnot

theorem move_leaveOff (hinv : Inv s) (hbusy : IsBusy s) (hreported : s.IsReported) :
    duties.Move (some .reloading) none s s.leaveOff := by
  have hstarted := hinv.wasStarted (.inr hbusy)
  constructor
  · exact ⟨fun _ => hstarted, fun _ => isServed_of_active_eq (hinv.isServed hstarted) rfl,
      fun _ _ => hreported⟩
  · exact guar_of_active_eq rfl
  · exact others_of_busy hinv hbusy
  · rintro _ ⟨⟩
  · rintro _ ⟨⟩

theorem inv_of_not_wasStarted (hinv : Inv s) (hs : ¬s.WasStarted) (hs' : ¬s'.WasStarted)
    (hreloader : s'.server.reloader = s.server.reloader) : Inv s' := by
  refine ⟨fun h => ?_, fun h => absurd h hs', fun h => absurd h hs'⟩
  rw [hreloader] at h
  exact absurd (hinv.wasStarted h) hs

theorem move_starting (hinv : Inv s) (hs : IsStarting s) (hs' : IsStarting s')
    (hreloader : s'.server.reloader = s.server.reloader) :
    duties.Move (some .loading) (some .loading) s s' := by
  constructor
  · exact inv_of_not_wasStarted hinv (not_wasStarted hs) (not_wasStarted hs') hreloader
  · exact fun hstarted => absurd hstarted (not_wasStarted hs)
  · exact others_of_starting hinv hs
  · rintro _ ⟨⟩
    exact hs'
  · exact fun _ hd hne => absurd hd hne

/-- The first configuration is applied and reported. -/
def IsServedFirst (s : Site) : Prop := IsStarting s ∧ s.IsServed ∧ s.IsReported

theorem stable_served : rules.Stable (some .loading) IsServedFirst := by
  rintro s s' h ⟨hs, hserved, hreported⟩
  have hrely := h .loading rfl
  exact ⟨hrely.taken hs, hrely.isServed hserved, hrely.isReported hreported⟩

/-- A server that starts is being loaded by the caller that starts it, and by nobody else. -/
theorem move_to_starting (hinv : Inv s) (hcreated : s.server.lifecycle = .created) :
    duties.Move none (some .loading) s { s with server.lifecycle := .starting } := by
  have hnot : ¬s.WasStarted := by
    rintro (heq | heq) <;> rw [hcreated] at heq <;> cases heq
  constructor
  · exact inv_of_not_wasStarted hinv hnot (not_wasStarted rfl) rfl
  · exact fun hstarted => absurd hstarted hnot
  · intro d _ htaken
    cases d with
    | loading =>
        have hstarting : s.server.lifecycle = .starting := htaken
        rw [hcreated] at hstarting
        cases hstarting
    | reloading => exact absurd (hinv.wasStarted (.inr htaken)) hnot
  · rintro _ ⟨⟩
    rfl
  · rintro _ ⟨⟩ _ htaken
    have hstarting : s.server.lifecycle = .starting := htaken
    rw [hcreated] at hstarting
    cases hstarting

theorem move_to_created (hinv : Inv s) (hs : IsStarting s) :
    duties.Move (some .loading) none s { s with server.lifecycle := .created } := by
  constructor
  · refine inv_of_not_wasStarted hinv (not_wasStarted hs) ?_ rfl
    rintro (heq | heq) <;> cases heq
  · exact fun hstarted => absurd hstarted (not_wasStarted hs)
  · exact others_of_starting hinv hs
  · rintro _ ⟨⟩
  · rintro _ ⟨⟩

theorem move_to_started (hinv : Inv s) (hs : IsStarting s) (hserved : s.IsServed)
    (hreported : s.IsReported) : duties.Move (some .loading) none s (launch s).2 := by
  rw [launch_eq hs]
  constructor
  · exact ⟨fun _ => .inl rfl, fun _ => isServed_of_active_eq hserved rfl, fun _ _ => hreported⟩
  · exact fun hstarted => absurd hstarted (not_wasStarted hs)
  · exact others_of_starting hinv hs
  · rintro _ ⟨⟩
  · rintro _ ⟨⟩

end Applying

end Site

end TokenQuota
