import TokenQuota.Proofs.Server.Keeping
import TokenQuota.Proofs.Server.Stamps

/-!
The configuration that a server is to end up with, and what those who keep configurations and
those who apply them may rely on.
-/

namespace TokenQuota

namespace Site

/-- The configuration to end up with: the one that is kept, or the initial one. -/
def IsLatest (s : Site) (c : ServiceConfig) : Prop :=
  match s.kept with
  | none => c = s.server.initial
  | some content => decodeChange content = .ok c

/-- The active configuration is the latest one, or it was reported why not. -/
def IsSettled (s : Site) : Prop :=
  s.IsLatest s.activeConfig ∨ ∃ e, s.server.outcome = .failed e

/-- Configurations are kept in memory, and the one that is kept, if any, is well formed. -/
structure IsInOrder (s : Site) : Prop where
  shelved : s.IsShelved
  unnoticed : s.kept = none → s.archive.pending = false
  wellFormed : ∀ content, s.kept = some content → ∃ c, decodeChange content = .ok c

/-- The versions so far can grow, and the clock is set. -/
structure HasRoom (s : Site) : Prop where
  active : s.activeConfig.version ≠ lastVersion
  kept : ∀ content c, s.kept = some content → decodeChange content = .ok c →
    c.version ≠ lastVersion
  clock : s.wallClock ≠ 0

instance (s : Site) : Decidable s.HasRoom :=
  decidable_of_iff (s.activeConfig.version ≠ lastVersion ∧
      (∀ content ∈ s.kept, ∀ c ∈ (decodeChange content).toOption, c.version ≠ lastVersion) ∧
      s.wallClock ≠ 0) <| by
    constructor
    · rintro ⟨hactive, hkept, hclock⟩
      refine ⟨hactive, ?_, hclock⟩
      intro content c hcontent hc
      refine hkept content hcontent c ?_
      rw [hc]
      rfl
    · rintro ⟨hactive, hkept, hclock⟩
      refine ⟨hactive, ?_, hclock⟩
      intro content hcontent c hc
      refine hkept content c hcontent ?_
      cases hdecode : decodeChange content with
      | ok l =>
          rw [hdecode] at hc
          cases hc
          rfl
      | error e =>
          rw [hdecode] at hc
          cases hc

/-- What is kept stays kept, or something later is kept. -/
structure KeepsOn (s s' : Site) : Prop where
  initial : s'.server.initial = s.server.initial
  kept : s.kept ≠ none → s'.kept ≠ none
  later : ∀ c, s.IsLatest c → ∃ c', s'.IsLatest c' ∧ c.Precedes c'

variable {s s' s'' : Site}

theorem IsLatest.unique {c c' : ServiceConfig} (h : s.IsLatest c) (h' : s.IsLatest c') :
    c = c' := by
  unfold IsLatest at h h'
  cases hkept : s.kept with
  | none =>
      rw [hkept] at h h'
      exact h.trans h'.symm
  | some content =>
      rw [hkept] at h h'
      exact Except.ok.inj (h.symm.trans h')

theorem isLatest_congr (hinitial : s'.server.initial = s.server.initial)
    (hstorage : s'.archive.storage = s.archive.storage) (c : ServiceConfig) :
    s'.IsLatest c ↔ s.IsLatest c := by
  unfold IsLatest
  rw [kept_congr hstorage, hinitial]

theorem keepsOn_congr (hinitial : s'.server.initial = s.server.initial)
    (hstorage : s'.archive.storage = s.archive.storage) : s.KeepsOn s' := by
  refine ⟨hinitial, ?_, ?_⟩
  · rw [kept_congr hstorage]
    exact id
  · intro c hc
    exact ⟨c, (isLatest_congr hinitial hstorage c).mpr hc, .refl c⟩

theorem KeepsOn.trans (h : s.KeepsOn s') (h' : s'.KeepsOn s'') : s.KeepsOn s'' := by
  refine ⟨h'.initial.trans h.initial, h'.kept ∘ h.kept, ?_⟩
  intro c hc
  obtain ⟨c', hc', hprecedes⟩ := h.later c hc
  obtain ⟨c'', hc'', hprecedes'⟩ := h'.later c' hc'
  exact ⟨c'', hc'', hprecedes.trans hprecedes'⟩

/-- What comes before the latest configuration comes before all later ones. -/
theorem KeepsOn.precedes {c : ServiceConfig} (h : s.KeepsOn s') (hlatest : ∃ l, s.IsLatest l)
    (hc : ∀ l, s.IsLatest l → c.Precedes l) : ∀ l, s'.IsLatest l → c.Precedes l := by
  intro l hl
  obtain ⟨k, hk⟩ := hlatest
  obtain ⟨l', hl', hprecedes⟩ := h.later k hk
  rw [hl.unique hl']
  exact (hc k hk).trans hprecedes

/-- What at most one caller does at a time: it loads the first configuration, applies a change,
or keeps a configuration. -/
inductive Duty
  | loading
  | reloading
  | editing
deriving DecidableEq

namespace Duty

def IsTaken : Duty → Site → Prop
  | loading, s => s.server.lifecycle = .starting
  | reloading, s => s.server.reloader = .busy
  | editing, s => s.server.locked = true

/-- What holds of a server between the steps of its callers. -/
structure Inv (s : Site) : Prop where
  shelved : s.IsShelved
  latest : ∃ c, s.IsLatest c
  unkept : s.kept = none → s.activeConfig = s.server.initial ∧ s.archive.pending = false
  wasStarted : s.server.reloader = .waiting ∨ s.server.reloader = .busy → s.WasStarted
  behind : s.WasStarted → ∀ c, s.IsLatest c → s.activeConfig.Precedes c
  settled : s.WasStarted → s.server.reloader ≠ .busy → s.archive.pending = false → s.IsSettled

/-- Who applies a configuration is the only one to do so, and is told of what is kept meanwhile.
Who keeps one is the only one to do so. -/
structure Rely (d : Duty) (s s' : Site) : Prop where
  taken : d.IsTaken s → d.IsTaken s'
  keepsOn : s.KeepsOn s'
  config : d ≠ .editing → s'.activeConfig = s.activeConfig
  outcome : d ≠ .editing → s'.server.outcome = s.server.outcome
  noticed : d ≠ .editing → s'.archive.pending = true ∨
    (s'.archive.storage = s.archive.storage ∧ s'.archive.pending = s.archive.pending)
  storage : d = .editing → s'.archive.storage = s.archive.storage

theorem Rely.trans {d : Duty} (h : d.Rely s s') (h' : d.Rely s' s'') : d.Rely s s'' := by
  refine ⟨h'.taken ∘ h.taken, h.keepsOn.trans h'.keepsOn, ?_, ?_, ?_, ?_⟩
  · exact fun hd => (h'.config hd).trans (h.config hd)
  · exact fun hd => (h'.outcome hd).trans (h.outcome hd)
  · intro hd
    rcases h'.noticed hd with hpending | ⟨hstorage, hpending⟩
    · exact .inl hpending
    · rw [hstorage, hpending]
      exact h.noticed hd
  · exact fun hd => (h'.storage hd).trans (h.storage hd)

/-- Loading, applying and keeping configurations. -/
def duties : Duties Duty Site where
  inv := Inv
  given := HasRoom
  taken := IsTaken
  rely := Rely
  guar s s' := s.kept ≠ none → s'.kept ≠ none
  guar_refl _ := id
  rely_refl _ _ := ⟨id, keepsOn_congr rfl rfl, fun _ => rfl, fun _ => rfl,
    fun _ => .inr ⟨rfl, rfl⟩, fun _ => rfl⟩
  rely_trans := Rely.trans
  rely_taken h := h.taken

abbrev rules : Protocol Request (Option Duty) Site := duties.protocol Request

theorem rely_of_undisturbed (h : s.Undisturbed s') (d : Duty) : d.Rely s s' := by
  refine ⟨?_, keepsOn_congr h.server.initial (congrArg Archive.storage h.archive),
    fun _ => h.server.config, fun _ => h.server.outcome,
    fun _ => .inr ⟨congrArg Archive.storage h.archive, congrArg Archive.pending h.archive⟩,
    fun _ => congrArg Archive.storage h.archive⟩
  cases d with
  | loading =>
      intro (hloading : s.server.lifecycle = .starting)
      rcases h.server.lifecycle with heq | ⟨heq, -⟩
      · exact heq.trans hloading
      · rw [heq] at hloading
        cases hloading
  | reloading =>
      intro (hbusy : s.server.reloader = .busy)
      rcases h.server.reloader with heq | ⟨hnot, -⟩
      · exact heq.trans hbusy
      · exact absurd hbusy hnot
  | editing => exact fun hlocked => h.locked.trans hlocked

theorem inv_of_undisturbed (hinv : Inv s) (h : s.Undisturbed s') : Inv s' := by
  have hstorage : s'.archive.storage = s.archive.storage := congrArg Archive.storage h.archive
  have hpending : s'.archive.pending = s.archive.pending := congrArg Archive.pending h.archive
  have hkept : s'.kept = s.kept := kept_congr hstorage
  have hlatest := isLatest_congr h.server.initial hstorage
  have hconfig : s'.activeConfig = s.activeConfig := h.server.config
  have hstarted := wasStarted_iff h.server
  constructor
  · exact isShelved_congr hstorage hinv.shelved
  · obtain ⟨c, hc⟩ := hinv.latest
    exact ⟨c, (hlatest c).mpr hc⟩
  · rw [hkept, hconfig, h.server.initial, hpending]
    exact hinv.unkept
  · intro hreloader
    refine hstarted.mpr (hinv.wasStarted ?_)
    rcases h.server.reloader with heq | ⟨-, heq⟩
    · rwa [heq] at hreloader
    · rw [heq] at hreloader
      rcases hreloader with hreloader | hreloader <;> cases hreloader
  · intro hs c hc
    rw [hconfig]
    exact hinv.behind (hstarted.mp hs) c ((hlatest c).mp hc)
  · intro hs hnot hunnoticed
    have hsettled := hinv.settled (hstarted.mp hs) ?_
      (hpending.symm.trans hunnoticed)
    · rw [IsSettled, hlatest, hconfig, h.server.outcome]
      exact hsettled
    · rcases h.server.reloader with heq | ⟨hnot', -⟩
      · rwa [heq] at hnot
      · exact hnot'

theorem harmless_undisturbed : duties.Harmless Undisturbed := by
  intro s s' hinv _ h
  have hkeepsOn := keepsOn_congr h.server.initial (congrArg Archive.storage h.archive)
  exact ⟨inv_of_undisturbed hinv h, hkeepsOn.kept, rely_of_undisturbed h⟩

theorem applying_unique (hinv : Inv s) {d d' : Duty} (hd : d ≠ .editing) (hd' : d' ≠ .editing)
    (htaken : d.IsTaken s) (htaken' : d'.IsTaken s) : d = d' := by
  have hboth : ¬(IsTaken .loading s ∧ IsTaken .reloading s) := by
    rintro ⟨hloading, hbusy⟩
    exact not_wasStarted hloading (hinv.wasStarted (.inr hbusy))
  cases d with
  | editing => exact absurd rfl hd
  | loading =>
      cases d' with
      | editing => exact absurd rfl hd'
      | loading => rfl
      | reloading => exact absurd ⟨htaken, htaken'⟩ hboth
  | reloading =>
      cases d' with
      | editing => exact absurd rfl hd'
      | loading => exact absurd ⟨htaken', htaken⟩ hboth
      | reloading => rfl

theorem rely_editing (h : LeavesKept s s') : Rely .editing s s' :=
  ⟨fun hlocked => h.locked.trans hlocked, keepsOn_congr h.initial h.storage,
    fun hd => absurd rfl hd, fun hd => absurd rfl hd, fun hd => absurd rfl hd, fun _ => h.storage⟩

theorem move_applying (hinv : Inv s) {d : Duty} (hd : d ≠ .editing) (htaken : d.IsTaken s)
    (h : LeavesKept s s') (hinv' : Inv s') {m : Option Duty}
    (hm : m = none ∨ (m = some d ∧ d.IsTaken s')) : duties.Move (some d) m s s' := by
  constructor
  · exact hinv'
  · exact (keepsOn_congr h.initial h.storage).kept
  · intro d' hne htaken'
    by_cases hediting : d' = .editing
    · rw [hediting]
      exact rely_editing h
    · exact absurd (congrArg some (applying_unique hinv hd hediting htaken htaken')) hne
  · rintro d' rfl
    rcases hm with hm | ⟨hm, hafter⟩
    · cases hm
    · cases hm
      exact hafter
  · rintro d' rfl hne
    rcases hm with hm | ⟨hm, -⟩
    · cases hm
    · exact absurd hm.symm hne

theorem move_to_applying {d : Duty} (hd : d ≠ .editing)
    (hfree : ∀ d' : Duty, d' ≠ .editing → ¬d'.IsTaken s) (h : LeavesKept s s') (hinv' : Inv s')
    (htaken : d.IsTaken s') : duties.Move none (some d) s s' := by
  constructor
  · exact hinv'
  · exact (keepsOn_congr h.initial h.storage).kept
  · intro d' _ htaken'
    by_cases hediting : d' = .editing
    · rw [hediting]
      exact rely_editing h
    · exact absurd htaken' (hfree d' hediting)
  · rintro _ ⟨⟩
    exact htaken
  · rintro _ ⟨⟩ _
    exact hfree d hd

theorem inv_of_leavesKept (hinv : Inv s) (h : LeavesKept s s')
    (hunkept : s.kept = none → s'.activeConfig = s.server.initial ∧ s'.archive.pending = false)
    (hwas : s'.server.reloader = .waiting ∨ s'.server.reloader = .busy → s'.WasStarted)
    (hbehind : s'.WasStarted → ∀ c, s.IsLatest c → s'.activeConfig.Precedes c)
    (hsettled : s'.WasStarted → s'.server.reloader ≠ .busy → s'.archive.pending = false →
      s.IsLatest s'.activeConfig ∨ ∃ e, s'.server.outcome = .failed e) : Inv s' := by
  have hlatest := isLatest_congr h.initial h.storage
  constructor
  · exact isShelved_congr h.storage hinv.shelved
  · obtain ⟨c, hc⟩ := hinv.latest
    exact ⟨c, (hlatest c).mpr hc⟩
  · rw [kept_congr h.storage, h.initial]
    exact hunkept
  · exact hwas
  · exact fun hs c hc => hbehind hs c ((hlatest c).mp hc)
  · intro hs hnot hpending
    rw [IsSettled, hlatest]
    exact hsettled hs hnot hpending

end Duty

end Site

end TokenQuota
