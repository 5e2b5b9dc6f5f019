import TokenQuota.Proofs.Server.Latest
import TokenQuota.Proofs.Server.Procedures

/-!
Whoever applies configurations goes after the latest one: it is applied in the end, or there is
another signal, or it is reported why not.
-/

namespace TokenQuota

namespace Site

open TokenQuota.Protocol (either succeeds)

namespace Duty

variable {s s' : Site}

/-- The configuration is on its way to being the latest one: nothing that is kept comes before
it, and if something else is kept by now there is a signal. -/
structure Aims (s : Site) (c : ServiceConfig) : Prop where
  exists_latest : ∃ l, s.IsLatest l
  precedes : ∀ l, s.IsLatest l → c.Precedes l
  noticed : s.archive.pending = true ∨ s.IsLatest c

theorem Aims.of_isLatest {c : ServiceConfig} (h : s.IsLatest c) : Aims s c := by
  refine ⟨⟨c, h⟩, fun l hl => ?_, .inr h⟩
  rw [h.unique hl]
  exact .refl l

theorem Aims.congr {c : ServiceConfig} (h : Aims s c) (hleaves : LeavesKept s s')
    (hpending : s'.archive.pending = s.archive.pending) : Aims s' c := by
  have hlatest := isLatest_congr hleaves.initial hleaves.storage
  obtain ⟨l, hl⟩ := h.exists_latest
  refine ⟨⟨l, (hlatest l).mpr hl⟩, fun l hl => h.precedes l ((hlatest l).mp hl), ?_⟩
  rw [hpending, hlatest]
  exact h.noticed

theorem Rely.aims {d : Duty} (h : d.Rely s s') (hd : d ≠ .editing) {c : ServiceConfig}
    (hc : Aims s c) : Aims s' c := by
  obtain ⟨l, hl⟩ := hc.exists_latest
  obtain ⟨l', hl', -⟩ := h.keepsOn.later l hl
  refine ⟨⟨l', hl'⟩, h.keepsOn.precedes hc.exists_latest hc.precedes, ?_⟩
  rcases h.noticed hd with hpending | ⟨hstorage, hpending⟩
  · exact .inl hpending
  · rw [hpending, isLatest_congr h.keepsOn.initial hstorage]
    exact hc.noticed

theorem Rely.settled {d : Duty} (h : d.Rely s s') (hd : d ≠ .editing)
    (hs : s.archive.pending = true ∨ s.IsSettled) : s'.archive.pending = true ∨ s'.IsSettled := by
  rcases h.noticed hd with hpending | ⟨hstorage, hpending⟩
  · exact .inl hpending
  · rw [hpending, IsSettled, isLatest_congr h.keepsOn.initial hstorage, h.config hd,
      h.outcome hd]
    exact hs

theorem move_read (hinv : Inv s) {d : Duty} (hd : d.IsTaken s) :
    duties.Move (some d) (some d) s s := by
  refine Duties.move_refl hinv ?_
  rintro _ ⟨⟩
  exact hd

/-- The change that is being applied: there is a configuration that is kept. -/
structure Pursuing (s : Site) : Prop where
  busy : IsTaken .reloading s
  kept : s.kept ≠ none

/-- The configuration that was read is to follow the active one. -/
structure Following (c : ServiceConfig) (s : Site) : Prop where
  pursuing : Pursuing s
  active : s.activeConfig.Precedes c
  aims : Aims s c

theorem stable_pursuing : rules.Stable (some .reloading) Pursuing := by
  intro s s' h hs
  have hrely := h .reloading rfl
  exact ⟨hrely.taken hs.busy, hrely.keepsOn.kept hs.kept⟩

theorem stable_following (c : ServiceConfig) :
    rules.Stable (some .reloading) (Following c) := by
  intro s s' h hs
  have hrely := h .reloading rfl
  refine ⟨stable_pursuing s s' h hs.pursuing, ?_, hrely.aims (by decide) hs.aims⟩
  rw [hrely.config (by decide)]
  exact hs.active

theorem stable_active_following (a c : ServiceConfig) :
    rules.Stable (some .reloading) fun s => s.activeConfig = a ∧ Following c s := by
  rintro s s' h ⟨hactive, hs⟩
  exact ⟨((h .reloading rfl).config (by decide)).trans hactive, stable_following c s s' h hs⟩

/-- The active configuration is on its way to being the latest one. -/
def Reached (s : Site) : Prop := Pursuing s ∧ Aims s s.activeConfig

theorem stable_reached : rules.Stable (some .reloading) Reached := by
  rintro s s' h ⟨hs, haims⟩
  have hrely := h .reloading rfl
  refine ⟨stable_pursuing s s' h hs, ?_⟩
  rw [hrely.config (by decide)]
  exact hrely.aims (by decide) haims

/-- What a reader of the kept content finds while a change is applied. -/
def Found (content : Option Bytes) (s : Site) : Prop :=
  ∃ b c, content = some b ∧ decodeChange b = .ok c ∧ Following c s

theorem stable_found (content : Option Bytes) :
    rules.Stable (some .reloading) (Found content) := by
  rintro s s' h ⟨b, c, hb, hc, hs⟩
  exact ⟨b, c, hb, hc, stable_following c s s' h hs⟩

theorem does_read_pursuing (i : Request) :
    rules.Does i (some .reloading) Pursuing readArchive (succeeds Found) := by
  refine does_readArchive (fun s hs => hs.shelved) stable_pursuing stable_found ?_ ?_
  · intro s s' hs hinv hgiven h
    exact harmless_undisturbed.move_rely hinv hgiven h hs.busy
  · intro s hinv _ hs
    refine ⟨move_read hinv hs.busy, ?_⟩
    obtain ⟨c, hc⟩ := hinv.latest
    cases hkept : s.kept with
    | none => exact absurd hkept hs.kept
    | some b =>
        have hdecode : decodeChange b = .ok c := by
          unfold IsLatest at hc
          rwa [hkept] at hc
        exact ⟨b, c, rfl, hdecode, hs, hinv.behind (hinv.wasStarted (.inr hs.busy)) c hc,
          .of_isLatest hc⟩

theorem move_install_following (hinv : Inv s) {c : ServiceConfig} (hs : Following c s) :
    duties.Move (some .reloading) (some .reloading) s (install c s) := by
  have hleaves : LeavesKept s (install c s) := ⟨rfl, rfl, rfl⟩
  refine move_applying hinv (by decide) hs.pursuing.busy hleaves ?_ (.inr ⟨rfl, hs.pursuing.busy⟩)
  refine inv_of_leavesKept hinv hleaves ?_ ?_ ?_ ?_
  · exact fun hkept => absurd hkept hs.pursuing.kept
  · exact fun _ => hinv.wasStarted (.inr hs.pursuing.busy)
  · exact fun _ => hs.aims.precedes
  · exact fun _ hnot => absurd hs.pursuing.busy hnot

/-- An attempt to apply what is kept brings the active configuration closer to it, or fails. -/
theorem does_reload (i : Request) :
    rules.Does i (some .reloading) Pursuing reload (either (fun _ => Reached) Pursuing) := by
  refine Site.does_reload (K := Found) (N := fun c active s => s.activeConfig = active ∧
    Following c s) stable_found (fun c active => stable_active_following active c)
    (does_read_pursuing i).either_of_succeeds ?_ ?_ ?_ ?_
  · rintro content s ⟨b, c, -, -, hs⟩
    exact hs.pursuing
  · rintro content c s hdecode hinv _ ⟨b, l, hb, hl, hs⟩
    cases hb
    cases hdecode.symm.trans hl
    exact ⟨move_read hinv hs.pursuing.busy, rfl, hs⟩
  · rintro active s _ ⟨hactive, hs⟩
    refine ⟨hs.pursuing, ?_⟩
    rw [hactive]
    exact hs.aims
  · rintro c active wallClock hne s ⟨rfl, hs⟩
    rw [restamp_eq_self hs.active hne]
    refine ((does_apply (stable_following c) (S := Reached) stable_reached ?_ ?_).mono
      (fun _ hs => hs) ?_) s hs
    · intro s s' hs hinv hgiven h
      exact harmless_undisturbed.move_rely hinv hgiven h hs.pursuing.busy
    · intro s hinv _ hs
      have hleaves : LeavesKept s (install c s) := ⟨rfl, rfl, rfl⟩
      exact ⟨move_install_following hinv hs, ⟨hs.pursuing.busy, hs.pursuing.kept⟩,
        hs.aims.congr hleaves rfl⟩
    · rintro (e | v) s _ hs
      · exact hs.pursuing
      · exact hs.2

/-- What came of the change is there for all to see, unless there is another one. -/
def Concluded (s : Site) : Prop := Pursuing s ∧ (s.archive.pending = true ∨ s.IsSettled)

theorem stable_concluded : rules.Stable (some .reloading) Concluded :=
  fun s s' h hs => ⟨stable_pursuing s s' h hs.1, (h .reloading rfl).settled (by decide) hs.2⟩

theorem move_pursuing (hinv : Inv s) (hs : Pursuing s) (hleaves : LeavesKept s s')
    (hactive : s'.activeConfig = s.activeConfig)
    (hlifecycle : s'.server.lifecycle = s.server.lifecycle)
    (hsettled : s'.server.reloader ≠ .busy → s'.archive.pending = false → s'.IsSettled)
    {m : Option Duty} (hm : m = none ∨ (m = some .reloading ∧ IsTaken .reloading s')) :
    duties.Move (some .reloading) m s s' := by
  have hstarted := hinv.wasStarted (.inr hs.busy)
  have hstarted' : s'.WasStarted := by
    rw [WasStarted, hlifecycle]
    exact hstarted
  refine move_applying hinv (by decide) hs.busy hleaves ?_ hm
  refine inv_of_leavesKept hinv hleaves ?_ (fun _ => hstarted') ?_ ?_
  · exact fun hkept => absurd hkept hs.kept
  · intro _ c hc
    rw [hactive]
    exact hinv.behind hstarted c hc
  · intro _ hnot hpending
    have h := hsettled hnot hpending
    rwa [IsSettled, isLatest_congr hleaves.initial hleaves.storage] at h

theorem does_handleChange (i : Request) :
    rules.Does i (some .reloading) Pursuing handleChange (succeeds fun _ => Concluded) := by
  have hreport : ∀ s outcome, Inv s → Pursuing s →
      rules.move i (some .reloading) (some .reloading) s (s.report outcome) := by
    intro s outcome hinv hs
    have hleaves : LeavesKept s (s.report outcome) := ⟨rfl, rfl, rfl⟩
    exact move_pursuing hinv hs hleaves rfl rfl (fun hnot => absurd hs.busy hnot)
      (.inr ⟨rfl, hs.busy⟩)
  refine Site.does_handleChange (fun _ => stable_reached) stable_pursuing stable_concluded
    (does_reload i) ?_ ?_
  · intro v s hinv _ hs
    refine ⟨hreport s _ hinv hs.1, ⟨hs.1.busy, hs.1.kept⟩, ?_⟩
    rcases hs.2.noticed with hpending | hlatest
    · exact .inl hpending
    · exact .inr (.inl hlatest)
  · intro e s hinv _ hs
    exact ⟨hreport s _ hinv hs, ⟨hs.busy, hs.kept⟩, .inr (.inr ⟨e, rfl⟩)⟩

theorem move_takeUp (hinv : Inv s) (hready : mayReload s = true) :
    duties.Move none (some .reloading) s s.takeUp ∧ Pursuing s.takeUp := by
  rw [mayReload, Bool.and_eq_true, beq_iff_eq] at hready
  obtain ⟨hwaiting, hpending⟩ := hready
  have hstarted := hinv.wasStarted (.inl hwaiting)
  have hkept : s.kept ≠ none := by
    intro hnone
    rw [(hinv.unkept hnone).2] at hpending
    cases hpending
  have hleaves : LeavesKept s s.takeUp := ⟨rfl, rfl, rfl⟩
  refine ⟨move_to_applying (by decide) ?_ hleaves ?_ rfl, rfl, hkept⟩
  · intro d hd htaken
    cases d with
    | loading => exact not_wasStarted htaken hstarted
    | reloading =>
        have hbusy : s.server.reloader = .busy := htaken
        rw [hwaiting] at hbusy
        cases hbusy
    | editing => exact hd rfl
  · exact inv_of_leavesKept hinv hleaves (fun hnone => absurd hnone hkept)
      (fun _ => hstarted) (fun _ => hinv.behind hstarted) fun _ hnot => absurd rfl hnot

theorem move_leaveOff (hinv : Inv s) (hs : Concluded s) :
    duties.Move (some .reloading) none s s.leaveOff := by
  obtain ⟨hpursuing, hsettled⟩ := hs
  have hleaves : LeavesKept s s.leaveOff := ⟨rfl, rfl, rfl⟩
  refine move_pursuing hinv hpursuing hleaves rfl rfl ?_ (.inl rfl)
  intro _ hpending
  rcases hsettled with hnoticed | hsettled
  · have hunnoticed : s.archive.pending = false := hpending
    rw [hnoticed] at hunnoticed
    cases hunnoticed
  · exact hsettled

theorem inv_of_not_wasStarted (hinv : Inv s) (hleaves : LeavesKept s s') (hs : ¬s.WasStarted)
    (hs' : ¬s'.WasStarted) (hreloader : s'.server.reloader = s.server.reloader)
    (hunkept : s.kept = none → s'.activeConfig = s.server.initial ∧ s'.archive.pending = false) :
    Inv s' := by
  refine inv_of_leavesKept hinv hleaves hunkept ?_ (fun h => absurd h hs') fun h => absurd h hs'
  intro h
  rw [hreloader] at h
  exact absurd (hinv.wasStarted h) hs

theorem move_loading (hinv : Inv s) (hs : IsTaken .loading s) (hs' : IsTaken .loading s')
    (hleaves : LeavesKept s s') (hreloader : s'.server.reloader = s.server.reloader)
    (hunkept : s.kept = none → s'.activeConfig = s.server.initial ∧ s'.archive.pending = false) :
    duties.Move (some .loading) (some .loading) s s' :=
  move_applying hinv (by decide) hs hleaves
    (inv_of_not_wasStarted hinv hleaves (not_wasStarted hs) (not_wasStarted hs') hreloader hunkept)
    (.inr ⟨rfl, hs'⟩)

/-- A configuration that is being loaded: the initial one, if nothing is kept. -/
structure Loading (c : ServiceConfig) (s : Site) : Prop where
  starting : IsTaken .loading s
  unkept : s.kept = none → c = s.server.initial
  aims : Aims s c

theorem stable_starting : rules.Stable (some .loading) (IsTaken .loading) :=
  fun _ _ h hs => (h .loading rfl).taken hs

theorem stable_loading (c : ServiceConfig) : rules.Stable (some .loading) (Loading c) := by
  intro s s' h hs
  have hrely := h .loading rfl
  refine ⟨hrely.taken hs.starting, ?_, hrely.aims (by decide) hs.aims⟩
  intro hkept
  rw [hrely.keepsOn.initial]
  exact hs.unkept (Classical.byContradiction fun hne => hrely.keepsOn.kept hne hkept)

/-- The configuration that was loaded is the active one. -/
def Loaded (s : Site) : Prop := Loading s.activeConfig s

theorem stable_loaded : rules.Stable (some .loading) Loaded := by
  intro s s' h hs
  have hconfig := (h .loading rfl).config (by decide)
  rw [Loaded, hconfig]
  exact stable_loading s.activeConfig s s' h hs

/-- What a reader of the kept content finds while the first configuration is loaded. -/
def FoundFirst (content : Option Bytes) (s : Site) : Prop :=
  ∃ c, Loading c s ∧ ((content = none ∧ c = s.server.initial) ∨
    ∃ b, content = some b ∧ decode b = .ok c)

theorem stable_foundFirst (content : Option Bytes) :
    rules.Stable (some .loading) (FoundFirst content) := by
  rintro s s' h ⟨c, hs, hcontent⟩
  refine ⟨c, stable_loading c s s' h hs, ?_⟩
  rwa [(h .loading rfl).keepsOn.initial]

theorem does_read_starting (i : Request) :
    rules.Does i (some .loading) (IsTaken .loading) readArchive (succeeds FoundFirst) := by
  refine does_readArchive (fun s hs => hs.shelved) stable_starting stable_foundFirst ?_ ?_
  · intro s s' hs hinv hgiven h
    exact harmless_undisturbed.move_rely hinv hgiven h hs
  · intro s hinv _ hs
    obtain ⟨c, hc⟩ := hinv.latest
    refine ⟨move_read hinv hs, c, ⟨hs, ?_, .of_isLatest hc⟩, ?_⟩
    · intro hkept
      unfold IsLatest at hc
      rwa [hkept] at hc
    · unfold IsLatest at hc
      cases hkept : s.kept with
      | none =>
          rw [hkept] at hc
          exact .inl ⟨rfl, hc⟩
      | some b =>
          rw [hkept] at hc
          exact .inr ⟨b, rfl, (decodeChange_eq_ok_iff.mp hc).1⟩

theorem does_loadFirst (i : Request) :
    rules.Does i (some .loading) (IsTaken .loading) loadFirst
      (either (fun _ => Loaded) (IsTaken .loading)) := by
  refine Site.does_loadFirst (F := Loading) (L := fun c s => s.activeConfig = c ∧ Loaded s)
    stable_starting stable_foundFirst stable_loading ?_ stable_loaded ?_
    (does_read_starting i).either_of_succeeds ?_ ?_ ?_ ?_ ?_ ?_ ?_
  · exact fun c s s' h hs =>
      ⟨((h .loading rfl).config (by decide)).trans hs.1, stable_loaded s s' h hs.2⟩
  · intro s hinv _ hs
    have hleaves : LeavesKept s { s with archive := (Archive.notice s.archive).2 } :=
      ⟨rfl, rfl, rfl⟩
    exact ⟨move_loading hinv hs hs hleaves rfl
      fun hkept => ⟨(hinv.unkept hkept).1, rfl⟩, hs⟩
  · rintro content s ⟨c, hs, -⟩
    exact hs.starting
  · rintro s hinv _ ⟨c, hs, ⟨-, rfl⟩ | ⟨b, hb, -⟩⟩
    · exact ⟨move_read hinv hs.starting, hs⟩
    · cases hb
  · rintro content c s hdecode ⟨l, hs, ⟨hnone, -⟩ | ⟨b, hb, hl⟩⟩
    · cases hnone
    · cases hb
      cases hdecode.symm.trans hl
      exact hs
  · exact fun c s hs => hs.starting
  · intro c
    exact Protocol.does_of_changes (undisturbed_onLink _) (stable_loading c)
      fun s s' hs hinv hgiven h => harmless_undisturbed.move_rely hinv hgiven h hs.starting
  · intro c s _ hinv _ hs
    have hleaves : LeavesKept s (install c s) := ⟨rfl, rfl, rfl⟩
    refine ⟨move_loading hinv hs.starting hs.starting hleaves rfl ?_, rfl,
      hs.starting, hs.unkept, hs.aims.congr hleaves rfl⟩
    exact fun hkept => ⟨hs.unkept hkept, (hinv.unkept hkept).2⟩
  · rintro c s hinv _ ⟨rfl, hs⟩
    have hleaves : LeavesKept s (s.report (.applied s.activeConfig.version)) := ⟨rfl, rfl, rfl⟩
    exact ⟨move_loading hinv hs.starting hs.starting hleaves rfl hinv.unkept, hs.starting,
      hs.unkept, hs.aims.congr hleaves rfl⟩

/-- Nobody loads or applies a configuration before the server starts. -/
theorem not_applying_of_created (hinv : Inv s) (hcreated : s.server.lifecycle = .created) {d : Duty}
    (hd : d ≠ .editing) : ¬d.IsTaken s := by
  intro htaken
  cases d with
  | loading =>
      have hstarting : s.server.lifecycle = .starting := htaken
      rw [hcreated] at hstarting
      cases hstarting
  | reloading =>
      rcases hinv.wasStarted (.inr htaken) with heq | heq <;> rw [hcreated] at heq <;> cases heq
  | editing => exact hd rfl

theorem move_to_starting (hinv : Inv s) (hcreated : s.server.lifecycle = .created) :
    duties.Move none (some .loading) s { s with server.lifecycle := .starting } := by
  have hnot : ¬s.WasStarted := by
    rintro (heq | heq) <;> rw [hcreated] at heq <;> cases heq
  have hleaves : LeavesKept s { s with server.lifecycle := .starting } := ⟨rfl, rfl, rfl⟩
  exact move_to_applying (by decide) (fun d hd => not_applying_of_created hinv hcreated hd)
    hleaves (inv_of_not_wasStarted hinv hleaves hnot (not_wasStarted rfl) rfl hinv.unkept) rfl

theorem move_to_created (hinv : Inv s) (hs : IsTaken .loading s) :
    duties.Move (some .loading) none s { s with server.lifecycle := .created } := by
  have hleaves : LeavesKept s { s with server.lifecycle := .created } := ⟨rfl, rfl, rfl⟩
  refine move_applying hinv (by decide) hs hleaves ?_ (.inl rfl)
  refine inv_of_not_wasStarted hinv hleaves (not_wasStarted hs) ?_ rfl hinv.unkept
  rintro (heq | heq) <;> cases heq

theorem move_to_started (hinv : Inv s) (hs : Loaded s) :
    duties.Move (some .loading) none s (launch s).2 := by
  have hlaunch := launch_eq hs.starting
  have hleaves : LeavesKept s (launch s).2 := by
    rw [hlaunch]
    exact ⟨rfl, rfl, rfl⟩
  refine move_applying hinv (by decide) hs.starting hleaves ?_ (.inl rfl)
  refine inv_of_leavesKept hinv hleaves ?_ (fun _ => ?_) (fun _ => ?_) ?_
  all_goals rw [hlaunch]
  · exact hinv.unkept
  · exact .inl rfl
  · exact hs.aims.precedes
  intro _ _ hpending
  rcases hs.aims.noticed with hnoticed | hlatest
  · have hunnoticed : s.archive.pending = false := hpending
    rw [hnoticed] at hunnoticed
    cases hunnoticed
  · exact .inl hlatest

end Duty

end Site

end TokenQuota
