import TokenQuota.Proofs.Server.Standing

/-!
One server after the other over what is kept. A server starts with the version that is kept, not
with the one that was active before it: that these agree depends on who keeps configurations.
-/

namespace TokenQuota

namespace Site

open TokenQuota.Protocol (solo)

/-- The versions of the active configuration and of the kept one can be exceeded. -/
structure LeavesRoom (s : Site) : Prop where
  active : s.activeConfig.version ≠ lastVersion
  kept : (stampOf s.archive.content?).1 ≠ lastVersion

instance (s : Site) : Decidable s.LeavesRoom :=
  decidable_of_iff (s.activeConfig.version ≠ lastVersion ∧
    (stampOf s.archive.content?).1 ≠ lastVersion) ⟨fun h => ⟨h.1, h.2⟩, fun h => ⟨h.1, h.2⟩⟩

/-- Servers come one after the other over one archive, and at each of them one caller after the
other. Somebody else keeps configurations too, and signals changes. The last site is where it has
come to, and the sites before it are those that earlier servers were left at. What comes from outside
may depend on all of them: a configuration that somebody else keeps, or that a server has to start
with while nothing is kept. -/
inductive Succession (Allows : List Site → ServiceConfig → Prop) : List Site → Site → Prop
  | first {s : Site} {content : Option Bytes} (hfresh : s.IsFresh) (hclock : s.wallClock ≠ 0)
      (hholds : s.archive.Holds content)
      (hdecode : ∀ b, content = some b → ∃ c, decode b = .ok c) : Succession Allows [] s
  | request {past : List Site} {s s' : Site} {i : Request} {r : Except QuotaError Reply}
      (h : Succession Allows past s) (hroom : s.LeavesRoom)
      (hwork : (work i).EndsAmid alone s r s') : Succession Allows past s'
  | kept {past : List Site} {s s' : Site} {b : Bytes} {c : ServiceConfig}
      {r : Except QuotaError Unit} (h : Succession Allows past s) (hdecode : decode b = .ok c)
      (hallows : Allows (s :: past) c)
      (hkeep : (onArchive (Archive.keep b)).run.EndsAmid alone s r s') : Succession Allows past s'
  | signalled {past : List Site} {s : Site} (h : Succession Allows past s) :
      Succession Allows past { s with archive := s.archive.signal }
  | aside {past : List Site} {s s' : Site} (h : Succession Allows past s)
      (hsame : alone s' = alone s) : Succession Allows past s'
  | restarted {past : List Site} {s s' : Site} (h : Succession Allows past s) (hfresh : s'.IsFresh)
      (hclock : s'.wallClock ≠ 0) (hstorage : s'.archive.storage = s.archive.storage)
      (hunlocked : s'.archive.locked = false)
      (hallows : s.archive.content? = none → Allows (s :: past) s'.server.initial) :
      Succession Allows (s :: past) s'

/-- The server was started, and maybe stopped since. -/
def Standing.WasStarted (v : Standing) : Prop :=
  v.lifecycle = .started ∨ v.lifecycle = .stopped

/-- A configuration came after all that were in force. -/
def IsAfter (past : List Site) (c : ServiceConfig) : Prop :=
  ∀ s ∈ past, s.WasStarted → s.activeConfig.Precedes c

/-- Some configuration is the latest one at a server, and comes after all that are or were in
force. -/
structure Leads (past : List Site) (v : Standing) (c : ServiceConfig) : Prop where
  latest : v.latest = .ok c
  unkept : v.content = none → v.active = v.initial
  after : IsAfter past c
  active : v.WasStarted → v.active.Precedes c
  activePast : v.WasStarted → IsAfter past v.active

variable {past : List Site} {s s' : Site} {v v' : Standing} {c c' : ServiceConfig}

theorem Stands.wasStarted_iff (h : s.Stands v) : s.WasStarted ↔ v.WasStarted := by
  rw [WasStarted, h.1.lifecycle]
  rfl

theorem Leads.kept {b : Bytes} (h : Leads past v c) (hdecode : decode b = .ok c')
    (hpast : IsAfter past c') (hactive : v.WasStarted → v.active.Precedes c') :
    Leads past { v with content := some b } c' where
  latest := hdecode
  unkept := by rintro ⟨⟩
  after := hpast
  active := hactive
  activePast := h.activePast

theorem IsAfter.trans (h : IsAfter past c) (hprecedes : c.Precedes c') : IsAfter past c' :=
  fun s hs hstarted => (h s hs hstarted).trans hprecedes

/-- What a server keeps is stamped past the latest configuration. -/
theorem Leads.precedes_stamp (h : Leads past v c) {wallClock : UInt64} (hclock : wallClock ≠ 0)
    (hactive : v.active.version ≠ lastVersion) (hkept : (stampOf v.content).1 ≠ lastVersion)
    (user : String) (config : ServiceConfig) :
    c.Precedes (stamp wallClock v.active (stampOf v.content) user config) := by
  have hlatest := h.latest
  unfold Standing.latest at hlatest
  cases hcontent : v.content with
  | none =>
      -- Nothing is kept, so the initial configuration is active still, and it is stamped past.
      rw [hcontent] at hlatest
      obtain rfl := Except.ok.inj hlatest
      rw [← h.unkept hcontent]
      exact active_precedes_stamp hclock hactive (hcontent ▸ hkept) user config
  | some content =>
      rw [hcontent] at hlatest hkept
      have hstamp : stampOf (some content) = (c.version, c.date) := by
        have hdecode : decode content = .ok c := hlatest
        simp only [stampOf, Option.map_some, hdecode]
      rw [hstamp] at hkept ⊢
      exact kept_precedes_stamp hclock hactive hkept user config

theorem Leads.step (h : Leads past v c) (hactive : v.active.version ≠ lastVersion)
    (hkept : (stampOf v.content).1 ≠ lastVersion) (hstep : v.Step v') :
    ∃ c', Leads past v' c' := by
  cases hstep with
  | stays => exact ⟨c, h⟩
  | keeps hclock user config =>
      have hprecedes := h.precedes_stamp hclock hactive hkept user config
      refine ⟨_, h.kept (decode_write _) (h.after.trans hprecedes) fun _ => ?_⟩
      exact active_precedes_stamp hclock hactive hkept user config
  | @applies content config hcontent hdecode hne wallClock =>
      have hlatest := h.latest
      rw [Standing.latest, hcontent] at hlatest
      obtain rfl : config = c := Except.ok.inj (hdecode.symm.trans hlatest)
      -- The leading configuration was stamped past the active one, so it is applied as it is.
      have hself : v.WasStarted → restamp wallClock v.active config = config :=
        fun hstarted => restamp_eq_self (h.active hstarted) hne wallClock
      refine ⟨config, h.latest, ?_, h.after, ?_, ?_⟩
      · intro hnone
        cases hcontent.symm.trans hnone
      · intro hstarted
        rw [hself hstarted]
        exact .refl config
      · intro hstarted
        rw [hself hstarted]
        exact h.after
  | starts hcreated hlatest =>
      obtain rfl := Except.ok.inj (h.latest.symm.trans hlatest)
      refine ⟨c, h.latest, ?_, h.after, fun _ => .refl c, fun _ => h.after⟩
      intro hnone
      rw [Standing.latest, hnone] at hlatest
      exact (Except.ok.inj hlatest).symm
  | stops hstarted =>
      exact ⟨c, h.latest, h.unkept, h.after, fun _ => h.active (.inl hstarted),
        fun _ => h.activePast (.inl hstarted)⟩

theorem IsAfter.of_cons (hs : s.Stands v) (h : IsAfter (s :: past) c) :
    IsAfter past c ∧ (v.WasStarted → v.active.Precedes c) := by
  obtain ⟨hserver, hpast⟩ := List.forall_mem_cons.mp h
  rw [hs.wasStarted_iff, hs.1.active] at hserver
  exact ⟨hpast, hserver⟩

theorem isAfter_cons (hs : s.Stands v) (hpast : IsAfter past c)
    (hactive : v.WasStarted → v.active.Precedes c) : IsAfter (s :: past) c := by
  refine List.forall_mem_cons.mpr ⟨?_, hpast⟩
  rw [hs.wasStarted_iff, hs.1.active]
  exact hactive

theorem stands_of_isFresh {content : Option Bytes} (hfresh : s.IsFresh) (hclock : s.wallClock ≠ 0)
    (hholds : s.archive.Holds content) :
    s.Stands ⟨.created, s.server.initial, s.server.initial, content⟩ := by
  obtain ⟨initial, sweepMillis, retry, since, hserver⟩ := hfresh
  refine ⟨⟨?_, rfl, ?_, hclock⟩, hholds⟩
  · rw [hserver]
    rfl
  · rw [activeConfig, hserver]
    rfl

theorem leads_of_created {initial : ServiceConfig} {content : Option Bytes}
    (hlatest : Standing.latest ⟨.created, initial, initial, content⟩ = .ok c)
    (hpast : IsAfter past c) : Leads past ⟨.created, initial, initial, content⟩ c where
  latest := hlatest
  unkept _ := rfl
  after := hpast
  active := by rintro (⟨⟨⟩⟩ | ⟨⟨⟩⟩)
  activePast := by rintro (⟨⟨⟩⟩ | ⟨⟨⟩⟩)

/-- As long as what comes from outside comes after all that was in force, something leads. -/
theorem Succession.leads (h : Succession IsAfter past s) : ∃ v c, s.Stands v ∧ Leads past v c := by
  induction h with
  | @first s content hfresh hclock hholds hdecode =>
      have hnone : ∀ c, IsAfter [] c := fun c _ hs => nomatch hs
      cases content with
      | none => exact ⟨_, _, stands_of_isFresh hfresh hclock hholds, leads_of_created rfl (hnone _)⟩
      | some b =>
          obtain ⟨c, hc⟩ := hdecode b rfl
          exact ⟨_, c, stands_of_isFresh hfresh hclock hholds, leads_of_created hc (hnone c)⟩
  | request _ hroom hwork ih =>
      obtain ⟨v, c, hs, hleads⟩ := ih
      obtain ⟨v', hstep, hs'⟩ := stepped_of_endsAmid hs hwork
      have hactive := hs.1.active ▸ hroom.active
      have hkept := hs.2.content?_eq ▸ hroom.kept
      obtain ⟨c', hleads'⟩ := hleads.step hactive hkept hstep
      exact ⟨v', c', hs', hleads'⟩
  | kept _ hdecode hafter hkeep ih =>
      obtain ⟨v, c, hs, hleads⟩ := ih
      obtain ⟨hpast, hactive⟩ := hafter.of_cons hs
      have hs' := (does_keep (i := Request.round) _).of_endsAmid hs hkeep
      exact ⟨_, _, hs', hleads.kept hdecode hpast hactive⟩
  | signalled _ ih =>
      obtain ⟨v, c, hs, hleads⟩ := ih
      exact ⟨v, c, ⟨hs.1.of_eq rfl rfl rfl rfl, hs.2.of_storage rfl hs.2.unlocked⟩, hleads⟩
  | aside _ hsame ih =>
      obtain ⟨v, c, hs, hleads⟩ := ih
      exact ⟨v, c, hs.of_alone hsame, hleads⟩
  | @restarted past s s' _ hfresh hclock hstorage hunlocked hallows ih =>
      obtain ⟨v, c, hs, hleads⟩ := ih
      have hs' := stands_of_isFresh hfresh hclock (hs.2.of_storage hstorage hunlocked)
      -- The next server finds what leads, or else it has to bring along what does.
      cases hcontent : v.content with
      | none =>
          rw [hcontent] at hs'
          exact ⟨_, _, hs', leads_of_created rfl (hallows (hs.2.content?_eq.trans hcontent))⟩
      | some b =>
          have hlatest := hleads.latest
          rw [Standing.latest, hcontent] at hlatest
          rw [hcontent] at hs'
          have hafter := isAfter_cons hs hleads.after hleads.active
          exact ⟨_, c, hs', leads_of_created hlatest hafter⟩

end Site

end TokenQuota
