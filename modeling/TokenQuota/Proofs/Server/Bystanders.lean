import TokenQuota.Proofs.Server.Answers
import TokenQuota.Proofs.Server.Procedures

/-!
Those who keep nothing: whoever starts or stops the server, takes tokens, applies changes or asks
for what was kept. Their steps leave what is kept alone, and what holds while others change it.
-/

namespace TokenQuota

namespace Site

open TokenQuota.Protocol (either succeeds)

variable {s s' : Site}

/-- What holds between the steps while changes are made to what is kept in memory. -/
structure IsSound (initial : ServiceConfig) (s : Site) : Prop where
  initial_eq : s.server.initial = initial
  shelved : s.IsShelved
  readable : ∃ c, s.latestConfig = .ok c
  unkept : s.kept = none → s.activeConfig = initial

variable {initial : ServiceConfig}

theorem keptConfig_eq_none_iff (h : ∃ c, s.latestConfig = .ok c) :
    s.keptConfig = none ↔ s.kept = none := by
  obtain ⟨c, hc⟩ := h
  unfold latestConfig at hc
  unfold keptConfig
  cases hkept : s.kept with
  | none => simp
  | some content =>
      rw [hkept] at hc
      have hdecode : decode content = .ok c := hc
      rw [Option.bind_some, hdecode]
      simp [Except.toOption]

theorem isSound_of_leavesKept (hs : IsSound initial s) (h : s.LeavesKept s')
    (hactive : s.kept = none → s'.activeConfig = initial) : IsSound initial s' := by
  constructor
  · exact h.initial.trans hs.initial_eq
  · exact isShelved_congr h.storage hs.shelved
  · rw [latestConfig_congr h.initial h.storage]
    exact hs.readable
  · rw [kept_congr h.storage]
    exact hactive

theorem isSound_of_isFresh (hfresh : s.IsFresh) (hshelved : s.IsShelved)
    (hkept : ∀ content, s.kept = some content → ∃ c, decode content = .ok c) :
    IsSound s.server.initial s := by
  obtain ⟨initial, sweepMillis, retry, since, heq⟩ := hfresh
  constructor
  · rfl
  · exact hshelved
  · unfold latestConfig
    cases hsome : s.kept with
    | none => exact ⟨_, rfl⟩
    | some content => exact hkept content hsome
  · intro _
    rw [activeConfig, heq]
    rfl

/-- A content that is written for a configuration may be kept. -/
theorem isSound_putOnShelf (hs : IsSound initial s) (c : ServiceConfig) :
    IsSound initial (s.putOnShelf c.write) := by
  refine ⟨hs.initial_eq, isShelved_putOnShelf hs.shelved _, ⟨c, ?_⟩, ?_⟩
  · rw [latestConfig, kept_putOnShelf hs.shelved]
    exact decode_write c
  · rw [kept_putOnShelf hs.shelved]
    rintro ⟨⟩

theorem isSound_lock (hs : IsSound initial s) (b : Bool) : IsSound initial (lock.set b s) :=
  ⟨hs.initial_eq, hs.shelved, hs.readable, hs.unkept⟩

theorem leavesKept_of_undisturbed (h : s.Undisturbed s') : s.LeavesKept s' :=
  ⟨h.server.initial, h.locked, congrArg Archive.storage h.archive⟩

theorem leavesKept_launch (s : Site) :
    s.LeavesKept (launch s).2 ∧ (launch s).2.activeConfig = s.activeConfig := by
  have htransition : ∀ s₁ : Site, s₁.LeavesKept (s₁.transition .starting .started).2 ∧
      (s₁.transition .starting .started).2.activeConfig = s₁.activeConfig := by
    intro s₁
    unfold transition
    split
    · exact ⟨⟨rfl, rfl, rfl⟩, rfl⟩
    · exact ⟨⟨rfl, rfl, rfl⟩, rfl⟩
  obtain ⟨hleaves, hactive⟩ := htransition { s with
    server.reloader := .waiting
    server.sinceSweep := if s.server.sweepMillis = 0 then none else some 0 }
  exact ⟨⟨hleaves.initial, hleaves.locked, hleaves.storage⟩, hactive⟩

/-- A configuration that may become the active one: the initial one, if nothing is kept. -/
def MayApply (initial c : ServiceConfig) (s : Site) : Prop := c = initial ∨ s.keptConfig ≠ none

/-- Something is kept, and stays kept. -/
def IsKept (s : Site) : Prop := s.keptConfig ≠ none

/-- Where a content is found, something is kept. -/
def Found (content : Option Bytes) (s : Site) : Prop := content = none ∨ IsKept s

/-- A role in which a caller keeps nothing. What the others keep they do not take away. -/
structure Bystands {μ : Type} (P : Protocol Request μ Site) (initial : ServiceConfig) (i : Request)
    (m : μ) : Prop where
  sound : ∀ s, P.inv s → IsSound initial s
  grows : ∀ s s', P.rely m s s' → s.keptConfig ≠ none → s'.keptConfig ≠ none
  goesOn : ∀ s s', P.inv s → s.LeavesKept s' → (s.kept = none → s'.activeConfig = initial) →
    P.move i m m s s' ∧ P.rely m s s'

namespace Bystands

variable {μ : Type} {P : Protocol Request μ Site} {i : Request} {m : μ}

theorem undisturbed (h : Bystands P initial i m) (hinv : P.inv s) (hs : s.Undisturbed s') :
    P.move i m m s s' ∧ P.rely m s s' := by
  refine h.goesOn s s' hinv (leavesKept_of_undisturbed hs) ?_
  intro hkept
  have hconfig : s'.activeConfig = s.activeConfig := hs.server.config
  exact hconfig.trans ((h.sound s hinv).unkept hkept)

theorem same (h : Bystands P initial i m) (hinv : P.inv s) (hleaves : s.LeavesKept s')
    (hactive : s'.activeConfig = s.activeConfig) : P.move i m m s s' :=
  (h.goesOn s s' hinv hleaves fun hkept => hactive.trans ((h.sound s hinv).unkept hkept)).1

theorem stays (h : Bystands P initial i m) (hinv : P.inv s) : P.move i m m s s :=
  h.same hinv ⟨rfl, rfl, rfl⟩ rfl

theorem stable_true : P.Stable m fun _ => True := fun _ _ _ _ => trivial

theorem stable_isKept (h : Bystands P initial i m) : P.Stable m IsKept :=
  fun s s' hrely hs => h.grows s s' hrely hs

theorem stable_mayApply (h : Bystands P initial i m) (c : ServiceConfig) :
    P.Stable m (MayApply initial c) := by
  rintro s s' hrely (heq | hsome)
  · exact .inl heq
  · exact .inr (h.grows s s' hrely hsome)

theorem stable_found (h : Bystands P initial i m) (content : Option Bytes) :
    P.Stable m (Found content) := by
  rintro s s' hrely (hnone | hs)
  · exact .inl hnone
  · exact .inr (h.grows s s' hrely hs)

theorem does_readArchive (h : Bystands P initial i m) :
    P.Does i m (fun _ => True) readArchive (either Found fun _ => True) := by
  have hread : P.Does i m (fun _ => True) readArchive (succeeds Found) := by
    refine Site.does_readArchive (fun s hinv => (h.sound s hinv).shelved) stable_true
      h.stable_found (fun _ _ _ hinv _ hs => h.undisturbed hinv hs) ?_
    intro s hinv _ _
    refine ⟨h.stays hinv, ?_⟩
    cases hkept : s.kept with
    | none => exact .inl rfl
    | some content =>
        refine .inr ?_
        rw [IsKept, Ne, keptConfig_eq_none_iff (h.sound s hinv).readable, hkept]
        rintro ⟨⟩
  exact hread.either_of_succeeds

/-- A configuration may be put in place that is the initial one, or if something is kept. -/
theorem install (h : Bystands P initial i m) (hinv : P.inv s) {c : ServiceConfig}
    (hc : MayApply initial c s) : P.move i m m s (install c s) := by
  refine (h.goesOn s (Site.install c s) hinv ⟨rfl, rfl, rfl⟩ fun hkept => ?_).1
  rcases hc with heq | hsome
  · exact heq
  · exact absurd ((keptConfig_eq_none_iff (h.sound s hinv).readable).mpr hkept) hsome

theorem report (h : Bystands P initial i m) (hinv : P.inv s) (outcome : Outcome) :
    P.move i m m s (s.report outcome) :=
  h.same hinv ⟨rfl, rfl, rfl⟩ rfl

theorem does_loadFirst (h : Bystands P initial i m) :
    P.Does i m (fun _ => True) loadFirst (either (fun _ _ => True) fun _ => True) := by
  refine Site.does_loadFirst (S := fun _ => True) (F := MayApply initial) (L := fun _ _ => True)
    stable_true h.stable_found h.stable_mayApply (fun _ => stable_true) stable_true ?_
    h.does_readArchive (fun _ _ _ => trivial) ?_ ?_ (fun _ _ _ => trivial) ?_ ?_ ?_
  · exact fun s hinv _ _ => ⟨h.same hinv ⟨rfl, rfl, rfl⟩ rfl, trivial⟩
  · exact fun s hinv _ _ => ⟨h.stays hinv, .inl (h.sound s hinv).initial_eq⟩
  · rintro content c s - (hnone | hs)
    · cases hnone
    · exact .inr hs
  · intro c
    exact Protocol.does_of_changes (undisturbed_onLink _) (h.stable_mayApply c)
      fun s s' _ hinv _ hs => h.undisturbed hinv hs
  · exact fun c s _ hinv _ hs => ⟨h.install hinv hs, trivial⟩
  · exact fun c s hinv _ _ => ⟨h.report hinv _, trivial⟩

theorem does_reload (h : Bystands P initial i m) :
    P.Does i m (fun _ => True) reload (either (fun _ _ => True) fun _ => True) := by
  refine Site.does_reload (N := fun _ _ => IsKept) h.stable_found (fun _ _ => h.stable_isKept)
    h.does_readArchive (fun _ _ _ => trivial) ?_ (fun _ _ _ _ => trivial) ?_
  · rintro content c s - hinv - (hnone | hs)
    · cases hnone
    · exact ⟨h.stays hinv, hs⟩
  · intro c active wallClock _
    refine (does_apply h.stable_isKept (S := fun _ => True) stable_true ?_ ?_).mono
      (fun _ hs => hs) ?_
    · exact fun s s' _ hinv _ hs => h.undisturbed hinv hs
    · exact fun s hinv _ hs => ⟨h.install hinv (.inr hs), trivial⟩
    · rintro (e | v) s _ _
      · trivial
      · trivial

theorem does_handleChange (h : Bystands P initial i m) :
    P.Does i m (fun _ => True) handleChange (succeeds fun _ _ => True) :=
  Site.does_handleChange (fun _ => stable_true) stable_true stable_true h.does_reload
    (fun _ _ hinv _ _ => ⟨h.report hinv _, trivial⟩)
    (fun _ _ hinv _ _ => ⟨h.report hinv _, trivial⟩)

/-- Whoever keeps nothing is safe in such a role. -/
theorem safe_work (h : Bystands P initial i m) (hi : isAdmin i = false) (s : Site) :
    P.Safe i (fun _ _ _ => True) (work i) m s := by
  cases hminor : isMinor i with
  | true =>
      exact (Protocol.safe_of_changes (undisturbed_work hminor)
        fun s₁ s₂ _ hinv _ hs => h.undisturbed hinv hs).mono fun _ _ _ _ _ => trivial
  | false =>
      cases i with
      | start =>
          refine safe_start (m := m) stable_true stable_true (fun s => h.stays) ?_
            h.does_loadFirst ?_ ?_ s
          · exact fun s hinv _ => ⟨h.same hinv ⟨rfl, rfl, rfl⟩ rfl, trivial⟩
          · exact fun s hinv _ => h.same hinv ⟨rfl, rfl, rfl⟩ rfl
          · intro s hinv _
            obtain ⟨hleaves, hactive⟩ := leavesKept_launch s
            exact h.same hinv hleaves hactive
      | round =>
          refine safe_round stable_true stable_true ?_ h.does_handleChange ?_ s
          · exact fun s hinv _ => ⟨h.same hinv ⟨rfl, rfl, rfl⟩ rfl, trivial⟩
          · exact fun s hinv _ => h.same hinv ⟨rfl, rfl, rfl⟩ rfl
      | history =>
          have hhistory : P.Does .history m (fun _ => True) history fun _ _ => True :=
            does_history (fun s hinv => (h.sound s hinv).shelved) stable_true
              fun s hinv _ _ => h.stays hinv
          refine hhistory.safe_bind (Q := fun _ _ _ => True) ?_ (fun _ _ _ _ => trivial) trivial
          exact fun contents s₁ _ _ => fun _ _ _ => trivial
      | update user config => cases hi
      | edit user e => cases hi
      | _ => cases hminor

end Bystands

end Site

end TokenQuota
