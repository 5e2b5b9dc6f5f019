import TokenQuota.Proofs.Server.Bystanders
import TokenQuota.Proofs.Task.Ledger

/-!
Requests for changes as entries of a ledger. Whoever changes what is kept holds the lock meanwhile,
and whoever starts the server or applies changes leaves no trace.
-/

namespace TokenQuota

namespace Site

variable {s s' : Site}

/-- Whoever holds the lock is the only one to keep anything. -/
structure LockHeld (s s' : Site) : Prop where
  locked : s.server.locked = true → s'.server.locked = true
  initial : s'.server.initial = s.server.initial
  storage : s'.archive.storage = s.archive.storage

/-- Holding the lock. -/
def locking (initial : ServiceConfig) : Duties Unit Site where
  inv := IsSound initial
  given _ := True
  taken _ s := s.server.locked = true
  rely _ := LockHeld
  guar _ _ := True
  guar_refl _ := trivial
  rely_refl _ _ := ⟨id, rfl, rfl⟩
  rely_trans h h' := ⟨h'.locked ∘ h.locked, h'.initial.trans h.initial, h'.storage.trans h.storage⟩
  rely_taken h := h.locked

/-- Changes of what is kept. -/
def changes (initial : ServiceConfig) :
    Ledger Request Unit Site (Option ServiceConfig) (Except QuotaError Reply) where
  duties := locking initial
  view := keptConfig
  spec := answer initial
  IsAnswered i := isAdmin i = true
  IsFailure r := ∃ e, r = .error e
  IsQuiet i s s' := isAdmin i = true → s'.archive = s.archive
  Grows v v' := v ≠ none → v' ≠ none
  grows_refl _ := id
  grows_trans h h' := h' ∘ h
  grows_spec i v hv := by
    unfold answer
    split
    · rintro ⟨⟩
    · exact hv

variable {initial : ServiceConfig}

theorem LeavesKept.lockHeld (h : s.LeavesKept s') : s.LockHeld s' :=
  ⟨fun hlocked => h.locked.trans hlocked, h.initial, h.storage⟩

/-- The caller holds the lock. -/
def Held (s : Site) : Prop := s.server.locked = true

theorem move_leavesKept {m : Option Unit} (hs : IsSound initial s) (h : s.LeavesKept s')
    (hactive : s.kept = none → s'.activeConfig = initial) (hheld : m = some () → Held s) :
    (locking initial).Move m m s s' where
  inv := isSound_of_leavesKept hs h hactive
  guar := trivial
  others _ _ _ := h.lockHeld
  taken _ hm := h.locked.trans (hheld hm)
  free _ hm hne := absurd hm hne

theorem move_undisturbed {m : Option Unit} (hs : IsSound initial s) (h : s.Undisturbed s')
    (hheld : m = some () → Held s) : (locking initial).Move m m s s' := by
  refine move_leavesKept hs (leavesKept_of_undisturbed h) ?_ hheld
  intro hkept
  have hconfig : s'.activeConfig = s.activeConfig := h.server.config
  exact hconfig.trans (hs.unkept hkept)

theorem move_take (hs : IsSound initial s) (hfree : s.server.locked = false) :
    (locking initial).Move none (some ()) s (lock.set true s) := by
  have hnot : ¬Held s := by
    intro (hlocked : s.server.locked = true)
    rw [hfree] at hlocked
    cases hlocked
  exact ⟨isSound_lock hs true, trivial, fun _ _ hheld => absurd hheld hnot, fun _ _ => rfl,
    fun _ _ _ => hnot⟩

theorem move_leave (hs : IsSound initial s) :
    (locking initial).Move (some ()) none s (lock.set false s) :=
  ⟨isSound_lock hs false, trivial, fun _ hne _ => absurd rfl hne, by rintro _ ⟨⟩, by rintro _ ⟨⟩⟩

theorem move_put (hs : IsSound initial s) (hheld : Held s) (c : ServiceConfig) :
    (locking initial).Move (some ()) (some ()) s (s.putOnShelf c.write) :=
  ⟨isSound_putOnShelf hs c, trivial, fun _ hne _ => absurd rfl hne, fun _ _ => hheld,
    fun _ _ hne => absurd rfl hne⟩

/-- A caller that holds the lock is the only one to keep configurations. -/
theorem keepsAlone_of_held {μ : Type} {P : Protocol Request μ Site} {i : Request} {m : μ}
    (hsound : ∀ s, P.inv s → IsSound initial s) (hrely : ∀ s s', P.rely m s s' → s.LockHeld s')
    (hgoesOn : ∀ s s', Held s → P.inv s → s.Undisturbed s' → P.move i m m s s' ∧ P.rely m s s') :
    KeepsAlone P i m Held where
  shelved s hinv := (hsound s hinv).shelved
  unkept s hinv hkept := ((hsound s hinv).unkept hkept).trans (hsound s hinv).initial_eq.symm
  readable s hinv := (hsound s hinv).readable
  stable s s' h hs := (hrely s s' h).locked hs
  storage s s' h := (hrely s s' h).storage
  initial s s' h := (hrely s s' h).initial
  goesOn s s' hs hinv _ h := hgoesOn s s' hs hinv h

namespace Changing

abbrev rules (initial : ServiceConfig) :
    Protocol Request (Option Unit × Option (Except QuotaError Reply)) Site :=
  (changes initial).protocol

/-- A step that leaves what is kept alone has no effect. -/
theorem aside {i : Request} {m : Option Unit} {a : Option (Except QuotaError Reply)}
    (hmove : (locking initial).Move m m s s') (h : s.LeavesKept s')
    (hquiet : isAdmin i = true → s'.archive = s.archive) :
    (rules initial).move i (m, a) (m, a) s s' ∧ (rules initial).rely (m, a) s s' := by
  have hview : s'.keptConfig = s.keptConfig := keptConfig_congr h.storage
  refine ⟨⟨hmove, .aside hview hquiet⟩, ?_, fun _ _ => h.lockHeld⟩
  intro (hsome : s.keptConfig ≠ none)
  rwa [← hview] at hsome

theorem bystands {i : Request} (hi : isAdmin i = false) :
    Bystands (rules initial) initial i (none, none) where
  sound _ hinv := hinv
  grows _ _ h := h.1
  goesOn s s' hinv hs hactive := by
    refine aside (move_leavesKept hinv hs hactive (by rintro ⟨⟩)) hs ?_
    rw [hi]
    rintro ⟨⟩

end Changing

end Site

end TokenQuota
