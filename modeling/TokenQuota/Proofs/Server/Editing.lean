import TokenQuota.Proofs.Config.ReadBack
import TokenQuota.Proofs.Server.Keeping
import TokenQuota.Proofs.Server.Stamps

/-!
How a caller changes the configuration that is kept: it holds the lock, reads the latest
configuration, and keeps another one. Nobody else keeps anything meanwhile.
-/

namespace TokenQuota

namespace Site

/-- The configuration that is kept, or else the initial one. -/
def latestConfig (s : Site) : Except QuotaError ServiceConfig :=
  match s.kept with
  | some content => decode content
  | none => .ok s.server.initial

/-- What a request makes of the latest configuration, before it is stamped. -/
def attempt : Request → ServiceConfig → Except QuotaError ServiceConfig
  | .update _ config, _ => do
    validate config
    return config
  | .edit _ e, config => do
    let edited ← (config.edit e).mapError QuotaError.ofEdit
    validate edited
    return edited
  | _, config => .ok config

/-- The one who asks for a change. -/
def userOf : Request → String
  | .update user _ | .edit user _ => user
  | _ => ""

/-- The requests that keep a configuration. -/
def isAdmin : Request → Bool
  | .update .. | .edit .. => true
  | _ => false

/-- A configuration is stamped past an active one and the one that is kept, and kept. -/
def keepStamped (wallClock : UInt64) (active : ServiceConfig) (user : String)
    (config : ServiceConfig) (s : Site) : Site :=
  s.putOnShelf (stamp wallClock active (stampOf s.kept) user config).write

theorem latestConfig_congr {s s' : Site} (hinitial : s'.server.initial = s.server.initial)
    (hstorage : s'.archive.storage = s.archive.storage) : s'.latestConfig = s.latestConfig := by
  unfold latestConfig
  rw [kept_congr hstorage, hinitial]

theorem decode_write (c : ServiceConfig) : decode c.write = .ok c := by
  rw [decode, ServiceConfig.read_of_reads c.reads_write]
  rfl

theorem attempt_update (user : String) (config c : ServiceConfig) :
    attempt (.update user config) c = (validate config).map fun _ => config := by
  change (validate config >>= fun _ => pure config) = _
  cases validate config <;> rfl

theorem attempt_edit (user : String) {e : Edit} {c edited : ServiceConfig}
    (h : (c.edit e).mapError QuotaError.ofEdit = .ok edited) :
    attempt (.edit user e) c = (validate edited).map fun _ => edited := by
  change ((c.edit e).mapError QuotaError.ofEdit >>= fun edited =>
    validate edited >>= fun _ => pure edited) = _
  rw [h]
  change (validate edited >>= fun _ => pure edited) = _
  cases validate edited <;> rfl

theorem attempt_edit_error (user : String) {e : Edit} {c : ServiceConfig} {err : QuotaError}
    (h : (c.edit e).mapError QuotaError.ofEdit = .error err) :
    attempt (.edit user e) c = .error err := by
  change ((c.edit e).mapError QuotaError.ofEdit >>= fun edited =>
    validate edited >>= fun _ => pure edited) = _
  rw [h]
  rfl

/-- Only what is well formed comes of an attempt. -/
theorem check_of_attempt {i : Request} (hadmin : isAdmin i = true) {c c' : ServiceConfig}
    (h : attempt i c = .ok c') : c'.check = .ok () := by
  have hvalid : ∀ config : ServiceConfig,
      ((validate config).map fun _ => config) = .ok c' → c'.check = .ok () := by
    intro config hconfig
    cases hvalidate : validate config with
    | ok u =>
        rw [hvalidate] at hconfig
        cases hconfig
        exact validate_eq_ok_iff.mp hvalidate
    | error e =>
        rw [hvalidate] at hconfig
        cases hconfig
  cases i with
  | update user config =>
      rw [attempt_update] at h
      exact hvalid config h
  | edit user e =>
      cases hedited : (c.edit e).mapError QuotaError.ofEdit with
      | ok edited =>
          rw [attempt_edit user hedited] at h
          exact hvalid edited h
      | error err =>
          rw [attempt_edit_error user hedited] at h
          cases h
  | _ => cases hadmin

section Rules

variable {μ : Type} {P : Protocol Request μ Site} {i : Request} {idle m : μ} {H : Site → Prop}

/-- A role in which a caller is the only one to keep configurations. -/
structure KeepsAlone (P : Protocol Request μ Site) (i : Request) (m : μ) (H : Site → Prop) :
    Prop where
  shelved : ∀ s, P.inv s → s.IsShelved
  /-- As long as nothing is kept, the initial configuration is the active one. -/
  unkept : ∀ s, P.inv s → s.kept = none → s.activeConfig = s.server.initial
  readable : ∀ s, P.inv s → ∃ c, s.latestConfig = .ok c
  stable : P.Stable m H
  storage : ∀ s s', P.rely m s s' → s'.archive.storage = s.archive.storage
  initial : ∀ s s', P.rely m s s' → s'.server.initial = s.server.initial
  goesOn : ∀ s s', H s → P.inv s → P.given s → s.Undisturbed s' →
    P.move i m m s s' ∧ P.rely m s s'

/-- The configuration was active at some time since what is kept was kept. -/
def WasActive (P : Protocol Request μ Site) (a : ServiceConfig) (s : Site) : Prop :=
  ∃ s', P.inv s' ∧ P.given s' ∧ s'.activeConfig = a ∧ s'.kept = s.kept ∧
    s'.server.initial = s.server.initial

theorem KeepsAlone.stable_kept (h : KeepsAlone P i m H) (content : Option Bytes) :
    P.Stable m fun s => H s ∧ s.kept = content := by
  rintro s s' hrely ⟨hs, hkept⟩
  exact ⟨h.stable s s' hrely hs, (kept_congr (h.storage s s' hrely)).trans hkept⟩

theorem KeepsAlone.stable_latest (h : KeepsAlone P i m H) (r : Except QuotaError ServiceConfig) :
    P.Stable m fun s => H s ∧ s.latestConfig = r := by
  rintro s s' hrely ⟨hs, hlatest⟩
  refine ⟨h.stable s s' hrely hs, ?_⟩
  rw [latestConfig_congr (h.initial s s' hrely) (h.storage s s' hrely)]
  exact hlatest

theorem KeepsAlone.stable_wasActive (h : KeepsAlone P i m H) (a : ServiceConfig) :
    P.Stable m fun s => H s ∧ WasActive P a s := by
  rintro s s' hrely ⟨hs, s₀, hinv, hgiven, hactive, hkept, hinitial⟩
  refine ⟨h.stable s s' hrely hs, s₀, hinv, hgiven, hactive, ?_, ?_⟩
  · exact hkept.trans (kept_congr (h.storage s s' hrely)).symm
  · exact hinitial.trans (h.initial s s' hrely).symm

theorem KeepsAlone.does_read {α : Type} (h : KeepsAlone P i m H) {S : α → Site → Prop}
    {f : Site → α} (hS : ∀ a, P.Stable m (S a))
    (hf : ∀ s, P.inv s → P.given s → H s → S (f s) s) :
    P.Does i m H (Action.read f : Work α) (Protocol.succeeds S) :=
  Protocol.does_read h.stable hS fun s hinv hgiven hs =>
    ⟨(h.goesOn s s hs hinv hgiven (.refl s)).1, hf s hinv hgiven hs⟩

theorem KeepsAlone.does_readArchive (h : KeepsAlone P i m H) :
    P.Does i m H readArchive (Protocol.succeeds fun content s => H s ∧ s.kept = content) := by
  refine Site.does_readArchive h.shelved h.stable h.stable_kept ?_ ?_
  · exact fun s s' hs hinv hgiven hundisturbed => h.goesOn s s' hs hinv hgiven hundisturbed
  · exact fun s hinv hgiven hs => ⟨(h.goesOn s s hs hinv hgiven (.refl s)).1, hs, rfl⟩

theorem KeepsAlone.does_latest (h : KeepsAlone P i m H) :
    P.Does i m H latest fun r s => H s ∧ s.latestConfig = r := by
  refine .bind h.does_readArchive ?_ fun e s _ hs => absurd hs id
  intro content
  cases content with
  | some content =>
      refine (Protocol.does_ofExcept (h.stable_kept _) (decode content)).mono (fun _ hs => hs) ?_
      rintro r s _ ⟨rfl, hs, hkept⟩
      refine ⟨hs, ?_⟩
      rw [latestConfig, hkept]
  | none =>
      have hread : P.Does i m (fun s => H s ∧ s.kept = none) (Action.read activeConfig : Work _)
          (Protocol.succeeds fun c s => H s ∧ s.latestConfig = .ok c) := by
        refine Protocol.does_read (h.stable_kept none) (fun c => h.stable_latest (.ok c)) ?_
        rintro s hinv hgiven ⟨hs, hkept⟩
        refine ⟨(h.goesOn s s hs hinv hgiven (.refl s)).1, hs, ?_⟩
        rw [latestConfig, hkept, h.unkept s hinv hkept]
      refine hread.mono (fun _ hs => hs) ?_
      rintro (e | c) s _ hr
      · exact absurd hr id
      · exact hr

/-- A configuration that is not well formed is refused. Another one is stamped past what was read,
and kept. -/
theorem KeepsAlone.safe_persist (h : KeepsAlone P i m H) {user : String} {config : ServiceConfig}
    {Q : μ → Except QuotaError Unit → Site → Prop} (hQ : ∀ m' r, P.Stable m' (Q m' r))
    (hfail : ∀ e, validate config = .error e → ∀ s, P.inv s → H s → Q m (.error e) s)
    (hkeep : validate config = .ok () → ∀ s active wallClock, P.inv s → P.given s → H s →
      WasActive P active s → (∃ s', P.given s' ∧ s'.wallClock = wallClock) →
      ∃ m', P.move i m m' s (keepStamped wallClock active user config s) ∧
        Q m' (.ok ()) (keepStamped wallClock active user config s)) {s : Site} (hs : H s) :
    P.Safe i Q (persist user config).run m s := by
  have hread : P.Does i m H (Action.read activeConfig : Work _)
      (Protocol.succeeds fun a s => H s ∧ WasActive P a s) :=
    h.does_read h.stable_wasActive fun s hinv hgiven hs =>
      ⟨hs, s, hinv, hgiven, rfl, rfl, rfl⟩
  refine Protocol.Does.safe_bind (Protocol.does_ofExcept h.stable (validate config)) ?_ ?_ hs
  · rintro u s₁ _ ⟨hvalid, hs₁⟩
    refine hread.safe_bind ?_ (fun e s _ he => absurd he id) hs₁
    intro active s₂ _ hs₂
    -- Another configuration may become active from here on: only what was active is known.
    have hactive : KeepsAlone P i m fun s => H s ∧ WasActive P active s :=
      { h with
        stable := h.stable_wasActive active
        goesOn := fun s s' hs => h.goesOn s s' hs.1 }
    refine hactive.does_readArchive.safe_bind ?_ (fun e s _ he => absurd he id) hs₂
    intro content s₃ _ hs₃
    have hclock : P.Does i m (fun s => (H s ∧ WasActive P active s) ∧ s.kept = content)
        (Action.read wallClock : Work _) (Protocol.succeeds fun w s =>
          (∃ s', P.given s' ∧ s'.wallClock = w) ∧ (H s ∧ WasActive P active s) ∧
            s.kept = content) := by
      refine Protocol.does_read (hactive.stable_kept content) ?_ ?_
      · exact fun w s s' hrely hs => ⟨hs.1, hactive.stable_kept content s s' hrely hs.2⟩
      · intro s hinv hgiven hs
        exact ⟨(h.goesOn s s hs.1.1 hinv hgiven (.refl s)).1, ⟨s, hgiven, rfl⟩, hs⟩
    refine hclock.safe_bind ?_ (fun e s _ he => absurd he id) hs₃
    rintro w s₄ _ ⟨hw, hs₄⟩
    refine safe_keep h.shelved ?_
    intro s₅ hinv hgiven hrely
    obtain ⟨⟨hs₅, hwas⟩, rfl⟩ := hactive.stable_kept content s₄ s₅ hrely hs₄
    obtain ⟨m', hmove, hafter⟩ := hkeep hvalid.symm s₅ active w hinv hgiven hs₅ hwas hw
    exact ⟨m', hmove, fun s' _ hrely' => hQ m' _ _ s' hrely' hafter⟩
  · rintro e s₁ hinv ⟨hvalid, hs₁⟩
    exact hfail e hvalid.symm s₁ hinv hs₁

/-- The latest configuration is changed, and what comes of it is kept. -/
theorem KeepsAlone.safe_change (h : KeepsAlone P i m H) {user : String} {e : Edit}
    {Q : μ → Except QuotaError Unit → Site → Prop} (hQ : ∀ m' r, P.Stable m' (Q m' r))
    (hfail : ∀ s c err, P.inv s → H s → s.latestConfig = .ok c →
      attempt (.edit user e) c = .error err → Q m (.error err) s)
    (hkeep : ∀ s c c' active wallClock, P.inv s → P.given s → H s → s.latestConfig = .ok c →
      attempt (.edit user e) c = .ok c' → WasActive P active s →
      (∃ s', P.given s' ∧ s'.wallClock = wallClock) →
      ∃ m', P.move i m m' s (keepStamped wallClock active user c' s) ∧
        Q m' (.ok ()) (keepStamped wallClock active user c' s)) {s : Site} (hs : H s) :
    P.Safe i Q
      (do
        let config ← latest
        let edited ← Action.ofExcept ((config.edit e).mapError QuotaError.ofEdit)
        persist user edited : Work Unit).run m s := by
  refine h.does_latest.safe_bind ?_ ?_ hs
  · rintro c s₁ _ hs₁
    refine Protocol.Does.safe_bind (Protocol.does_ofExcept (h.stable_latest (.ok c))
      ((c.edit e).mapError QuotaError.ofEdit)) ?_ ?_ hs₁
    · rintro edited s₂ _ ⟨hedited, hs₂⟩
      have hlatest : KeepsAlone P i m fun s => H s ∧ s.latestConfig = .ok c :=
        { h with
          stable := h.stable_latest (.ok c)
          goesOn := fun s s' hs => h.goesOn s s' hs.1 }
      have hattempt := attempt_edit user hedited.symm
      refine hlatest.safe_persist hQ ?_ ?_ hs₂
      · intro err hinvalid s hinv hs
        refine hfail s c err hinv hs.1 hs.2 ?_
        rw [hattempt, hinvalid]
        rfl
      · intro hvalid s active w hinv hgiven hs
        refine hkeep s c edited active w hinv hgiven hs.1 hs.2 ?_
        rw [hattempt, hvalid]
        rfl
    · rintro err s₂ hinv ⟨hedited, hs₂, hc⟩
      exact hfail s₂ c err hinv hs₂ hc (attempt_edit_error user hedited.symm)
  · rintro err s₁ hinv ⟨-, hlatest⟩
    obtain ⟨c, hc⟩ := h.readable s₁ hinv
    rw [hc] at hlatest
    cases hlatest

/-- A caller that changes the configuration holds the lock, fails or keeps another one, and leaves
the lock. -/
theorem KeepsAlone.safe_admin (h : KeepsAlone P i m H) (hadmin : isAdmin i = true)
    {Q R : μ → Except QuotaError Unit → Site → Prop} (hQ : ∀ m' r, P.Stable m' (Q m' r))
    (hR : ∀ m' r, P.Stable m' (R m' r))
    (htake : ∀ s, P.inv s → s.server.locked = false →
      P.move i idle m s (lock.set true s) ∧ H (lock.set true s))
    (hfail : ∀ s c err, P.inv s → H s → s.latestConfig = .ok c → attempt i c = .error err →
      Q m (.error err) s)
    (hkeep : ∀ s c c' active wallClock, P.inv s → P.given s → H s → s.latestConfig = .ok c →
      attempt i c = .ok c' → WasActive P active s →
      (∃ s', P.given s' ∧ s'.wallClock = wallClock) →
      ∃ m', P.move i m m' s (keepStamped wallClock active (userOf i) c' s) ∧
        Q m' (.ok ()) (keepStamped wallClock active (userOf i) c' s))
    (hleave : ∀ m' r s, P.inv s → Q m' r s →
      ∃ m'', P.move i m' m'' s (lock.set false s) ∧ R m'' r (lock.set false s))
    (hforget : ∀ m' s s', R m' (.ok ()) s → P.inv s → P.given s → s.Undisturbed s' →
      P.move i m' m' s s' ∧ P.rely m' s s') (s : Site) :
    P.Safe i (fun m' r s => ∃ u, r = u.map (fun _ => Reply.done) ∧ R m' u s) (work i) idle s := by
  cases i with
  | update user config =>
      have hheld := Protocol.safe_holding lock (a := persist user config) hR htake
        (fun s hs => ?_) hleave s
      · refine Protocol.Safe.bind hheld ?_ ?_
        · exact fun m' u s' _ hs' => fun s'' _ hrely => ⟨.ok u, rfl, hR _ _ _ s'' hrely hs'⟩
        · exact fun m' e s' _ hs' => ⟨.error e, rfl, hs'⟩
      · refine h.safe_persist hQ ?_ ?_ hs
        · intro err hinvalid s hinv hs
          obtain ⟨c, hc⟩ := h.readable s hinv
          refine hfail s c err hinv hs hc ?_
          rw [attempt_update, hinvalid]
          rfl
        · intro hvalid s active w hinv hgiven hs
          obtain ⟨c, hc⟩ := h.readable s hinv
          refine hkeep s c config active w hinv hgiven hs hc ?_
          rw [attempt_update, hvalid]
          rfl
  | edit user e =>
      have hheld := Protocol.safe_holding lock hR htake
        (fun s hs => h.safe_change hQ hfail hkeep hs) hleave s
      refine Protocol.Safe.bind (Protocol.Safe.bind (R := R) hheld ?_ ?_) ?_ ?_
      · intro m' u s' _ hs'
        cases e with
        | deleteNamespace ns =>
            intro s₁ hinv hgiven hrely _
            have hs₁ := hR m' _ s' s₁ hrely hs'
            have hforgot : s₁.Undisturbed
                { s₁ with server.stats := s₁.server.stats.reset ns } :=
              ⟨⟨rfl, rfl, .refl _, rfl, .inl rfl, .inl rfl⟩, rfl, rfl⟩
            obtain ⟨hmove, hkept⟩ := hforget m' s₁ _ hs₁ hinv hgiven hforgot
            refine ⟨m', hmove, fun s₂ _ hrely' => ?_⟩
            exact hR m' _ _ s₂ hrely' (hR m' _ s₁ _ hkept hs₁)
        | _ => exact fun s'' _ hrely => hR _ _ _ s'' hrely hs'
      · exact fun m' e s' _ hs' => hs'
      · exact fun m' u s' _ hs' => fun s'' _ hrely => ⟨.ok u, rfl, hR _ _ _ s'' hrely hs'⟩
      · exact fun m' e s' _ hs' => ⟨.error e, rfl, hs'⟩
  | _ => cases hadmin

end Rules

end Site

end TokenQuota
