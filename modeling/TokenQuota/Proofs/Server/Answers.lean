import TokenQuota.Proofs.Server.Editing

/-!
What a request for a change makes of the configuration that is kept, if it is alone. Versions and
dates make no difference to it.
-/

namespace TokenQuota

namespace ServiceConfig

/-- A configuration apart from its version and its date. -/
def unstamped (c : ServiceConfig) : ServiceConfig := { c with version := 0, date := 0 }

/-- A configuration in the name of a user. -/
def signed (c : ServiceConfig) (user : String) : ServiceConfig := { c with user }

/-- Whether and how a configuration can be changed does not depend on its stamp. -/
theorem edit_unstamped (c : ServiceConfig) (e : Edit) :
    c.unstamped.edit e = (c.edit e).map unstamped := by
  obtain ⟨version, date, user, globalDefault, namespaces⟩ := c
  cases e with
  | addNamespace ns =>
      cases h : namespaces.contains ns.name <;> simp [edit, addNamespace, unstamped, h, Except.map]
  | updateNamespace ns =>
      cases h : namespaces.contains ns.name <;>
        simp [edit, updateNamespace, unstamped, h, Except.map]
  | deleteNamespace name =>
      cases h : namespaces.get? name <;> simp [edit, deleteNamespace, unstamped, h, Except.map]
  | addBucket name bucketName bucket =>
      cases h : namespaces.get? name with
      | none => simp [edit, addBucket, unstamped, h, Except.map]
      | some ns =>
          cases hbucket : ns.buckets.contains bucketName <;>
            simp [edit, addBucket, setNamespace, unstamped, h, hbucket, Except.map]
  | updateBucket name bucketName bucket =>
      cases h : namespaces.get? name with
      | none => simp [edit, updateBucket, unstamped, h, Except.map]
      | some ns =>
          cases hbucket : ns.buckets.contains bucketName <;>
            simp [edit, updateBucket, setNamespace, unstamped, h, hbucket, Except.map]
  | deleteBucket name bucketName =>
      cases h : namespaces.get? name with
      | none => simp [edit, deleteBucket, unstamped, h, Except.map]
      | some ns =>
          cases hbucket : ns.buckets.get? bucketName <;>
            simp [edit, deleteBucket, setNamespace, unstamped, h, hbucket, Except.map]

end ServiceConfig

namespace Site

/-- The configuration that is kept, apart from its version and its date. -/
def keptConfig (s : Site) : Option ServiceConfig :=
  s.kept.bind fun content => (decode content).toOption.map ServiceConfig.unstamped

/-- What a request for a change answers if it is alone, and what is kept then. A change that fails
leaves what is kept alone. -/
def answer (initial : ServiceConfig) (i : Request) (kept : Option ServiceConfig) :
    Except QuotaError Reply × Option ServiceConfig :=
  match attempt i (kept.getD initial) with
  | .ok c => (.ok .done, some (c.unstamped.signed (userOf i)))
  | .error e => (.error e, kept)

theorem attempt_unstamped {i : Request} (hadmin : isAdmin i = true) (c : ServiceConfig) :
    (attempt i c.unstamped).map ServiceConfig.unstamped =
      (attempt i c).map ServiceConfig.unstamped := by
  cases i with
  | update user config => rfl
  | edit user e =>
      cases hedit : (c.edit e).mapError QuotaError.ofEdit with
      | ok edited =>
          have hedited : (c.unstamped.edit e).mapError QuotaError.ofEdit = .ok edited.unstamped := by
            rw [c.edit_unstamped]
            cases h : c.edit e with
            | ok c' =>
                rw [h] at hedit
                cases hedit
                rfl
            | error err =>
                rw [h] at hedit
                cases hedit
          rw [attempt_edit user hedit, attempt_edit user hedited]
          change ((validate edited).map fun _ => edited.unstamped).map _ = _
          cases validate edited <;> rfl
      | error err =>
          have hrefused : (c.unstamped.edit e).mapError QuotaError.ofEdit = .error err := by
            rw [c.edit_unstamped]
            cases h : c.edit e with
            | ok c' =>
                rw [h] at hedit
                cases hedit
            | error err' =>
                rw [h] at hedit
                cases hedit
                rfl
          rw [attempt_edit_error user hedit, attempt_edit_error user hrefused]
  | _ => cases hadmin

variable {s s' : Site}

theorem keptConfig_congr (hstorage : s'.archive.storage = s.archive.storage) :
    s'.keptConfig = s.keptConfig := by
  unfold keptConfig
  rw [kept_congr hstorage]

theorem keptConfig_putOnShelf (h : s.IsShelved) (c : ServiceConfig) :
    (s.putOnShelf c.write).keptConfig = some c.unstamped := by
  rw [keptConfig, kept_putOnShelf h, Option.bind_some, decode_write]
  rfl

theorem attempt_keptConfig {i : Request} (hadmin : isAdmin i = true) {c : ServiceConfig}
    (hc : s.latestConfig = .ok c) :
    (attempt i (s.keptConfig.getD s.server.initial)).map ServiceConfig.unstamped =
      (attempt i c).map ServiceConfig.unstamped := by
  unfold latestConfig at hc
  unfold keptConfig
  cases hkept : s.kept with
  | none =>
      rw [hkept] at hc
      cases hc
      rfl
  | some content =>
      rw [hkept] at hc
      have hdecode : decode content = .ok c := hc
      rw [Option.bind_some, hdecode]
      exact attempt_unstamped hadmin c

theorem answer_of_attempt {i : Request} (hadmin : isAdmin i = true) {c c' : ServiceConfig}
    (hc : s.latestConfig = .ok c) (hattempt : attempt i c = .ok c') :
    answer s.server.initial i s.keptConfig =
      (.ok .done, some (c'.unstamped.signed (userOf i))) := by
  have h := attempt_keptConfig hadmin hc
  rw [hattempt] at h
  unfold answer
  cases hkept : attempt i (s.keptConfig.getD s.server.initial) with
  | ok l =>
      rw [hkept] at h
      have hunstamped : l.unstamped = c'.unstamped := Except.ok.inj h
      rw [← hunstamped]
  | error e =>
      rw [hkept] at h
      cases h

theorem answer_of_attempt_error {i : Request} (hadmin : isAdmin i = true) {c : ServiceConfig}
    {e : QuotaError} (hc : s.latestConfig = .ok c) (hattempt : attempt i c = .error e) :
    answer s.server.initial i s.keptConfig = (.error e, s.keptConfig) := by
  have h := attempt_keptConfig hadmin hc
  rw [hattempt] at h
  unfold answer
  cases hkept : attempt i (s.keptConfig.getD s.server.initial) with
  | ok l =>
      rw [hkept] at h
      cases h
  | error e' =>
      rw [hkept] at h
      cases h
      rfl

end Site

end TokenQuota
