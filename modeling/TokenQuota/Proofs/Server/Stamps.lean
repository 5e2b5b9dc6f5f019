import TokenQuota.Server.Admin
import TokenQuota.Server.Applying

/-!
Versions and dates move on: when a configuration is applied, and when one is kept.
-/

namespace TokenQuota

/-- No version comes after this one. -/
def lastVersion : UInt64 := 18446744073709551615

theorem toNat_max (a b : UInt64) : (max a b).toNat = max a.toNat b.toNat := by
  change (if a ≤ b then b else a).toNat = _
  split
  · rename_i h
    rw [Nat.max_eq_right (UInt64.le_iff_toNat_le.mp h)]
  · rename_i h
    have hle : ¬a.toNat ≤ b.toNat := fun hle => h (UInt64.le_iff_toNat_le.mpr hle)
    omega

theorem left_le_max (a b : UInt64) : a ≤ max a b := by
  rw [UInt64.le_iff_toNat_le, toNat_max]
  exact Nat.le_max_left _ _

theorem right_le_max (a b : UInt64) : b ≤ max a b := by
  rw [UInt64.le_iff_toNat_le, toNat_max]
  exact Nat.le_max_right _ _

theorem toNat_succ {a : UInt64} (h : a ≠ lastVersion) : (a + 1).toNat = a.toNat + 1 := by
  have hlt : a.toNat < 2 ^ 64 := a.toNat_lt
  have hne : a.toNat ≠ 18446744073709551615 := fun heq => h (UInt64.toNat.inj heq)
  rw [UInt64.toNat_add, UInt64.toNat_one, Nat.mod_eq_of_lt]
  omega

theorem max_ne_last {a b : UInt64} (ha : a ≠ lastVersion) (hb : b ≠ lastVersion) :
    max a b ≠ lastVersion := by
  change (if a ≤ b then b else a) ≠ lastVersion
  split
  · exact hb
  · exact ha

namespace ServiceConfig

/-- A configuration is the same as another one, or the other one was stamped past it. -/
def Precedes (a c : ServiceConfig) : Prop :=
  a = c ∨ (a.version < c.version ∧ a.date ≤ c.date ∧ c.date ≠ 0)

theorem Precedes.refl (c : ServiceConfig) : c.Precedes c := .inl rfl

theorem Precedes.trans {a b c : ServiceConfig} (h : a.Precedes b) (h' : b.Precedes c) :
    a.Precedes c := by
  rcases h with rfl | ⟨hversion, hdate, hzero⟩
  · exact h'
  · rcases h' with rfl | ⟨hversion', hdate', hne⟩
    · exact .inr ⟨hversion, hdate, hzero⟩
    · exact .inr ⟨UInt64.lt_trans hversion hversion', UInt64.le_trans hdate hdate', hne⟩

theorem Precedes.version_le {a c : ServiceConfig} (h : a.Precedes c) : a.version ≤ c.version := by
  rcases h with rfl | ⟨hversion, -⟩
  · exact UInt64.le_refl _
  · exact UInt64.le_of_lt hversion

end ServiceConfig

namespace Site

theorem validate_eq_ok_iff {config : ServiceConfig} {u : Unit} :
    validate config = .ok u ↔ config.check = .ok () := by
  unfold validate
  cases config.check with
  | ok v => exact ⟨fun _ => rfl, fun _ => rfl⟩
  | error e =>
      constructor
      · rintro ⟨⟩
      · rintro ⟨⟩

theorem decodeChange_eq_ok_iff {content : Bytes} {config : ServiceConfig} :
    decodeChange content = .ok config ↔ decode content = .ok config ∧ config.check = .ok () := by
  cases hdecode : decode content with
  | error e =>
      have hfail : decodeChange content = .error
          (.configApply s!"Cannot decode configuration: {e.message}") := by
        rw [decodeChange, hdecode]
        rfl
      rw [hfail]
      constructor
      · rintro ⟨⟩
      · rintro ⟨⟨⟩, -⟩
  | ok c =>
      have hvalidate : decodeChange content =
          ((validate c).mapError fun e => .configApply e.message).map fun _ => c := by
        rw [decodeChange, hdecode]
        rfl
      rw [hvalidate]
      cases hvalid : validate c with
      | ok u =>
          constructor
          · rintro ⟨⟩
            exact ⟨rfl, validate_eq_ok_iff.mp hvalid⟩
          · rintro ⟨⟨⟩, -⟩
            rfl
      | error e =>
          constructor
          · rintro ⟨⟩
          · rintro ⟨⟨⟩, hcheck⟩
            rw [validate_eq_ok_iff (u := ()) |>.mpr hcheck] at hvalid
            cases hvalid

theorem check_restamp (wallClock : UInt64) (active config : ServiceConfig) :
    (restamp wallClock active config).check = config.check := rfl

theorem version_lt_restamp {active : ServiceConfig} (h : active.version ≠ lastVersion)
    (wallClock : UInt64) (config : ServiceConfig) :
    active.version < (restamp wallClock active config).version := by
  rw [UInt64.lt_iff_toNat_lt]
  change _ < (max config.version (active.version + 1)).toNat
  rw [toNat_max, toNat_succ h]
  omega

/-- A version that the active one is not behind of is left for the next one. -/
theorem version_restamp_of_le {active config : ServiceConfig}
    (h : config.version ≤ active.version) (hlast : active.version ≠ lastVersion)
    (wallClock : UInt64) : (restamp wallClock active config).version = active.version + 1 := by
  refine UInt64.toNat.inj ?_
  change (max config.version (active.version + 1)).toNat = _
  rw [toNat_max, toNat_succ hlast]
  have hle := UInt64.le_iff_toNat_le.mp h
  omega

theorem date_le_restamp (wallClock : UInt64) (active config : ServiceConfig) :
    active.date ≤ (restamp wallClock active config).date := by
  rw [UInt64.le_iff_toNat_le]
  change _ ≤ (max _ active.date).toNat
  rw [toNat_max]
  exact Nat.le_max_right _ _

/-- What was stamped past the active configuration is applied as it is. -/
theorem restamp_eq_self {active config : ServiceConfig} (h : active.Precedes config)
    (hne : config ≠ active) (wallClock : UInt64) : restamp wallClock active config = config := by
  rcases h with rfl | ⟨hversion, hdate, hzero⟩
  · exact absurd rfl hne
  · have hversion' := UInt64.lt_iff_toNat_lt.mp hversion
    have hdate' := UInt64.le_iff_toNat_le.mp hdate
    have hsucc : (active.version + 1).toNat = active.version.toNat + 1 := by
      refine toNat_succ ?_
      rintro heq
      have hlt : config.version.toNat < 2 ^ 64 := config.version.toNat_lt
      rw [heq] at hversion'
      change 18446744073709551615 < _ at hversion'
      omega
    have hmax : max config.version (active.version + 1) = config.version := by
      refine UInt64.toNat.inj ?_
      rw [toNat_max, hsucc]
      omega
    have hmaxDate : max config.date active.date = config.date := by
      refine UInt64.toNat.inj ?_
      rw [toNat_max]
      omega
    simp only [restamp, if_neg hzero, hmax, hmaxDate]

theorem check_stamp (wallClock : UInt64) (active : ServiceConfig) (kept : UInt64 × UInt64)
    (user : String) (config : ServiceConfig) :
    (stamp wallClock active kept user config).check = config.check := rfl

theorem date_stamp_ne_zero {wallClock : UInt64} (h : wallClock ≠ 0) (active : ServiceConfig)
    (kept : UInt64 × UInt64) (user : String) (config : ServiceConfig) :
    (stamp wallClock active kept user config).date ≠ 0 := by
  intro heq
  have hzero : wallClock.toNat ≠ 0 := fun hzero => h (UInt64.toNat.inj hzero)
  have hdate : (max (max wallClock active.date) kept.2).toNat = 0 := congrArg UInt64.toNat heq
  rw [toNat_max, toNat_max] at hdate
  omega

/-- A version that neither the active configuration nor the kept one is behind. -/
theorem version_lt_stamp {active : ServiceConfig} {kept : UInt64 × UInt64} {version : UInt64}
    (hactive : active.version ≠ lastVersion) (hkept : kept.1 ≠ lastVersion)
    (h : version ≤ max active.version kept.1) (wallClock : UInt64) (user : String)
    (config : ServiceConfig) : version < (stamp wallClock active kept user config).version := by
  have hle := UInt64.le_iff_toNat_le.mp h
  rw [UInt64.lt_iff_toNat_lt]
  change _ < (max active.version kept.1 + 1).toNat
  rw [toNat_succ (max_ne_last hactive hkept)]
  omega

theorem date_le_stamp {active : ServiceConfig} {kept : UInt64 × UInt64} {date : UInt64}
    (h : date ≤ max active.date kept.2) (wallClock : UInt64) (user : String)
    (config : ServiceConfig) : date ≤ (stamp wallClock active kept user config).date := by
  have hle := UInt64.le_iff_toNat_le.mp h
  rw [toNat_max] at hle
  rw [UInt64.le_iff_toNat_le]
  change _ ≤ (max (max wallClock active.date) kept.2).toNat
  rw [toNat_max, toNat_max]
  omega

/-- What neither the active configuration nor the kept one is behind is stamped past. -/
theorem precedes_stamp {wallClock : UInt64} (hclock : wallClock ≠ 0) {a active : ServiceConfig}
    {kept : UInt64 × UInt64} (hactive : active.version ≠ lastVersion)
    (hkept : kept.1 ≠ lastVersion) (hversion : a.version ≤ max active.version kept.1)
    (hdate : a.date ≤ max active.date kept.2) (user : String) (config : ServiceConfig) :
    a.Precedes (stamp wallClock active kept user config) :=
  .inr ⟨version_lt_stamp hactive hkept hversion wallClock user config,
    date_le_stamp hdate wallClock user config, date_stamp_ne_zero hclock active kept user config⟩

theorem active_precedes_stamp {wallClock : UInt64} (hclock : wallClock ≠ 0)
    {active : ServiceConfig} {kept : UInt64 × UInt64} (hactive : active.version ≠ lastVersion)
    (hkept : kept.1 ≠ lastVersion) (user : String) (config : ServiceConfig) :
    active.Precedes (stamp wallClock active kept user config) :=
  precedes_stamp hclock hactive hkept (left_le_max _ _) (left_le_max _ _) user config

theorem kept_precedes_stamp {wallClock : UInt64} (hclock : wallClock ≠ 0)
    {active kept : ServiceConfig} (hactive : active.version ≠ lastVersion)
    (hkept : kept.version ≠ lastVersion) (user : String) (config : ServiceConfig) :
    kept.Precedes (stamp wallClock active (kept.version, kept.date) user config) :=
  precedes_stamp hclock hactive hkept (right_le_max _ _) (right_le_max _ _) user config

end Site

end TokenQuota
