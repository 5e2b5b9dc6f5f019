import TokenQuota.Proofs.Server.Editing
import TokenQuota.Proofs.Server.Pursuit

/-!
A server that alone keeps its configurations in memory ends up with the one that is kept last,
whatever the order of the steps of those who keep configurations, start the server and apply
changes.
-/

namespace TokenQuota

namespace Site

namespace Duty

variable {s s' : Site}

theorem latestConfig_of_isLatest {c : ServiceConfig} (h : s.IsLatest c) :
    s.latestConfig = .ok c := by
  unfold IsLatest at h
  unfold latestConfig
  cases hkept : s.kept with
  | none =>
      rw [hkept] at h
      exact congrArg Except.ok h.symm
  | some content =>
      rw [hkept] at h
      exact (decodeChange_eq_ok_iff.mp h).1

theorem keepsAlone_editing (i : Request) :
    KeepsAlone rules i (some .editing) (IsTaken .editing) where
  shelved s hinv := hinv.shelved
  unkept s hinv hkept := (hinv.unkept hkept).1
  readable s hinv := by
    obtain ⟨c, hc⟩ := hinv.latest
    exact ⟨c, latestConfig_of_isLatest hc⟩
  stable s s' h hs := (h .editing rfl).taken hs
  storage s s' h := (h .editing rfl).storage rfl
  initial s s' h := (h .editing rfl).keepsOn.initial
  goesOn s s' hs hinv hgiven h := harmless_undisturbed.move_rely hinv hgiven h hs

theorem inv_lock (hinv : Inv s) (b : Bool) : Inv (lock.set b s) :=
  ⟨hinv.shelved, hinv.latest, hinv.unkept, hinv.wasStarted, hinv.behind, hinv.settled⟩

theorem rely_lock {d : Duty} (hd : d ≠ .editing) (b : Bool) : d.Rely s (lock.set b s) := by
  refine ⟨?_, keepsOn_congr rfl rfl, fun _ => rfl, fun _ => rfl, fun _ => .inr ⟨rfl, rfl⟩,
    fun h => absurd h hd⟩
  cases d with
  | loading => exact id
  | reloading => exact id
  | editing => exact absurd rfl hd

theorem move_to_editing (hinv : Inv s) (hfree : s.server.locked = false) :
    duties.Move none (some .editing) s (lock.set true s) := by
  have hnot : ¬IsTaken .editing s := by
    intro (hlocked : s.server.locked = true)
    rw [hfree] at hlocked
    cases hlocked
  constructor
  · exact inv_lock hinv true
  · exact id
  · intro d _ htaken
    refine rely_lock ?_ true
    rintro rfl
    exact hnot htaken
  · rintro _ ⟨⟩
    rfl
  · rintro _ ⟨⟩ _
    exact hnot

theorem move_from_editing (hinv : Inv s) :
    duties.Move (some .editing) none s (lock.set false s) := by
  constructor
  · exact inv_lock hinv false
  · exact id
  · intro d hne _
    refine rely_lock ?_ false
    rintro rfl
    exact hne rfl
  · rintro _ ⟨⟩
  · rintro _ ⟨⟩

/-- What is kept is stamped past what was kept before. -/
theorem precedes_kept {c active : ServiceConfig} {wallClock : UInt64} (hgiven : s.HasRoom)
    (hc : s.IsLatest c) (hactive : WasActive rules active s)
    (hclock : ∃ s', HasRoom s' ∧ s'.wallClock = wallClock) (user : String) (config : ServiceConfig) :
    c.Precedes (stamp wallClock active (stampOf s.kept) user config) := by
  obtain ⟨s₀, hinv₀, hgiven₀, rfl, hkept₀, hinitial₀⟩ := hactive
  obtain ⟨s₁, hgiven₁, rfl⟩ := hclock
  cases hkept : s.kept with
  | none =>
      unfold IsLatest at hc
      rw [hkept] at hc hkept₀
      rw [hc, ← hinitial₀, ← (hinv₀.unkept hkept₀).1]
      exact active_precedes_stamp hgiven₁.clock hgiven₀.active (by decide) user config
  | some content =>
      unfold IsLatest at hc
      rw [hkept] at hc
      have hstamp : stampOf (some content) = (c.version, c.date) := by
        rw [stampOf, Option.map_some, (decodeChange_eq_ok_iff.mp hc).1]
      rw [hstamp]
      exact kept_precedes_stamp hgiven₁.clock hgiven₀.active (hgiven.kept content c hkept hc) user
        config

theorem isLatest_putOnShelf (hs : s.IsShelved) {c : ServiceConfig} (hcheck : c.check = .ok ()) :
    (s.putOnShelf c.write).IsLatest c := by
  unfold IsLatest
  rw [kept_putOnShelf hs]
  exact decodeChange_eq_ok_iff.mpr ⟨decode_write c, hcheck⟩

/-- A later configuration is kept. -/
theorem move_editing (hinv : Inv s) (hs : IsTaken .editing s) {c c' : ServiceConfig}
    (hc : s.IsLatest c) (hcheck : c'.check = .ok ()) (hprecedes : c.Precedes c') :
    duties.Move (some .editing) (some .editing) s (s.putOnShelf c'.write) := by
  have hlatest := isLatest_putOnShelf hinv.shelved hcheck
  have hkept : (s.putOnShelf c'.write).kept ≠ none := by
    rw [kept_putOnShelf hinv.shelved]
    rintro ⟨⟩
  have hpending := pending_putOnShelf hinv.shelved c'.write
  constructor
  · constructor
    · exact isShelved_putOnShelf hinv.shelved _
    · exact ⟨c', hlatest⟩
    · exact fun hnone => absurd hnone hkept
    · exact hinv.wasStarted
    · intro hstarted l hl
      rw [hl.unique hlatest]
      exact (hinv.behind hstarted c hc).trans hprecedes
    · -- The change is signalled, so the active configuration may still be another one.
      intro _ _ hunnoticed
      rw [hpending] at hunnoticed
      cases hunnoticed
  · exact fun _ => hkept
  · intro d hne _
    refine ⟨?_, ⟨rfl, fun _ => hkept, ?_⟩, fun _ => rfl, fun _ => rfl, fun _ => .inl hpending, ?_⟩
    · cases d with
      | loading => exact id
      | reloading => exact id
      | editing => exact id
    · intro l hl
      rw [hl.unique hc]
      exact ⟨c', hlatest, hprecedes⟩
    · rintro rfl
      exact absurd rfl hne
  · rintro _ ⟨⟩
    exact hs
  · exact fun _ hd hne => absurd hd hne

theorem safe_admin {i : Request} (hadmin : isAdmin i = true) (s : Site) :
    rules.Safe i (fun _ _ _ => True) (work i) none s := by
  refine ((keepsAlone_editing i).safe_admin hadmin
    (Q := fun m _ s => m = some .editing ∧ IsTaken .editing s) (R := fun m _ _ => m = none)
    ?_ ?_ ?_ ?_ ?_ ?_ ?_ s).mono fun _ _ _ _ _ => trivial
  · rintro m' r s s' h ⟨rfl, hs⟩
    exact ⟨rfl, (h .editing rfl).taken hs⟩
  · exact fun m' r s s' _ hm => hm
  · exact fun s hinv hfree => ⟨move_to_editing hinv hfree, rfl⟩
  · exact fun s c err _ hs _ _ => ⟨rfl, hs⟩
  · intro s c c' active wallClock hinv hgiven hs hlatest hattempt hactive hclock
    obtain ⟨l, hl⟩ := hinv.latest
    have hcheck := (check_stamp wallClock active (stampOf s.kept) (userOf i) c').trans
      (check_of_attempt hadmin hattempt)
    exact ⟨some .editing, move_editing hinv hs hl hcheck
      (precedes_kept hgiven hl hactive hclock _ c'), rfl, hs⟩
  · rintro m' r s hinv ⟨rfl, hs⟩
    exact ⟨none, move_from_editing hinv, rfl⟩
  · rintro m' s s' rfl hinv hgiven h
    refine ⟨harmless_undisturbed.move hinv hgiven h ?_, ?_⟩
    · rintro _ ⟨⟩
    · rintro _ ⟨⟩

theorem safe_work (r : Request) (s : Site) :
    rules.Safe r (fun _ _ _ => True) (work r) none s := by
  cases hminor : isMinor r with
  | true => exact (harmless_undisturbed.safe (undisturbed_work hminor)).mono fun _ _ _ _ _ => trivial
  | false =>
      have hnone : ∀ (s : Site) (d : Duty), none = some d → d.IsTaken s := by
        rintro s d ⟨⟩
      cases r with
      | start =>
          refine safe_start stable_starting stable_loaded ?_ ?_ (does_loadFirst .start)
            (fun s hinv hs => move_to_created hinv hs) (fun s hinv hs => move_to_started hinv hs) s
          · exact fun s hinv => Duties.move_refl hinv (hnone s)
          · exact fun s hinv hcreated => ⟨move_to_starting hinv hcreated, rfl⟩
      | round =>
          exact safe_round stable_pursuing stable_concluded
            (fun s hinv hready => move_takeUp hinv hready) (does_handleChange .round)
            (fun s hinv hs => move_leaveOff hinv hs) s
      | update user config => exact safe_admin rfl s
      | edit user e => exact safe_admin rfl s
      | history =>
          have hhistory : rules.Does .history none (fun _ => True) history fun _ _ => True :=
            does_history (fun s hinv => hinv.shelved) (fun _ _ _ h => h)
              fun s hinv _ _ => Duties.move_refl hinv (hnone s)
          refine hhistory.safe_bind (Q := fun _ _ _ => True) ?_ (fun _ _ _ _ => trivial) trivial
          exact fun contents s₁ _ _ => fun _ _ _ => trivial
      | _ => cases hminor

theorem inv_of_isFresh (hfresh : s.IsFresh) (hs : s.IsInOrder) : Inv s := by
  obtain ⟨initial, sweepMillis, retry, since, heq⟩ := hfresh
  have hnot : ¬s.WasStarted := by
    rintro (h | h) <;> rw [heq] at h <;> cases h
  constructor
  · exact hs.shelved
  · cases hkept : s.kept with
    | none =>
        refine ⟨s.server.initial, ?_⟩
        unfold IsLatest
        rw [hkept]
    | some content =>
        obtain ⟨c, hc⟩ := hs.wellFormed content hkept
        refine ⟨c, ?_⟩
        unfold IsLatest
        rw [hkept]
        exact hc
  · intro hkept
    refine ⟨?_, hs.unnoticed hkept⟩
    rw [activeConfig, heq]
    rfl
  · rintro (h | h) <;> rw [heq] at h <;> cases h
  · exact fun h => absurd h hnot
  · exact fun h => absurd h hnot

theorem beyond_harmless (hinv : Inv s) (h : s.Beyond s') :
    Inv s' ∧ ∀ d : Duty, d.IsTaken s → d.Rely s s' :=
  ⟨inv_of_undisturbed hinv (.of_beyond h), fun d _ => rely_of_undisturbed (.of_beyond h) d⟩

/-- What is kept when a round starts is kept during all of it. -/
theorem kept_of_isRound {n : Nat} {es : List (Event Site)} {attempt : List (Site × Site)}
    {result : Except QuotaError UInt64} (hround : IsRound (Pool.changesOf n es) attempt result)
    (hinv : ∀ e ∈ es, Inv e.before)
    (hkept : es.Pairwise fun e e' => e.before.kept ≠ none → e'.before.kept ≠ none) :
    ∀ c ∈ attempt, Inv c.1 ∧ c.1.kept ≠ none := by
  obtain ⟨s₁, s₂, s₃, hready, hchanges⟩ := hround.changes
  have hpairwise := Pool.pairwise_changesOf (R := fun s s' : Site => s.kept ≠ none → s'.kept ≠ none)
    n hkept
  have hinvs : ∀ c ∈ Pool.changesOf n es, Inv c.1 := by
    intro c hc
    obtain ⟨e, he, -, rfl⟩ := Pool.mem_of_mem_changesOf hc
    exact hinv e he
  rw [hchanges] at hpairwise hinvs
  -- A round takes up a signal, and nothing is signalled before something is kept.
  have hstart : s₁.kept ≠ none := by
    intro hnone
    rw [mayReload, Bool.and_eq_true] at hready
    rw [((hinvs _ List.mem_cons_self).unkept hnone).2] at hready
    cases hready.2
  intro c hc
  have hmem := List.mem_append_left [(s₂, s₂.report (.ofResult result)), (s₃, s₃.leaveOff)] hc
  exact ⟨hinvs c (List.mem_cons_of_mem _ hmem), (List.pairwise_cons.mp hpairwise).1 c hmem hstart⟩

/-- Where something well formed is kept, an attempt can only fail to prepare the store. -/
theorem isUnprepared_of_error {attempt : List (Site × Site)} {e : QuotaError}
    (h : Task.Ends reload.run attempt (.error e))
    (hkept : ∀ c ∈ attempt, Inv c.1 ∧ c.1.kept ≠ none) : IsUnprepared attempt e := by
  have hshelved : ∀ c ∈ attempt, c.1.IsShelved := fun c hc => (hkept c hc).1.shelved
  cases cause_of_ends h with
  | unread h =>
      obtain ⟨c, -, heq⟩ := ends_readArchive h hshelved
      cases heq
  | nothing h =>
      obtain ⟨c, hc, heq⟩ := ends_readArchive h hshelved
      exact absurd (Except.ok.inj heq).symm (hkept c hc).2
  | illFormed content h hdecode =>
      obtain ⟨c, hc, heq⟩ := ends_readArchive h hshelved
      obtain ⟨l, hl⟩ := (hkept c hc).1.latest
      have hfound : c.1.kept = some content := (Except.ok.inj heq).symm
      unfold IsLatest at hl
      rw [hfound] at hl
      rw [hl] at hdecode
      cases hdecode
  | unprepared config before prepare e' h hbefore hattempt he =>
      exact ⟨config, before, prepare, e', hattempt, h, he⟩

end Duty

/-- A server that alone keeps its configurations in memory converges: once it was started, and no
change is signalled or being applied, nothing was ever kept, or the active configuration is the one
that is kept, or it was reported why not. Whatever is kept is well formed, and a round can only
fail to prepare the store. -/
theorem convergence {s₀ : Site} {es : List (Event Site)}
    {p : Pool Request Site (Except QuotaError Reply)} (hfresh : s₀.IsFresh)
    (horder : s₀.IsInOrder) (hrun : Pool.Run work Beyond s₀ es p)
    (hroom : ∀ e ∈ es, e.before.HasRoom) :
    (p.state.WasStarted → p.state.server.reloader ≠ .busy → p.state.archive.pending = false →
      p.state.kept = none ∨
      (∃ content, p.state.kept = some content ∧ decode content = .ok p.state.activeConfig) ∨
      ∃ e, p.state.server.outcome = .failed e) ∧
    (∀ content, p.state.kept = some content → ∃ c, decodeChange content = .ok c) ∧
    (∀ (n : Nat) (r : Except QuotaError Reply), p.callers[n]? = some ⟨.round, .done r⟩ →
      ∃ attempt result, IsRound (Pool.changesOf n es) attempt result ∧
        ∀ e, result = .error e → IsUnprepared attempt e) := by
  obtain ⟨hinv, hevents⟩ := Duty.duties.inv_of_run
    (fun _ _ hinv h => Duty.beyond_harmless hinv h) Duty.safe_work
    (Duty.inv_of_isFresh hfresh horder) hrun hroom
  refine ⟨?_, ?_, ?_⟩
  · intro hstarted hnot hpending
    rcases hinv.settled hstarted hnot hpending with hlatest | hfailed
    · unfold IsLatest at hlatest
      cases hkept : p.state.kept with
      | none => exact .inl rfl
      | some content =>
          rw [hkept] at hlatest
          exact .inr (.inl ⟨content, rfl, (decodeChange_eq_ok_iff.mp hlatest).1⟩)
    · exact .inr (.inr hfailed)
  · intro content hkept
    obtain ⟨c, hc⟩ := hinv.latest
    unfold IsLatest at hc
    rw [hkept] at hc
    exact ⟨c, hc⟩
  · intro n r hn
    obtain ⟨attempt, result, hround⟩ := isRound_of_ends (hrun.steps hn)
    refine ⟨attempt, result, hround, ?_⟩
    rintro e rfl
    have hkept := (hrun.pairwise_of_kept (K := fun s : Site => s.kept ≠ none)
      (fun e he => (hevents e he).2) ?_).1
    · exact Duty.isUnprepared_of_error hround.ends
        (Duty.kept_of_isRound hround (fun e he => (hevents e he).1) hkept)
    · intro s s' h hs
      rwa [kept_congr (congrArg Archive.storage h.archive)]

/-- A server is started, a configuration is kept, and the change is applied: the active
configuration is the one that is kept. -/
theorem convergence_update :
    let started := ((work .start).run (fun _ s => s) (fresh (.ofStorage (.shelf .empty)))).2
    let updated := ((work (.update "admin" .empty)).run (fun _ s => s) started).2
    let s := ((work .round).run (fun _ s => s) updated).2
    s.activeConfig.version = 1 ∧
      ∃ content, s.kept = some content ∧ decode content = .ok s.activeConfig := by
  intro started updated s
  have h₀ : Pool.Run work Beyond (fresh (.ofStorage (.shelf .empty))) []
      ⟨fresh (.ofStorage (.shelf .empty)), []⟩ := .start
  obtain ⟨es₁, r₁, h₁, -, hvisits₁⟩ := h₀.joinAndFinish .start (by decide +kernel)
  have hends₂ : ((work (.update "admin" .empty)).run (fun _ s => s) started).1.isSome = true := by
    decide +kernel
  obtain ⟨es₂, r₂, h₂, -, hvisits₂⟩ := h₁.joinAndFinish (.update "admin" .empty) hends₂
  have hends₃ : ((work .round).run (fun _ s => s) updated).1.isSome = true := by
    decide +kernel
  obtain ⟨es₃, r₃, h₃, -, hvisits₃⟩ := h₂.joinAndFinish .round hends₃
  have hrun : Pool.Run work Beyond (fresh (.ofStorage (.shelf .empty))) es₃
      ⟨s, [⟨.start, .done r₁⟩, ⟨.update "admin" .empty, .done r₂⟩, ⟨.round, .done r₃⟩]⟩ := h₃
  have hvisits : es₃.map Event.before = (work .start).visits (fresh (.ofStorage (.shelf .empty))) ++
      (work (.update "admin" .empty)).visits started ++ (work .round).visits updated := by
    rw [hvisits₃, hvisits₂, hvisits₁]
    rfl
  have hroom : ∀ s ∈ es₃.map Event.before, s.HasRoom := by
    have hall : ∀ s ∈ (work .start).visits (fresh (.ofStorage (.shelf .empty))) ++
        (work (.update "admin" .empty)).visits started ++ (work .round).visits updated,
        s.HasRoom := by
      decide +kernel
    rwa [hvisits]
  have horder : (fresh (.ofStorage (.shelf .empty))).IsInOrder := by
    refine ⟨rfl, fun _ => rfl, ?_⟩
    rintro content ⟨⟩
  have hconverged : ∀ (s : Site) (callers : List (Caller Request Site (Except QuotaError Reply))),
      Pool.Run work Beyond (fresh (.ofStorage (.shelf .empty))) es₃ ⟨s, callers⟩ →
      s.server.lifecycle = .started ∧ s.server.reloader ≠ .busy ∧ s.archive.pending = false →
      s.kept ≠ none ∧ s.server.outcome = .applied 1 →
      ∃ content, s.kept = some content ∧ decode content = .ok s.activeConfig := by
    rintro s callers hrun ⟨hstarted, hidle, hpending⟩ ⟨hsome, happlied⟩
    have h := convergence (isFresh_fresh _) horder hrun fun e he => hroom _ (List.mem_map_of_mem he)
    rcases h.1 (.inl hstarted) hidle hpending with hnone | hkept | ⟨e, hfailed⟩
    · exact absurd hnone hsome
    · exact hkept
    · cases hfailed.symm.trans happlied
  exact ⟨by decide +kernel, hconverged s _ hrun (by decide +kernel) (by decide +kernel)⟩

end Site

end TokenQuota
