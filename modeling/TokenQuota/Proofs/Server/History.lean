import TokenQuota.Proofs.Archive.Contents
import TokenQuota.Proofs.Server.Changes
import TokenQuota.Proofs.Server.Stamps
import TokenQuota.Proofs.Task.Sessions
import TokenQuota.Proofs.Task.Trails

/-!
The history of what servers keep in memory, one server after the other: one configuration for each
request for a change that succeeds, in the order in which they took effect.
-/

namespace TokenQuota

namespace Site

open TokenQuota.Digest (NoCollision)

variable {s s' : Site} {initial : ServiceConfig} {i : Request}

/-- The versions of the active configuration and of the kept one can be exceeded. -/
structure CanGrow (s : Site) : Prop where
  active : s.activeConfig.version ≠ lastVersion
  kept : (stampOf s.kept).1 ≠ lastVersion

/-- Nobody but the server keeps anything. -/
structure Outlying (s s' : Site) : Prop where
  server : s'.server = s.server
  storage : s'.archive.storage = s.archive.storage

/-- Another server comes instead, over what is kept. -/
structure Restarted (s s' : Site) : Prop where
  isFresh : s'.IsFresh
  storage : s'.archive.storage = s.archive.storage

/-- A configuration is stamped past the one that is kept. -/
structure IsPast (kept : Option Bytes) (c : ServiceConfig) : Prop where
  version : (stampOf kept).1 < c.version
  date : (stampOf kept).2 ≤ c.date

instance (s : Site) : Decidable s.CanGrow :=
  decidable_of_iff (s.activeConfig.version ≠ lastVersion ∧ (stampOf s.kept).1 ≠ lastVersion)
    ⟨fun h => ⟨h.1, h.2⟩, fun h => ⟨h.active, h.kept⟩⟩

/-- A step keeps a configuration, or nothing. -/
inductive Keeping : Site → Site → Option ServiceConfig → Prop
  | nothing {s s' : Site} (hstorage : s'.archive.storage = s.archive.storage) : Keeping s s' none
  | config {s : Site} {c : ServiceConfig} (hcheck : c.check = .ok ()) (hpast : IsPast s.kept c) :
      Keeping s (s.putOnShelf c.write) (some c)

/-- A configuration is what a request makes of some configuration, in the name of its user. -/
def Fulfils (i : Request) (c : ServiceConfig) : Prop :=
  c.user = userOf i ∧ ∃ latest edited, attempt i latest = .ok edited ∧
    c.unstamped = edited.unstamped.signed (userOf i)

/-- A request has kept nothing so far, or one configuration that it asked for. -/
def KeepsOnce (i : Request) (l : List ServiceConfig) : Prop :=
  l = [] ∨ ∃ c, l = [c] ∧ isAdmin i = true ∧ Fulfils i c

/-- The configurations that requests keep. -/
def keepings (initial : ServiceConfig) : Trail Request Unit Site ServiceConfig where
  duties := { locking initial with given := CanGrow }
  Amounts := Keeping
  Allows := KeepsOnce
  allows_nil _ := .inl rfl
  Grows s s' := s.keptConfig ≠ none → s'.keptConfig ≠ none
  grows_refl _ := id
  grows_trans h h' := h' ∘ h

abbrev keepingRules (initial : ServiceConfig) :
    Protocol Request (Option Unit × List ServiceConfig) Site :=
  (keepings initial).protocol

theorem keeping_aside {m m' : Option Unit} {l : List ServiceConfig}
    (hmove : (locking initial).Move m m' s s')
    (hstorage : s'.archive.storage = s.archive.storage) (hl : KeepsOnce i l) :
    (keepingRules initial).move i (m, l) (m', l) s s' := by
  refine ⟨⟨hmove.inv, trivial, hmove.others, hmove.taken, hmove.free⟩, ?_, none,
    .nothing hstorage, (List.append_nil l).symm, hl⟩
  intro (hsome : s.keptConfig ≠ none)
  rwa [← keptConfig_congr hstorage] at hsome

theorem keeping_leavesKept {m : Option Unit} {l : List ServiceConfig}
    (hmove : (locking initial).Move m m s s') (h : s.LeavesKept s')
    (hl : KeepsOnce i l) :
    (keepingRules initial).move i (m, l) (m, l) s s' ∧
      (keepingRules initial).rely (m, l) s s' :=
  ⟨keeping_aside hmove h.storage hl, (keeping_aside (i := i) hmove h.storage hl).2.1,
    fun _ _ => h.lockHeld⟩

theorem bystands_keeping : Bystands (keepingRules initial) initial i (none, []) where
  sound _ hinv := hinv
  grows _ _ h := h.1
  goesOn s s' hinv hs hactive :=
    keeping_leavesKept (move_leavesKept hinv hs hactive (by rintro ⟨⟩)) hs (.inl rfl)

theorem move_keeping (hadmin : isAdmin i = true) (hs : IsSound initial s) (hgrow : s.CanGrow)
    (hheld : Held s) {c c' active : ServiceConfig} (hattempt : attempt i c = .ok c')
    (hactive : active.version ≠ lastVersion) (wallClock : UInt64) :
    ∃ kept, (keepingRules initial).move i (some (), []) (some (), [kept]) s
        (keepStamped wallClock active (userOf i) c' s) ∧ Fulfils i kept := by
  have hfulfils : Fulfils i (stamp wallClock active (stampOf s.kept) (userOf i) c') :=
    ⟨rfl, c, c', hattempt, rfl⟩
  have hpast : IsPast s.kept (stamp wallClock active (stampOf s.kept) (userOf i) c') :=
    ⟨version_lt_stamp hactive hgrow.kept (right_le_max _ _) _ _ _,
      date_le_stamp (right_le_max _ _) _ _ _⟩
  have hcheck := (check_stamp wallClock active (stampOf s.kept) (userOf i) c').trans
    (check_of_attempt hadmin hattempt)
  have hput := move_put hs hheld (stamp wallClock active (stampOf s.kept) (userOf i) c')
  refine ⟨_, ⟨⟨hput.inv, trivial, hput.others, hput.taken, hput.free⟩, ?_, some _,
    .config hcheck hpast, rfl, .inr ⟨_, rfl, hadmin, hfulfils⟩⟩,
    hfulfils⟩
  intro _ hnone
  rw [keepStamped, keptConfig_putOnShelf hs.shelved] at hnone
  cases hnone

theorem safe_admin_keeping (hadmin : isAdmin i = true) (s : Site) :
    (keepingRules initial).Safe i
      (fun m (r : Except QuotaError Reply) _ => m.2.length = if r.isOk then 1 else 0) (work i)
      (none, []) s := by
  have halone : KeepsAlone (keepingRules initial) i (some (), []) Held :=
    keepsAlone_of_held (fun _ hinv => hinv) (fun _ _ h => h.2 () rfl) fun _ _ hs hinv h =>
      keeping_leavesKept (move_undisturbed hinv h fun _ => hs) (leavesKept_of_undisturbed h)
        (.inl rfl)
  refine (halone.safe_admin hadmin
    (Q := fun m r s => Held s ∧ m.1 = some () ∧
      m.2.length = (if r.isOk then 1 else 0) ∧ KeepsOnce i m.2)
    (R := fun m r _ => m.1 = none ∧ m.2.length = (if r.isOk then 1 else 0) ∧ KeepsOnce i m.2)
    ?_ ?_ ?_ ?_ ?_ ?_ ?_ s).mono ?_
  · rintro m r s s' h ⟨hs, hm, hhas⟩
    exact ⟨(h.2 () hm).locked hs, hm, hhas⟩
  · exact fun _ _ _ _ _ h => h
  · exact fun s hinv hfree => ⟨keeping_aside (move_take hinv hfree) rfl (.inl rfl), rfl⟩
  · exact fun _ _ _ _ hs _ _ => ⟨hs, rfl, rfl, .inl rfl⟩
  · rintro s c c' active wallClock hinv hgrow hs - hattempt ⟨s', -, hgrow', rfl, -, -⟩ -
    obtain ⟨kept, hmove, hfulfils⟩ :=
      move_keeping hadmin hinv hgrow hs hattempt hgrow'.active wallClock
    exact ⟨_, hmove, hs, rfl, rfl, .inr ⟨kept, rfl, hadmin, hfulfils⟩⟩
  · rintro ⟨m, l⟩ r s hinv ⟨-, rfl, hhas⟩
    exact ⟨(none, l), keeping_aside (move_leave hinv) rfl hhas.2, rfl, hhas⟩
  · rintro ⟨m, l⟩ s s' ⟨rfl, hhas⟩ hinv - h
    refine keeping_leavesKept (move_undisturbed hinv h ?_) (leavesKept_of_undisturbed h) hhas.2
    rintro ⟨⟩
  · rintro m r s - ⟨u, rfl, -, hlength, -⟩
    cases u with
    | ok u => exact hlength
    | error e => exact hlength

theorem safe_keeping (i : Request) (s : Site) :
    (keepingRules initial).Safe i
      (fun m (r : Except QuotaError Reply) _ =>
        isAdmin i = true → m.2.length = if r.isOk then 1 else 0) (work i) (none, []) s := by
  cases hadmin : isAdmin i with
  | true => exact (safe_admin_keeping hadmin s).mono fun _ _ _ _ h _ => h
  | false =>
      exact (bystands_keeping.safe_work hadmin s).mono fun _ _ _ _ _ h => by cases h

theorem write_injective : Function.Injective ServiceConfig.write := by
  intro c c' hwrite
  have hdecode := congrArg decode hwrite
  rw [decode_write, decode_write] at hdecode
  exact Except.ok.inj hdecode

/-- What a step of a caller kept, if anything. -/
def recorded (e : Event Site) : Option Bytes :=
  if e.after.kept = e.before.kept then none else e.after.kept

theorem stampOf_write (c : ServiceConfig) : stampOf (some c.write) = (c.version, c.date) := by
  simp only [stampOf, Option.map_some, decode_write]

theorem recorded_of_keeping {n : Nat} {a : Option ServiceConfig} (h : Keeping s s' a)
    (hs : s.IsShelved) : recorded ⟨n, s, s'⟩ = a.map ServiceConfig.write := by
  cases h with
  | nothing hstorage => exact if_pos (kept_congr hstorage)
  | @config c hcheck hpast =>
      have hkept := kept_putOnShelf hs c.write
      refine (if_neg ?_).trans hkept
      -- What is kept anew has a greater version than what was kept before.
      intro (hsame : (s.putOnShelf c.write).kept = s.kept)
      have hversion := hpast.version
      rw [← hsame, hkept, stampOf_write] at hversion
      exact absurd hversion (UInt64.lt_irrefl _)

/-- Configurations were kept, one after the other: each is stamped past the one before it, and the
last one is the current one. -/
structure Chronicle (configs : List ServiceConfig) (s : Site) : Prop where
  isShelved : s.IsShelved
  kept : s.kept = configs.getLast?.map ServiceConfig.write
  check : ∀ c ∈ configs, c.check = .ok ()
  order : configs.Pairwise fun c c' => c.version < c'.version ∧ c.date ≤ c'.date
  shelf : NoCollision (configs.map ServiceConfig.write) →
    ∀ shelf, s.archive.storage = .shelf shelf → shelf.Keeps (configs.map ServiceConfig.write)

variable {configs : List ServiceConfig}

theorem Chronicle.of_storage (h : Chronicle configs s)
    (hstorage : s'.archive.storage = s.archive.storage) : Chronicle configs s' where
  isShelved := isShelved_congr hstorage h.isShelved
  kept := (kept_congr hstorage).trans h.kept
  check := h.check
  order := h.order
  shelf hdigests shelf hshelf := h.shelf hdigests shelf (hstorage.symm.trans hshelf)

theorem chronicle_nil (h : s.archive.storage = .shelf .empty) : Chronicle [] s where
  isShelved := by rw [IsShelved, Archive.shelf?, h]; rfl
  kept := by rw [kept, Archive.shelf?, h]; rfl
  check := by simp
  order := .nil
  shelf _ shelf hshelf := by
    cases h.symm.trans hshelf
    exact Shelf.keeps_empty

/-- What is stamped past the last configuration is stamped past all of them. -/
theorem Chronicle.past (h : Chronicle configs s) {c : ServiceConfig} (hpast : IsPast s.kept c) :
    ∀ c' ∈ configs, c'.version < c.version ∧ c'.date ≤ c.date := by
  cases hlast : configs.getLast? with
  | none =>
      rw [List.getLast?_eq_none_iff.mp hlast]
      simp
  | some last =>
      have hkept := h.kept
      rw [hlast] at hkept
      have hversion := hpast.version
      have hdate := hpast.date
      rw [hkept, Option.map_some, stampOf_write] at hversion hdate
      obtain ⟨init, rfl⟩ := List.getLast?_eq_some_iff.mp hlast
      obtain ⟨-, -, hinit⟩ := List.pairwise_append.mp h.order
      intro c' hc'
      rcases List.mem_append.mp hc' with hc' | hc'
      · obtain ⟨hversion', hdate'⟩ := hinit c' hc' last List.mem_cons_self
        exact ⟨UInt64.lt_trans hversion' hversion, UInt64.le_trans hdate' hdate⟩
      · rw [List.mem_singleton.mp hc']
        exact ⟨hversion, hdate⟩

theorem Chronicle.step {a : Option ServiceConfig} (h : Chronicle configs s)
    (hkeeping : Keeping s s' a) : Chronicle (configs ++ a.toList) s' := by
  cases hkeeping with
  | nothing hstorage =>
      rw [Option.toList_none, List.append_nil]
      exact h.of_storage hstorage
  | @config c hcheck hpast =>
      constructor
      · exact isShelved_putOnShelf h.isShelved _
      · rw [Option.toList_some, List.getLast?_concat]
        exact kept_putOnShelf h.isShelved _
      · intro c' hc'
        rcases List.mem_append.mp hc' with hc' | hc'
        · exact h.check c' hc'
        · rw [List.mem_singleton.mp hc']
          exact hcheck
      · refine List.pairwise_append.mpr ⟨h.order, List.pairwise_singleton _ _, ?_⟩
        intro c' hc' c'' hc''
        rw [List.mem_singleton.mp hc'']
        exact h.past hpast c' hc'
      · rw [Option.toList_some, List.map_append]
        intro hdigests shelf hshelf
        obtain ⟨before, hbefore, hput⟩ := putOnShelf_eq h.isShelved c.write
        rw [putOnShelf, hput] at hshelf
        cases hshelf
        exact Shelf.keeps_keep (h.shelf hdigests.of_append before hbefore) hdigests

theorem mapM_decode_write (configs : List ServiceConfig) :
    (configs.map ServiceConfig.write).mapM decode = .ok configs := by
  induction configs with
  | nil => rfl
  | cons c configs ih =>
      rw [List.map_cons, List.mapM_cons, decode_write, ih]
      rfl

/-- All that was kept can be asked for. -/
theorem Chronicle.history (h : Chronicle configs s)
    (hdigests : NoCollision (configs.map ServiceConfig.write)) :
    (work .history).RunsTo s (.ok (.configs configs)) s := by
  obtain ⟨shelf, hshelf⟩ := exists_shelf h.isShelved
  have hdistinct : (configs.map ServiceConfig.write).Nodup := by
    refine List.pairwise_map.mpr (h.order.imp ?_)
    rintro c c' ⟨hversion, -⟩ hwrite
    rw [write_injective hwrite] at hversion
    exact UInt64.lt_irrefl _ hversion
  have hcontents : shelf.history = configs.map ServiceConfig.write := by
    rw [Shelf.history_eq (h.shelf hdigests shelf hshelf) hdigests,
      Digest.eraseDups_of_nodup hdistinct]
  have hlook : s.archive.shelf? = some shelf := by rw [Archive.shelf?, hshelf]
  have hread : Archive.history.run.RunsTo s.archive (.ok shelf.history) s.archive := by
    refine Action.runsTo_bind (Action.runsTo_read Archive.shelf? _) ?_
    rw [hlook]
    exact .done _ _
  have hfits : archivePart.Fits s := ⟨rfl, fun _ => rfl, fun _ _ => rfl⟩
  have hpart : (onArchive Archive.history).run.RunsTo s (.ok shelf.history) s :=
    hread.onPart hfits rfl
  rw [hcontents] at hpart
  refine Action.runsTo_bind (Action.runsTo_bind hpart ?_) (.done _ _)
  rw [mapM_decode_write]
  exact .done _ _

/-- What the steps of one caller kept, one after the other. -/
def recordedBy (n : Nat) (es : List (Event Site)) : List Bytes :=
  (es.filter fun e => e.caller == n).filterMap recorded

theorem recordedBy_eq_filterMap {n : Nat} {es : List (Event Site)}
    (h : ∀ e ∈ es, e.caller = n) : recordedBy n es = es.filterMap recorded := by
  rw [recordedBy, List.filter_eq_self.mpr]
  intro e he
  simpa using h e he

theorem recordedBy_eq {l : List (Event Site × Option ServiceConfig)}
    (hl : ∀ c ∈ l, IsSound initial c.1.before ∧ Keeping c.1.before c.1.after c.2) (n : Nat) :
    recordedBy n (l.map Prod.fst) = (Trail.marksOf n l).map ServiceConfig.write := by
  induction l with
  | nil => rfl
  | cons c l ih =>
      obtain ⟨⟨hsound, hkeeping⟩, hrest⟩ := List.forall_mem_cons.mp hl
      obtain ⟨⟨k, before, after⟩, a⟩ := c
      have ih := ih hrest
      have hrecorded := recorded_of_keeping (n := k) hkeeping hsound.shelved
      unfold recordedBy Trail.marksOf at ih ⊢
      by_cases hk : k = n
      · subst hk
        cases a with
        | none => simpa [hrecorded] using ih
        | some c => simpa [hrecorded] using ih
      · simpa [hk] using ih

/-- The contents that were kept, one after the other, are those of some configurations. -/
def IsKeptAs (contents : List Bytes) (s : Site) : Prop :=
  ∃ configs, contents = configs.map ServiceConfig.write ∧ Chronicle configs s

theorem IsKeptAs.of_storage {contents : List Bytes} (h : IsKeptAs contents s)
    (hstorage : s'.archive.storage = s.archive.storage) : IsKeptAs contents s' := by
  obtain ⟨configs, rfl, hchronicle⟩ := h
  exact ⟨configs, rfl, hchronicle.of_storage hstorage⟩

/-- What requests keep in a session, and what is left. -/
theorem keepings_of_run {s₀ : Site} {es : List (Event Site)}
    {p : Pool Request Site (Except QuotaError Reply)} {contents : List Bytes}
    (hsound : IsSound initial s₀) (hrun : Pool.Run work Outlying s₀ es p)
    (hgrow : ∀ e ∈ es, e.before.CanGrow)
    (hkept : IsKeptAs contents s₀) :
    IsSound initial p.state ∧ IsKeptAs (contents ++ es.filterMap recorded) p.state ∧
      ∀ (n : Nat) (i : Request) (t : Task Site (Except QuotaError Reply)),
        p.callers[n]? = some ⟨i, t⟩ → ∃ configs,
          recordedBy n es = configs.map ServiceConfig.write ∧ KeepsOnce i configs ∧
            ∀ r, t = .done r → isAdmin i = true → configs.length = if r.isOk then 1 else 0 := by
  have houtside : ∀ s s' : Site, IsSound initial s → s.Outlying s' → IsSound initial s' ∧
      (s.keptConfig ≠ none → s'.keptConfig ≠ none) ∧
        ∀ _ : Unit, s.server.locked = true → s.LockHeld s' := by
    intro s s' hs h
    have hleaves : s.LeavesKept s' :=
      ⟨congrArg Server.initial h.server, congrArg Server.locked h.server, h.storage⟩
    refine ⟨isSound_of_leavesKept hs hleaves ?_, ?_, fun _ _ => hleaves.lockHeld⟩
    · rw [activeConfig, h.server]
      exact hs.unkept
    · rw [keptConfig_congr h.storage]
      exact id
  obtain ⟨hinv, l, rfl, hl, hcallers⟩ := Trail.marks_of_run (T := keepings initial)
    (A := fun _ => True)
    (R := fun i l (r : Except QuotaError Reply) =>
      isAdmin i = true → l.length = if r.isOk then 1 else 0)
    houtside (fun i s _ => safe_keeping i s) hsound hrun (fun _ _ => trivial) hgrow
  refine ⟨hinv, ?_, ?_⟩
  · refine hrun.kept_along hkept ?_ fun _ _ _ h hs => hs.of_storage h.storage
    rintro e he contents ⟨configs, rfl, hchronicle⟩
    obtain ⟨⟨⟨n, before, after⟩, a⟩, hc, rfl⟩ := List.mem_map.mp he
    have hkeeping := (hl _ hc).2
    refine ⟨configs ++ a.toList, ?_, hchronicle.step hkeeping⟩
    rw [recorded_of_keeping hkeeping hchronicle.isShelved, List.map_append]
    cases a <;> rfl
  · intro n i t hn
    obtain ⟨hallows, hdone⟩ := hcallers n i t hn
    exact ⟨_, recordedBy_eq hl n, hallows, hdone⟩

/-- Servers keep their configurations in memory, one server after the other, and nobody else keeps
anything. What was kept is then one configuration for each request for a change that succeeded, in
the order in which they took effect: each is well formed, stamped past the one before it, and in the
name of its user, and the last one is the current one. All of them can be asked for, unless the
digests of two of them are the same. -/
theorem history_order {s₀ : Site} (hfresh : s₀.IsFresh)
    (hempty : s₀.archive.storage = .shelf .empty)
    {past : List (Session Request Site (Except QuotaError Reply))}
    {x : Session Request Site (Except QuotaError Reply)}
    (h : Session.Row work Outlying Restarted s₀ past x)
    (hgrow : ∀ y ∈ past ++ [x], ∀ e ∈ y.events, e.before.CanGrow) :
    (∃ configs : List ServiceConfig,
      (past ++ [x]).flatMap (fun y => y.events.filterMap recorded) =
        configs.map ServiceConfig.write ∧
      (∀ c ∈ configs, c.check = .ok ()) ∧
      configs.Pairwise (fun c c' => c.version < c'.version ∧ c.date ≤ c'.date) ∧
      x.pool.state.kept = configs.getLast?.map ServiceConfig.write ∧
      (NoCollision (configs.map ServiceConfig.write) →
        (work .history).RunsTo x.pool.state (.ok (.configs configs)) x.pool.state)) ∧
    ∀ y ∈ past ++ [x], ∀ (n : Nat) (i : Request) (t : Task Site (Except QuotaError Reply)),
      y.pool.callers[n]? = some ⟨i, t⟩ → ∃ configs,
        recordedBy n y.events = configs.map ServiceConfig.write ∧ KeepsOnce i configs ∧
          ∀ r, t = .done r → isAdmin i = true → configs.length = if r.isOk then 1 else 0 := by
  have hfirst : ∀ (contents : List Bytes) (s : Site), s.IsFresh → IsKeptAs contents s →
      IsSound s.server.initial s ∧ IsKeptAs contents s := by
    rintro contents s hs ⟨configs, rfl, hchronicle⟩
    refine ⟨isSound_of_isFresh hs hchronicle.isShelved ?_, configs, rfl, hchronicle⟩
    intro content hcontent
    rw [hchronicle.kept, Option.map_eq_some_iff] at hcontent
    obtain ⟨c, -, rfl⟩ := hcontent
    exact ⟨c, decode_write c⟩
  have hsession : ∀ (contents : List Bytes)
      (y : Session Request Site (Except QuotaError Reply)), (∀ e ∈ y.events, e.before.CanGrow) →
      IsSound y.start.server.initial y.start ∧ IsKeptAs contents y.start →
      Pool.Run work Outlying y.start y.events y.pool →
      IsSound y.pool.state.server.initial y.pool.state ∧
        IsKeptAs (contents ++ y.events.filterMap recorded) y.pool.state := by
    intro contents y hgrow hstart hrun
    obtain ⟨hsound, hkept, -⟩ := keepings_of_run hstart.1 hrun hgrow hstart.2
    exact ⟨hsound.initial_eq.symm ▸ hsound, hkept⟩
  obtain ⟨hsessions, -, configs, hconfigs, hchronicle⟩ := h.kept hgrow
    (hfirst [] s₀ hfresh ⟨[], rfl, chronicle_nil hempty⟩) hsession fun contents s s' hs hrestart =>
      hfirst contents s' hrestart.isFresh (hs.2.of_storage hrestart.storage)
  refine ⟨⟨configs, hconfigs, hchronicle.check, hchronicle.order, hchronicle.kept,
    hchronicle.history⟩, ?_⟩
  intro y hy
  obtain ⟨⟨contents, hsound, hkept⟩, hrun⟩ := hsessions y hy
  exact (keepings_of_run hsound hrun (hgrow y hy) hkept).2.2

/-- A second server is put over what the first one kept. -/
theorem history_order_restarted :
    let first := (work (.update "alice" .empty)).run (fun _ s => s)
      (fresh (.ofStorage (.shelf .empty)))
    let second := (work (.update "bob" .empty)).run (fun _ s => s) (fresh first.2.archive)
    first.1.map Except.isOk = some true ∧ second.1.map Except.isOk = some true ∧
      ∃ c c' : ServiceConfig, c.user = "alice" ∧ c'.user = "bob" ∧ c.version < c'.version ∧
        second.2.kept = some c'.write ∧
        (NoCollision [c.write, c'.write] →
          (work .history).RunsTo second.2 (.ok (.configs [c, c'])) second.2) := by
  intro first second
  have hok₁ : first.1.map Except.isOk = some true := by decide +kernel
  have hok₂ : second.1.map Except.isOk = some true := by decide +kernel
  have hgrow₁ : ∀ s ∈ (work (.update "alice" .empty)).visits
      (fresh (.ofStorage (.shelf .empty))), s.CanGrow := by
    decide +kernel
  have hgrow₂ : ∀ s ∈ (work (.update "bob" .empty)).visits (fresh first.2.archive),
      s.CanGrow := by
    decide +kernel
  refine ⟨hok₁, hok₂, ?_⟩
  obtain ⟨r₁, hr₁, hisOk₁⟩ := Option.map_eq_some_iff.mp hok₁
  obtain ⟨r₂, hr₂, hisOk₂⟩ := Option.map_eq_some_iff.mp hok₂
  obtain ⟨es₁, hrun₁, hvisits₁, halone₁⟩ := Session.exists_alone work Outlying
    (.update "alice" .empty) hr₁
  obtain ⟨es₂, hrun₂, hvisits₂, halone₂⟩ := Session.exists_alone work Outlying
    (.update "bob" .empty) hr₂
  change Pool.Run _ _ _ es₁ ⟨first.2, _⟩ at hrun₁
  change Pool.Run _ _ _ es₂ ⟨second.2, _⟩ at hrun₂
  have hrestarted : first.2.Restarted (fresh first.2.archive) := ⟨isFresh_fresh _, rfl⟩
  rw [← hvisits₁] at hgrow₁
  rw [← hvisits₂] at hgrow₂
  clear_value second first
  obtain ⟨⟨configs, hconfigs, -, horder, hkept, hhistory⟩, hcallers⟩ :=
    history_order (isFresh_fresh _) rfl (.next (.first hrun₁) hrestarted hrun₂) <| by
      rintro y hy e he
      rcases List.mem_cons.mp hy with rfl | hy
      · exact hgrow₁ _ (List.mem_map_of_mem he)
      · rw [List.mem_singleton.mp hy] at he
        exact hgrow₂ _ (List.mem_map_of_mem he)
  -- Each of the two callers kept one configuration, and there are no others.
  have honce : ∀ (user : String) (r : Except QuotaError Reply) (es : List (Event Site)),
      r.isOk = true → (∀ e ∈ es, e.caller = 0) → (∃ configs,
        recordedBy 0 es = configs.map ServiceConfig.write ∧
          KeepsOnce (.update user .empty) configs ∧
            ∀ r', (.done r : Task Site _) = .done r' → isAdmin (.update user .empty) = true →
              configs.length = if r'.isOk then 1 else 0) →
      ∃ c : ServiceConfig, c.user = user ∧ es.filterMap recorded = [c.write] := by
    rintro user r es hr halone ⟨kept, hkept, hnil | ⟨c, rfl, -, hfulfils⟩, hlength⟩
    · have hone := hlength r rfl rfl
      rw [hnil, if_pos hr] at hone
      cases hone
    · rw [recordedBy_eq_filterMap halone] at hkept
      exact ⟨c, hfulfils.1, hkept⟩
  obtain ⟨c, hc, hes₁⟩ := honce "alice" r₁ es₁ hisOk₁ halone₁
    (hcallers _ List.mem_cons_self 0 _ _ rfl)
  obtain ⟨c', hc', hes₂⟩ := honce "bob" r₂ es₂ hisOk₂ halone₂
    (hcallers _ (List.mem_cons_of_mem _ List.mem_cons_self) 0 _ _ rfl)
  have hboth : es₁.filterMap recorded ++ (es₂.filterMap recorded ++ []) =
      configs.map ServiceConfig.write := hconfigs
  rw [hes₁, hes₂] at hboth
  obtain rfl : [c, c'] = configs := List.map_injective_iff.mpr write_injective hboth
  obtain ⟨hfirst, -⟩ := List.pairwise_cons.mp horder
  exact ⟨c, c', hc, hc', (hfirst c' List.mem_cons_self).1, hkept, hhistory⟩

end Site

end TokenQuota
