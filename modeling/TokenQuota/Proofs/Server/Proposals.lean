import TokenQuota.Proofs.Server.Editing
import TokenQuota.Proofs.Task.Spans

/-!
What a request for a change does to an archive in memory while nobody else keeps or applies
anything: either nothing, or it keeps one content, and that content is what was asked for.
-/

namespace TokenQuota

/-- The only namespace that an edit may change. -/
def Edit.target : Edit → String
  | .addNamespace ns | .updateNamespace ns => ns.name
  | .deleteNamespace name => name
  | .addBucket ns _ _ | .updateBucket ns _ _ | .deleteBucket ns _ => ns

theorem ServiceConfig.get?_edit_of_ne {c c' : ServiceConfig} {e : Edit} (h : c.edit e = .ok c')
    {other : String} (hne : other ≠ e.target) :
    c'.namespaces.get? other = c.namespaces.get? other := by
  have hinsert : ∀ ns, (c.namespaces.insert e.target ns).get? other = c.namespaces.get? other :=
    fun ns => by rw [NameMap.get?_insert, if_neg hne]
  cases e with
  | addNamespace ns =>
      simp only [edit, addNamespace] at h
      split at h
      · cases h
      · cases h
        exact hinsert ns
  | updateNamespace ns =>
      simp only [edit, updateNamespace] at h
      split at h
      · cases h
        exact hinsert ns
      · cases h
  | deleteNamespace name =>
      simp only [edit, deleteNamespace] at h
      split at h
      · cases h
        exact (NameMap.get?_erase _ _ _).trans (if_neg hne)
      · cases h
  | addBucket ns name bucket =>
      simp only [edit, addBucket] at h
      split at h
      · cases h
      · split at h
        · cases h
        · cases h
          exact hinsert _
  | updateBucket ns name bucket =>
      simp only [edit, updateBucket] at h
      split at h
      · cases h
      · split at h
        · cases h
          exact hinsert _
        · cases h
  | deleteBucket ns name =>
      simp only [edit, deleteBucket] at h
      split at h
      · cases h
      · split at h
        · cases h
        · cases h
          exact hinsert _

namespace Site

open TokenQuota.Task (Spans)

/-- What nobody else changes: the active configuration and the archive. -/
def held (s : Site) : ServiceConfig × Archive := (s.activeConfig, s.archive)

/-- The latest configuration: the one that is kept, or else the active one. -/
def newest (s : Site) : Except QuotaError ServiceConfig :=
  match s.kept with
  | some content => decode content
  | none => .ok s.activeConfig

/-- What a request makes of the latest configuration, before it is stamped. One that brings a whole
configuration does not ask for the latest one. -/
def proposed (s : Site) : Request → Except QuotaError ServiceConfig
  | .edit user e => s.newest >>= attempt (.edit user e)
  | i => attempt i s.activeConfig

/-- None of the changes touches the archive. -/
def LeaveArchive (l : List (Site × Site)) : Prop := ∀ c ∈ l, c.2.archive = c.1.archive

/-- One of the changes keeps a content and signals it. None of the others touches the archive. -/
def KeepOnce (content : Bytes) (l : List (Site × Site)) : Prop :=
  ∃ before c after, l = before ++ c :: after ∧ c.2 = c.1.putOnShelf content ∧
    LeaveArchive before ∧ LeaveArchive after

/-- The changes from one state to another leave alone what is held. -/
structure Rests (s : Site) (l : List (Site × Site)) (s' : Site) : Prop where
  changes : LeaveArchive l
  held : s'.held = s.held

/-- The changes from one state to another keep one content. -/
structure Keeps (content : Bytes) (s : Site) (l : List (Site × Site)) (s' : Site) : Prop where
  changes : KeepOnce content l
  active : s'.activeConfig = s.activeConfig
  archive : s'.archive = (s.putOnShelf content).archive

variable {s s' s₁ : Site} {l l₁ l₂ : List (Site × Site)} {content : Bytes}

theorem active_of_held (h : s'.held = s.held) : s'.activeConfig = s.activeConfig :=
  congrArg Prod.fst h

theorem archive_of_held (h : s'.held = s.held) : s'.archive = s.archive :=
  congrArg Prod.snd h

theorem kept_of_held (h : s'.held = s.held) : s'.kept = s.kept :=
  kept_congr (congrArg Archive.storage (archive_of_held h))

theorem isShelved_of_held (h : s'.held = s.held) (hs : s.IsShelved) : s'.IsShelved :=
  isShelved_congr (congrArg Archive.storage (archive_of_held h)) hs

theorem newest_of_held (h : s'.held = s.held) : s'.newest = s.newest := by
  rw [newest, newest, kept_of_held h, active_of_held h]

theorem leaveArchive_nil : LeaveArchive [] := fun _ hc => absurd hc List.not_mem_nil

theorem leaveArchive_singleton {c : Site × Site} (h : c.2.archive = c.1.archive) :
    LeaveArchive [c] := by
  intro d hd
  rw [List.mem_singleton.mp hd, h]

theorem proposed_of_held (i : Request) (h : s'.held = s.held) : s'.proposed i = s.proposed i := by
  unfold proposed
  rw [newest_of_held h, active_of_held h]

theorem LeaveArchive.append (h₁ : LeaveArchive l₁) (h₂ : LeaveArchive l₂) :
    LeaveArchive (l₁ ++ l₂) := by
  intro c hc
  rcases List.mem_append.mp hc with hc | hc
  · exact h₁ c hc
  · exact h₂ c hc

theorem Rests.nil (h : s'.held = s.held) : s.Rests [] s' :=
  ⟨leaveArchive_nil, h⟩

theorem Rests.append (h₁ : s.Rests l₁ s₁) (h₂ : s₁.Rests l₂ s') : s.Rests (l₁ ++ l₂) s' :=
  ⟨h₁.changes.append h₂.changes, h₂.held.trans h₁.held⟩

theorem Rests.then_keeps (h₁ : s.Rests l₁ s₁) (h₂ : s₁.Keeps content l₂ s') :
    s.Keeps content (l₁ ++ l₂) s' := by
  obtain ⟨⟨before, c, after, rfl, hput, hbefore, hafter⟩, hactive, harchive⟩ := h₂
  refine ⟨⟨l₁ ++ before, c, after, ?_, hput, h₁.changes.append hbefore, hafter⟩, ?_, ?_⟩
  · rw [List.append_assoc]
  · exact hactive.trans (active_of_held h₁.held)
  · rw [harchive, putOnShelf, putOnShelf, archive_of_held h₁.held]

theorem Keeps.then_rests (h₁ : s.Keeps content l₁ s₁) (h₂ : s₁.Rests l₂ s') :
    s.Keeps content (l₁ ++ l₂) s' := by
  obtain ⟨⟨before, c, after, rfl, hput, hbefore, hafter⟩, hactive, harchive⟩ := h₁
  refine ⟨⟨before, c, after ++ l₂, ?_, hput, hbefore, hafter.append h₂.changes⟩, ?_, ?_⟩
  · rw [List.append_assoc, List.cons_append]
  · exact (active_of_held h₂.held).trans hactive
  · exact (archive_of_held h₂.held).trans harchive

/-- Nobody else changes what is held, so an activity that leaves it alone rests. -/
theorem rests_of_changes {α : Type} {t : Task Site α} {a : α}
    (ht : t.Changes fun s s' => s'.held = s.held) (h : t.Spans held s l a s') : s.Rests l s' := by
  obtain ⟨hlast, hall⟩ := ht.same_of_spans h
  refine ⟨fun c hc => ?_, hlast⟩
  exact (archive_of_held (hall c hc).2).trans (archive_of_held (hall c hc).1).symm

/-- Whoever looks at what is kept in memory finds it, and changes nothing. -/
theorem spans_onShelf {α : Type} (f : Shelf → α) (g : Archive.Keeper α) {shelf : Shelf}
    {r : Except QuotaError α} (hshelf : s.archive.shelf? = some shelf)
    (h : (onArchive (do
        match ← Action.read Archive.shelf? with
        | some s => return f s
        | none => g)).run.Spans held s l r s') :
    r = .ok (f shelf) ∧ s.Rests l s' := by
  obtain ⟨s₁, l', rfl, -, hheld, hrest⟩ := Task.spans_step h
  have hnext : Spans held (Task.onPart archivePart (match s₁.archive.shelf? with
      | some s => pure (f s)
      | none => g : Archive.Keeper α).run) s₁ l' r s' := hrest
  rw [archive_of_held hheld, hshelf] at hnext
  obtain ⟨rfl, rfl, hlast⟩ := Task.spans_done hnext
  exact ⟨rfl, leaveArchive_singleton rfl, Eq.trans hlast hheld⟩

theorem covers_held : CoversMinor fun s s' : Site => s'.held = s.held where
  link _ _ := rfl
  refl _ := rfl
  resolve ns bucket s := by
    have hsame := undisturbed_resolve ns bucket s
    exact Prod.ext hsame.server.config hsame.archive
  sweep _ := rfl
  stats _ _ := rfl

theorem spans_read {α : Type} {f : Site → α} {r : Except QuotaError α}
    (h : (Action.read f : Work α).run.Spans held s l r s') :
    ∃ a, r = .ok a ∧ (∃ s₁, a = f s₁ ∧ s₁.held = s.held) ∧ s.Rests l s' := by
  obtain ⟨s₁, rfl, rfl, hheld, hlast⟩ := Action.spans_read h
  exact ⟨_, rfl, ⟨s₁, rfl, hheld⟩, leaveArchive_singleton rfl, hlast⟩

theorem spans_readArchive {r : Except QuotaError (Option Bytes)} (hshelved : s.IsShelved)
    (h : readArchive.run.Spans held s l r s') : ∃ a, r = .ok a ∧ a = s.kept ∧ s.Rests l s' := by
  have hdelay : ∀ l r s', (Action.ofTask (Backend.delay slowReads) : Work Unit).run.Spans held s l r
      s' → ∃ u, r = .ok u ∧ s.Rests l s' := by
    intro l r s' h
    obtain ⟨u, rfl, hspans⟩ := Action.spans_ofTask h
    exact ⟨u, rfl, rests_of_changes covers_held.toCoversLink.changes_delay hspans⟩
  obtain ⟨u, l₁, l₂, s₁, rfl, hrests, hread⟩ := Action.spans_bind_of_ok hdelay h
  obtain ⟨shelf, hshelf⟩ := Option.isSome_iff_exists.mp (isShelved_of_held hrests.held hshelved)
  obtain ⟨rfl, hrests'⟩ := spans_onShelf Shelf.current? _ hshelf hread
  refine ⟨_, rfl, ?_, hrests.append hrests'⟩
  rw [← kept_of_held hrests.held, kept, hshelf]
  rfl

theorem spans_history {r : Except QuotaError (List ServiceConfig)} (hshelved : s.IsShelved)
    (h : history.run.Spans held s l r s') : s.Rests l s' := by
  obtain ⟨shelf, hshelf⟩ := Option.isSome_iff_exists.mp hshelved
  rcases Action.spans_bind h with ⟨contents, l₁, l₂, s₁, rfl, hlook, hdecode⟩ | ⟨e, -, hlook⟩
  · obtain ⟨rfl, -, hlast⟩ := Action.spans_ofExcept hdecode
    exact (spans_onShelf Shelf.history _ hshelf hlook).2.append (.nil hlast)
  · exact (spans_onShelf Shelf.history _ hshelf hlook).2

theorem spans_latest {r : Except QuotaError ServiceConfig} (hshelved : s.IsShelved)
    (h : latest.run.Spans held s l r s') : r = s.newest ∧ s.Rests l s' := by
  obtain ⟨content, l₁, l₂, s₁, rfl, ⟨rfl, hrests⟩, hrest⟩ :=
    Action.spans_bind_of_ok (fun _ _ _ => spans_readArchive hshelved) h
  have hnext : Spans held (match s.kept with
      | some content => Action.ofExcept (decode content)
      | none => Action.read activeConfig : Work ServiceConfig).run s₁ l₂ r s' := hrest
  rw [newest]
  cases hkept : s.kept with
  | some content =>
      rw [hkept] at hnext
      obtain ⟨rfl, rfl, hlast⟩ := Action.spans_ofExcept hnext
      exact ⟨rfl, hrests.append (.nil hlast)⟩
  | none =>
      rw [hkept] at hnext
      obtain ⟨a, rfl, ⟨s₂, rfl, hheld⟩, hrests'⟩ := spans_read hnext
      exact ⟨by rw [active_of_held (hheld.trans hrests.held)], hrests.append hrests'⟩

theorem spans_keep {r : Except QuotaError Unit} (hshelved : s.IsShelved)
    (h : (onArchive (Archive.keep content)).run.Spans held s l r s') :
    r = .ok () ∧ s.Keeps content l s' := by
  obtain ⟨s₁, l', rfl, -, hheld, hrest⟩ := Task.spans_step h
  obtain ⟨shelf, -, hput⟩ := putOnShelf_eq (isShelved_of_held hheld hshelved) content
  have hnext : Spans held (Task.onPart archivePart
      (if !(Archive.keepOnShelf content s₁.archive).1 then do
          Action.holding Archive.lock (Archive.onFolder (Folder.keep content))
          Action.modify Archive.signal
        else pure () : Archive.Keeper Unit).run) (s₁.putOnShelf content) l' r s' := hrest
  rw [hput] at hnext
  obtain ⟨rfl, rfl, hlast⟩ := Task.spans_done hnext
  have hactive : s₁.activeConfig = s.activeConfig := active_of_held hheld
  refine ⟨rfl, ⟨[], _, [], rfl, rfl, leaveArchive_nil, leaveArchive_nil⟩, ?_, ?_⟩
  · exact (active_of_held hlast).trans hactive
  · rw [archive_of_held hlast, putOnShelf, putOnShelf, archive_of_held hheld]

/-- The content that is kept for a user: a configuration, stamped past the active one and the one
that was kept. -/
def stampedFor (s : Site) (wallClock : UInt64) (user : String) (config : ServiceConfig) :
    ServiceConfig :=
  stamp wallClock s.activeConfig (stampOf s.kept) user config

theorem toNat_version_stampedFor (hactive : s.activeConfig.version ≠ lastVersion)
    (hkept : (stampOf s.kept).1 ≠ lastVersion) (wallClock : UInt64) (user : String)
    (config : ServiceConfig) : (s.stampedFor wallClock user config).version.toNat =
      max s.activeConfig.version.toNat (stampOf s.kept).1.toNat + 1 := by
  change (max s.activeConfig.version (stampOf s.kept).1 + 1).toNat = _
  rw [toNat_succ (max_ne_last hactive hkept), toNat_max]

/-- An edit is proposed for one namespace of the latest configuration. -/
theorem get?_proposed_of_ne {user : String} {e : Edit} {config : ServiceConfig}
    (h : s.proposed (.edit user e) = .ok config) : ∃ latest, s.newest = .ok latest ∧
      ∀ other, other ≠ e.target → config.namespaces.get? other = latest.namespaces.get? other := by
  have hproposed : s.newest >>= attempt (.edit user e) = .ok config := h
  cases hnewest : s.newest with
  | error err =>
      rw [hnewest] at hproposed
      cases hproposed
  | ok latest =>
      rw [hnewest] at hproposed
      have hattempt : attempt (.edit user e) latest = .ok config := hproposed
      refine ⟨latest, rfl, fun other hne => ?_⟩
      cases hedit : latest.edit e with
      | error err =>
          rw [attempt_edit_error user (congrArg (Except.mapError QuotaError.ofEdit) hedit)]
            at hattempt
          cases hattempt
      | ok edited =>
          rw [attempt_edit user (congrArg (Except.mapError QuotaError.ofEdit) hedit)] at hattempt
          cases hvalid : validate edited with
          | error err =>
              rw [hvalid] at hattempt
              cases hattempt
          | ok u =>
              rw [hvalid] at hattempt
              cases hattempt
              exact ServiceConfig.get?_edit_of_ne hedit hne

/-- What becomes of a request for a change: it fails as what was proposed does, and then nothing
was kept, or what was proposed is stamped and kept. -/
inductive Settles (i : Request) (s : Site) (l : List (Site × Site)) (s' : Site) :
    Except QuotaError Unit → Prop
  | refused {e : QuotaError} (hproposed : s.proposed i = .error e) (hrests : s.Rests l s') :
    Settles i s l s' (.error e)
  | kept {config : ServiceConfig} (wallClock : UInt64) (hproposed : s.proposed i = .ok config)
    (hkeeps : s.Keeps (s.stampedFor wallClock (userOf i) config).write l s') :
    Settles i s l s' (.ok ())

/-- A configuration that is not well formed is refused. Another one is stamped and kept. -/
theorem settles_persist {i : Request} {config : ServiceConfig} {r : Except QuotaError Unit}
    (hshelved : s.IsShelved)
    (hproposed : s.proposed i = (validate config).map fun _ => config)
    (h : (persist (userOf i) config).run.Spans held s l r s') : Settles i s l s' r := by
  rcases Action.spans_bind h with ⟨u, l₀, l₁, s₀, rfl, hvalidate, hrest⟩ | ⟨e, rfl, hvalidate⟩
  · obtain ⟨rfl, hvalid, hheld₀⟩ := Action.spans_ofExcept hvalidate
    obtain ⟨_, l₂, l₃, s₁, rfl, ⟨⟨a, rfl, hactive⟩, hrests₁⟩, hrest⟩ :=
      Action.spans_bind_of_ok (fun _ _ _ => spans_read) hrest
    have hshelved₁ := isShelved_of_held (hrests₁.held.trans hheld₀) hshelved
    obtain ⟨_, l₄, l₅, s₂, rfl, ⟨rfl, hrests₂⟩, hrest⟩ :=
      Action.spans_bind_of_ok (fun _ _ _ => spans_readArchive hshelved₁) hrest
    obtain ⟨wallClock, l₆, l₇, s₃, rfl, ⟨-, hrests₃⟩, hrest⟩ :=
      Action.spans_bind_of_ok (fun _ _ _ => spans_read) hrest
    have hrests : s.Rests (l₂ ++ (l₄ ++ l₆)) s₃ :=
      ((Rests.nil hheld₀).append hrests₁).append (hrests₂.append hrests₃)
    obtain ⟨rfl, hkeeps⟩ := spans_keep (isShelved_of_held hrests.held hshelved) hrest
    -- What was read meanwhile is what was there at the beginning.
    rw [active_of_held (hactive.trans hheld₀), kept_of_held (hrests₁.held.trans hheld₀)] at hkeeps
    have hall := hrests.then_keeps hkeeps
    rw [List.append_assoc, List.append_assoc] at hall
    rw [← hvalid] at hproposed
    exact .kept wallClock hproposed hall
  · obtain ⟨rfl, hvalid, hheld⟩ := Action.spans_ofExcept hvalidate
    rw [← hvalid] at hproposed
    exact .refused hproposed (.nil hheld)

theorem Settles.after {i : Request} {r : Except QuotaError Unit} (hrests : s.Rests l₁ s₁)
    (h : Settles i s₁ l₂ s' r) : Settles i s (l₁ ++ l₂) s' r := by
  have hproposed := proposed_of_held i hrests.held
  cases h with
  | refused hrefused hrests' =>
      exact .refused (hproposed.symm.trans hrefused) (hrests.append hrests')
  | kept wallClock hok hkeeps =>
      rw [stampedFor, active_of_held hrests.held, kept_of_held hrests.held] at hkeeps
      exact .kept wallClock (hproposed.symm.trans hok) (hrests.then_keeps hkeeps)

theorem Settles.before {i : Request} {r : Except QuotaError Unit} (h : Settles i s l₁ s₁ r)
    (hrests : s₁.Rests l₂ s') : Settles i s (l₁ ++ l₂) s' r := by
  cases h with
  | refused hrefused hrests' => exact .refused hrefused (hrests'.append hrests)
  | kept wallClock hok hkeeps => exact .kept wallClock hok (hkeeps.then_rests hrests)

/-- Whoever holds the lock meanwhile settles a request as the action does without it. -/
theorem settles_holding {i : Request} {a : Work Unit} {r : Except QuotaError Unit}
    (ha : ∀ l, a.run.Spans held s l r s' → Settles i s l s' r)
    (h : (Action.holding lock a).run.Spans held s l r s') : Settles i s l s' r := by
  obtain ⟨c, l', c', rfl, hc, hc', hspans⟩ :=
    Task.spans_holding (fun _ _ => rfl : ∀ b s, (lock.set b s).held = s.held) h
  have htake : s.Rests [c] s := by
    refine ⟨leaveArchive_singleton ?_, rfl⟩
    rw [hc]
    rfl
  have hleave : s'.Rests [c'] s' := by
    refine ⟨leaveArchive_singleton ?_, rfl⟩
    rw [hc']
    rfl
  exact ((ha l' hspans).before hleave).after htake

theorem spans_updateConfig {user : String} {config : ServiceConfig} {r : Except QuotaError Unit}
    (hshelved : s.IsShelved) (h : (updateConfig user config).run.Spans held s l r s') :
    Settles (.update user config) s l s' r :=
  settles_holding (fun _ => settles_persist hshelved (attempt_update user config s.activeConfig)) h

theorem spans_change {user : String} {e : Edit} {r : Except QuotaError Unit}
    (hshelved : s.IsShelved) (h : (change user e).run.Spans held s l r s') :
    Settles (.edit user e) s l s' r := by
  refine settles_holding (fun l hinner => ?_) h
  have hproposed : ∀ s : Site, s.proposed (.edit user e) = s.newest >>= attempt (.edit user e) :=
    fun _ => rfl
  rcases Action.spans_bind hinner with ⟨config, l₁, l₂, s₁, rfl, hlatest, hrest⟩ |
    ⟨err, rfl, hlatest⟩
  · obtain ⟨hnewest, hrests⟩ := spans_latest hshelved hlatest
    refine Settles.after hrests ?_
    rw [← newest_of_held hrests.held] at hnewest
    rcases Action.spans_bind hrest with ⟨edited, l₃, l₄, s₂, rfl, hedit, hpersist⟩ |
      ⟨err, rfl, hedit⟩
    · obtain ⟨rfl, hedited, hheld⟩ := Action.spans_ofExcept hedit
      refine Settles.after (.nil hheld) (settles_persist ?_ ?_ hpersist)
      · exact isShelved_of_held (hheld.trans hrests.held) hshelved
      · rw [hproposed, newest_of_held hheld, ← hnewest]
        exact attempt_edit user hedited.symm
    · obtain ⟨rfl, hedited, hheld⟩ := Action.spans_ofExcept hedit
      refine .refused ?_ (.nil hheld)
      rw [hproposed, ← hnewest]
      exact attempt_edit_error user hedited.symm
  · obtain ⟨hnewest, hrests⟩ := spans_latest hshelved hlatest
    refine .refused ?_ hrests
    rw [hproposed, ← hnewest]
    rfl

theorem spans_edit {user : String} {e : Edit} {r : Except QuotaError Unit} (hshelved : s.IsShelved)
    (h : (edit user e).run.Spans held s l r s') : Settles (.edit user e) s l s' r := by
  rcases Action.spans_bind h with ⟨u, l₁, l₂, s₁, rfl, hchange, hforget⟩ | ⟨err, rfl, hchange⟩
  · have hrests : (r = .ok ()) ∧ s₁.Rests l₂ s' := by
      cases e with
      | deleteNamespace ns =>
          obtain ⟨a, rfl, -⟩ := Action.spans_ofTask hforget
          exact ⟨rfl, rests_of_changes
            (Action.changes_ofTask (Task.changes_modify fun s => covers_held.stats s _)) hforget⟩
      | _ =>
          obtain ⟨rfl, rfl, hheld⟩ := Task.spans_done hforget
          exact ⟨rfl, .nil hheld⟩
    obtain ⟨rfl, hrests⟩ := hrests
    exact (spans_change hshelved hchange).before hrests
  · exact spans_change hshelved hchange

end Site

end TokenQuota
