import TokenQuota.Proofs.Bucket.Cleaning
import TokenQuota.Proofs.Redis.Listing

/-!
A Redis store and the store in memory lose the same keys when they are cleaned: those of buckets
that the configuration does not account for, on whatever pages the keys are listed. Nothing is
deleted when a page cannot be read.
-/

namespace TokenQuota

namespace Redis

/-- What a command leaves of the keys of a store. -/
def obey (keys : List String) : Command → List String
  | "DEL" :: named => keys.filter fun key => key ∉ named
  | _ => keys

/-- What the commands of a session leave of the keys of a store. -/
def Session.left (s : Session) (keys : List String) : List String :=
  s.sent.foldl obey keys

theorem foldl_obey_scanCommands (keys : List String) (cursor : Nat) (pages : List Page) :
    (scanCommands cursor pages).foldl obey keys = keys := by
  rw [scanCommands]
  induction cursor :: pages.map Page.next with
  | nil => rfl
  | cons cursor rest ih => exact ih

namespace Exchange

variable {c : ServiceConfig}

/-- Cleaning a store asks for its keys, and has those deleted that are stale. -/
theorem sent_clean (c : ServiceConfig) (l : Listing) (rest : List Reply) :
    ((clean c).run ⟨l.replies ++ rest, []⟩).2.sent = scanCommands 0 l.pages ++
      if (c.staleKeys (l.keys.filter StateKey.isStateKey)).isEmpty then []
      else ["DEL" :: c.staleKeys (l.keys.filter StateKey.isStateKey)] := by
  have hclean := run_bind_of_ok (f := fun found =>
    if (c.staleKeys found).isEmpty then pure 0 else delete (c.staleKeys found)) (run_scan l rest)
  change ((scan >>= _ : Exchange Nat).run _).2.sent = _
  rw [hclean]
  split
  · exact (List.append_nil _).symm
  · rename_i hstale
    rw [delete, if_neg hstale]
    exact sent_say _ _ _ _

theorem mem_staleKeys_filter {keys : List String} {key : String} :
    key ∈ c.staleKeys (keys.filter StateKey.isStateKey) ↔ key ∈ keys ∧ c.Abandons key := by
  rw [ServiceConfig.staleKeys, List.mem_filter, List.mem_filter, ServiceConfig.isStale_iff]
  constructor
  · rintro ⟨⟨hkey, -⟩, habandons⟩
    exact ⟨hkey, habandons⟩
  · rintro ⟨hkey, habandons⟩
    have hnames := habandons
    obtain ⟨ns, bucket, hnames, -⟩ := hnames
    exact ⟨⟨hkey, StateKey.isStateKey_of_names hnames⟩, habandons⟩

/-- The keys that are left are those that are not of abandoned buckets, however they are listed. -/
theorem mem_left_clean {keys : List String} {l : Listing} (hshows : l.Shows keys)
    (rest : List Reply) (key : String) :
    key ∈ ((clean c).run ⟨l.replies ++ rest, []⟩).2.left keys ↔ key ∈ keys ∧ ¬c.Abandons key := by
  have hlisted (hkey : key ∈ keys) (habandons : c.Abandons key) : key ∈ l.keys := by
    obtain ⟨ns, bucket, hnames, -⟩ := habandons
    exact hshows key hkey (matches_pattern_of_isStateKey (StateKey.isStateKey_of_names hnames))
  have hleft : key ∈ ((clean c).run ⟨l.replies ++ rest, []⟩).2.left keys ↔
      key ∈ keys ∧ key ∉ c.staleKeys (l.keys.filter StateKey.isStateKey) := by
    rw [Session.left, sent_clean, List.foldl_append, foldl_obey_scanCommands]
    split
    · rename_i hempty
      rw [List.isEmpty_iff.mp hempty]
      simp
    · simp [obey]
  rw [hleft, mem_staleKeys_filter]
  exact and_congr_right fun hkey => not_congr
    ⟨And.right, fun habandons => ⟨hlisted hkey habandons, habandons⟩⟩

/-- If a page cannot be read, cleaning fails with that, and nothing else is asked for. -/
theorem run_clean_of_noPage (c : ServiceConfig) (pages : List Page) {replies : List Reply}
    (h : NoPage replies) :
    ∃ message, (clean c).run ⟨pages.map Page.reply ++ replies, []⟩ =
      (.error (.connection message), ⟨replies.drop 1, scanCommands 0 pages⟩) := by
  obtain ⟨message, hscan⟩ := run_scan_of_noPage pages h
  exact ⟨message, run_bind_of_error hscan⟩

end Exchange

end Redis

namespace Link

variable {tick : Nat → Int → Int} {l : Link} {h : Handle}

/-- Cleaning the store in memory leaves the live keys that are not of abandoned buckets. -/
theorem mem_keys_clean (c : ServiceConfig)
    (hconnects : (getOrConnect.run.run (passing tick) l).1 = some (.ok h)) (hcan : CanClean l)
    (key : String) :
    let l' := ((clean c).run.run (passing tick) l).2
    key ∈ l'.backend.store.keys l'.backend.now ↔
      key ∈ l.backend.store.keys l'.backend.now ∧ ¬c.Abandons key := by
  intro l'
  obtain ⟨l₁, hget⟩ : ∃ l₁, getOrConnect.run.run (passing tick) l = (some (.ok h), l₁) :=
    ⟨_, Prod.ext hconnects rfl⟩
  have hcurrent : l₁.connections.current = some h :=
    current_of_endsAmid_getOrConnect (Task.endsAmid_of_run (passing tick) (fun _ _ => rfl) hget)
  have hspared : l₁.backend.spared = l.backend.spared := by
    have hkept := Task.Changes.kept_of_run (fun l : Link => l.backend.spared) (passing tick)
      (fun _ _ => rfl) spares_getOrConnect l
    rwa [hget] at hkept
  have hcells : l₁.cells = l.cells := congrArg Prod.fst hspared
  have hcan₁ : CanClean l₁ := by
    have hscans : l₁.backend.outages.scans = l.backend.outages.scans :=
      congrArg (fun v => v.2.1) hspared
    have hdeletes : l₁.backend.outages.deletes = l.backend.outages.deletes :=
      congrArg (fun v => v.2.2) hspared
    rwa [CanClean, hscans, hdeletes]
  obtain ⟨r, l₂, hclean, hnow, hleft⟩ := run_clean c (passing tick) hcurrent
  -- Once there is a connection, it is no matter that it was opened only now.
  have hagain : (clean c).run.run (passing tick) l = (clean c).run.run (passing tick) l₁ := by
    change (getOrConnect.run.andThen _).run _ l = (getOrConnect.run.andThen _).run _ l₁
    rw [Task.run_andThen, Task.run_andThen, hget, run_getOrConnect (passing tick) hcurrent]
  have hl' : l' = l₂ := congrArg Prod.snd (hagain.trans hclean)
  have hstored (cell : Cell) : l'.backend.store.cells.get? key = some cell ↔
      l.backend.store.cells.get? key = some cell ∧
        ¬(cell.isLive l'.backend.now = true ∧ c.Abandons key) := by
    change l'.cells.get? key = some cell ↔ l.cells.get? key = some cell ∧ _
    rw [hl', hleft, get?_cleaned, hcells, hnow]
    simp [hcan₁]
  simp only [Store.mem_keys, Store.get?_live, hstored]
  constructor
  · rintro ⟨cell, ⟨hcell, hkept⟩, hlive⟩
    exact ⟨⟨cell, hcell, hlive⟩, fun habandons => hkept ⟨hlive, habandons⟩⟩
  · rintro ⟨⟨cell, hcell, hlive⟩, hkept⟩
    exact ⟨cell, ⟨hcell, fun hgone => hkept hgone.2⟩, hlive⟩

end Link

namespace Redis

/-- Cleaning a Redis store reads all pages at the cursors that were handed out, and leaves the keys
that are not of abandoned buckets, on whatever pages they are. These are the keys that cleaning
leaves in memory if the same ones were live there. If any page cannot be read, all keys are left. -/
theorem clean_agrees (c : ServiceConfig) (keys : List String) (listing : Listing)
    (hshows : listing.Shows keys) (rest : List Reply) :
    let cleaned := (Exchange.clean c).run ⟨listing.replies ++ rest, []⟩
    let left := cleaned.2.left keys
    scanCommands 0 listing.pages <+: cleaned.2.sent ∧
    (∀ key, key ∈ left ↔ key ∈ keys ∧ ¬c.Abandons key) ∧
    (∀ (tick : Nat → Int → Int) (l : Link) (h : Handle),
      (Link.getOrConnect.run.run (Link.passing tick) l).1 = some (.ok h) → l.CanClean →
      let l' := ((Link.clean c).run.run (Link.passing tick) l).2
      (∀ key, key ∈ keys ↔ key ∈ l.backend.store.keys l'.backend.now) →
      ∀ key, key ∈ left ↔ key ∈ l'.backend.store.keys l'.backend.now) ∧
    ∀ (pages : List Page) (replies : List Reply), NoPage replies →
      let broken := (Exchange.clean c).run ⟨pages.map Page.reply ++ replies, []⟩
      (∃ message, broken.1 = .error (.connection message)) ∧
      broken.2.sent = scanCommands 0 pages ∧ broken.2.left keys = keys := by
  intro cleaned left
  have hleft : ∀ key, key ∈ left ↔ key ∈ keys ∧ ¬c.Abandons key :=
    Exchange.mem_left_clean hshows rest
  refine ⟨?_, hleft, ?_, ?_⟩
  · rw [Exchange.sent_clean]
    exact List.prefix_append _ _
  · intro tick l h hconnects hcan l' hsame key
    rw [hleft key, hsame key]
    exact (Link.mem_keys_clean c hconnects hcan key).symm
  · intro pages replies hnone broken
    obtain ⟨message, hbroken⟩ := Exchange.run_clean_of_noPage c pages hnone
    have heq : broken = _ := hbroken
    rw [heq]
    exact ⟨⟨message, rfl⟩, rfl, foldl_obey_scanCommands keys 0 pages⟩

/-- A key of a bucket that is gone is on both pages, and one of somebody else on the last. -/
theorem clean_agrees_twice_listed :
    let c : ServiceConfig := ⟨1, 1, "", none, (∅ : NameMap NamespaceConfig).insert "api"
      ((NamespaceConfig.ofName "api").withBucket "search" (.ofRate 1 1))⟩
    let keys := ["api:search:AT", "api:removed:AT", "api:removed:owner"]
    let listing : Listing := ⟨[⟨17, ["api:removed:AT"], by decide, by decide⟩], keys⟩
    let cells : NameMap Cell := .ofList (keys.map fun key => (key, ⟨1, none⟩))
    let l : Link := ⟨⟨some ⟨0, 1, "take"⟩, false⟩, ⟨5, ⟨cells, [], 1⟩, Outages.none, 1⟩⟩
    let left := ((Exchange.clean c).run ⟨listing.replies ++ [.integer 1], []⟩).2.left keys
    let l' := ((Link.clean c).run.run (Link.passing fun _ now => now) l).2
    (∀ key, key ∈ left ↔ key ∈ l'.backend.store.keys l'.backend.now) ∧
    "api:removed:AT" ∉ left ∧ "api:removed:owner" ∈ left ∧
    ((Exchange.clean c).run ⟨listing.pages.map Page.reply ++ [.error "ERR"], []⟩).2.left keys =
      keys := by
  intro c keys listing cells l left l'
  have hshows : listing.Shows keys := fun key hkey _ => List.mem_append_right _ hkey
  obtain ⟨-, hleft, hmemory, hbroken⟩ := clean_agrees c keys listing hshows [.integer 1]
  have habandons : c.Abandons "api:removed:AT" := ServiceConfig.isStale_iff.mp (by decide +kernel)
  have hkept : ¬c.Abandons "api:removed:owner" := fun h =>
    absurd (ServiceConfig.isStale_iff.mpr h) (by decide +kernel)
  refine ⟨hmemory _ l ⟨0, 1, "take"⟩ rfl ⟨rfl, rfl⟩ ?_, ?_, ?_, ?_⟩
  · have hlive : l.backend.store.keys l'.backend.now =
        ["api:removed:AT", "api:removed:owner", "api:search:AT"] := by decide +kernel
    intro key
    rw [hlive]
    simp [keys]
    tauto
  · exact fun hmem => ((hleft _).mp hmem).2 habandons
  · exact (hleft _).mpr ⟨by decide, hkept⟩
  · refine (hbroken listing.pages [.error "ERR"] ?_).2.2
    intro r hr p hpage
    cases hr
    cases hpage

end Redis

end TokenQuota
