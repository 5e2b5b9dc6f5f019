import TokenQuota.Proofs.Bucket.Charging
import TokenQuota.Proofs.Bucket.Serving
import TokenQuota.Proofs.Config.Validity
import TokenQuota.Proofs.Store.Cells
import TokenQuota.Proofs.Store.Opening
import TokenQuota.Proofs.TokenBucket.StaleKeys

/-!
Preparing the store deletes the live cells of the buckets that the configuration does not account
for, and nothing else. The buckets that are found for the configuration are never among them.
-/

namespace TokenQuota

namespace ServiceConfig

/-- What the configuration has deleted from the cells of a store. -/
def doomed (c : ServiceConfig) (s : Store) (now : Int) : List String :=
  c.staleKeys (s.stateKeys now)

theorem mem_doomed (c : ServiceConfig) (s : Store) (now : Int) (key : String) :
    key ∈ c.doomed s now ↔ (∃ cell, (s.live now).get? key = some cell) ∧ c.Abandons key := by
  unfold doomed staleKeys Store.stateKeys
  rw [List.mem_filter, List.mem_filter, Store.mem_keys, isStale_iff]
  constructor
  · rintro ⟨⟨hlive, -⟩, habandons⟩
    exact ⟨hlive, habandons⟩
  · rintro ⟨hlive, habandons⟩
    have habandons' := habandons
    obtain ⟨ns, bucket, hnames, -⟩ := habandons
    exact ⟨⟨hlive, StateKey.isStateKey_of_names hnames⟩, habandons'⟩

end ServiceConfig

/-- A name of a bucket that is accounted for has no separator in its namespace. -/
theorem ServiceConfig.separator_notMem_of_accounts {c : ServiceConfig} {ns bucket : String}
    (hcheck : c.check = .ok ()) (h : c.Accounts ns bucket) : ':' ∉ ns.toList := by
  cases h with
  | named hns hbucket => exact separator_notMem_of_checkName (checkName_namespace hcheck hns)
  | template hns htemplate => exact separator_notMem_of_checkName (checkName_namespace hcheck hns)
  | fallback hns hdefault => exact separator_notMem_of_checkName (checkName_namespace hcheck hns)
  | globalDefault hdefault => decide

theorem Bucket.names_of_terms {o : Option Bucket} {p : Option BucketConfig} {ns name : String}
    {dynamic : Bool} {b : Bucket}
    (h : o.map terms = p.map fun config => (ns, name, config, dynamic)) (ho : o = some b) :
    ∃ config, p = some config ∧ b.ns = ns ∧ b.name = name := by
  rw [ho] at h
  obtain ⟨config, hconfig, hterms⟩ := Option.map_eq_some_iff.mp h.symm
  exact ⟨config, hconfig, (congrArg (fun t => t.1) hterms).symm,
    (congrArg (fun t => t.2.1) hterms).symm⟩

theorem NamespaceBuckets.template_of_findDynamic {nb : NamespaceBuckets} {key name : String}
    {ns : NamespaceConfig} {r : Roster} {b : Bucket} (hserves : nb.Serves key ns)
    (hfind : (nb.findDynamic key name r).1 = some b) :
    b.ns = key ∧ ∃ t, ns.template = some t := by
  unfold findDynamic at hfind
  split at hfind
  · cases hfind
  · split at hfind
    · rename_i b' hlives
      cases hfind
      obtain ⟨t, htemplate, hterms⟩ := Option.map_eq_some_iff.mp (hserves.dynamic name b hlives)
      exact ⟨(congrArg (fun t => t.1) hterms).symm, t, htemplate⟩
    · rename_i hnone
      split at hfind
      · cases hfind
      · rename_i t htemplate
        have hconfig := template_of_templateFor? htemplate
        rw [hserves.config] at hconfig
        unfold putDynamic at hfind
        rw [hnone] at hfind
        cases hfind
        exact ⟨rfl, t, hconfig⟩

namespace Container

/-- Looks up buckets one after the other. -/
def findAll (finds : List (String × String)) (b : Container × Roster) : Container × Roster :=
  finds.foldl (fun b q => (b.1.find q.1 q.2 b.2).2) b

theorem serves_findAll {c : ServiceConfig} (finds : List (String × String))
    {b : Container × Roster} (h : b.1.Serves c) : (findAll finds b).1.Serves c := by
  induction finds generalizing b with
  | nil => exact h
  | cons q rest ih => exact ih ((follows_find b.1 q.1 q.2 b.2).serves c h)

/-- Whatever bucket is found is one that the configuration accounts for. -/
theorem accounts_of_find {c : ServiceConfig} {b : Container} {key name : String} {r : Roster}
    {found : Bucket} (hserves : b.Serves c) (hfind : (b.find key name r).1 = some found) :
    c.Accounts found.ns found.name := by
  have hglobal : b.globalDefault = some found → c.Accounts found.ns found.name := by
    intro hfound
    obtain ⟨config, hconfig, hns, hname⟩ := Bucket.names_of_terms hserves.globalDefault hfound
    rw [hns, hname]
    exact .globalDefault hconfig
  unfold find at hfind
  split at hfind
  · exact hglobal hfind
  · rename_i nb hnb
    cases hns : c.namespaces.get? key with
    | none =>
        rw [hserves.noOthers key hns] at hnb
        cases hnb
    | some nc =>
        obtain ⟨nb', hnb', hserved⟩ := hserves.namespaces key nc hns
        rw [hnb] at hnb'
        cases hnb'
        split at hfind
        · rename_i b' hnamed
          cases hfind
          obtain ⟨config, hconfig, hkey, hname⟩ :=
            Bucket.names_of_terms (hserved.named name) hnamed
          rw [hkey, hname]
          exact .named hns hconfig
        · split at hfind
          · rename_i b' nb' r' hdynamic
            cases hfind
            obtain ⟨hkey, t, htemplate⟩ := NamespaceBuckets.template_of_findDynamic hserved
              (congrArg Prod.fst hdynamic)
            rw [hkey]
            exact .template hns htemplate
          · rcases Option.or_eq_some_iff.mp hfind with hfallback | ⟨-, hdefault⟩
            · obtain ⟨config, hconfig, hkey, hname⟩ :=
                Bucket.names_of_terms hserved.fallback hfallback
              rw [hkey, hname]
              exact .fallback hns hconfig
            · exact hglobal hdefault

end Container

namespace Backend

theorem scan_eq (b : Backend) : scan b =
    (if b.outages.scans.isHit then .error (injected "scan") else .ok (b.store.stateKeys b.now),
      { b with outages.scans := b.outages.scans.called }) := by
  cases hhit : b.outages.scans.isHit with
  | true => simp [scan, guarded, hhit]
  | false => simp [scan, guarded, hhit]

theorem delete_spec (keys : List String) (b : Backend) : (delete keys b).2.now = b.now ∧
    (delete keys b).2.store.cells =
      if b.outages.deletes.isHit then b.store.cells else (Store.delete keys b.store).2.cells := by
  cases hhit : b.outages.deletes.isHit with
  | true => simp [delete, guarded, hhit]
  | false => simp [delete, guarded, hhit]

end Backend

namespace Link

/-- All but the reading of the clock and the handles given out. -/
def timeless (l : Link) : Connections × Store × Outages :=
  (l.connections, l.backend.store, l.backend.outages)

/-- While an activity sleeps, only the clock of the store goes on. -/
def passing (tick : Nat → Int → Int) (millis : Nat) (l : Link) : Link :=
  { l with backend.now := tick millis l.backend.now }

variable {c : ServiceConfig} {tick : Nat → Int → Int} {l l' : Link} {h : Handle}

theorem connections_of_timeless (h : timeless l' = timeless l) :
    l'.connections = l.connections :=
  congrArg Prod.fst h

theorem current_of_endsAmid_pure {h' : Handle}
    (hends : (pure h' : Client Handle).run.EndsAmid timeless l (.ok h) l')
    (hcurrent : l.connections.current = some h') : l'.connections.current = some h := by
  obtain ⟨heq, hstill⟩ := Task.endsAmid_done hends
  cases heq
  rw [connections_of_timeless hstill, hcurrent]

theorem endsAmid_current {o : Option Handle}
    (hends : current.run.EndsAmid timeless l (.ok o) l') :
    o = l.connections.current ∧ l'.connections = l.connections := by
  obtain ⟨l₁, heq, hstill, hstill'⟩ := Action.endsAmid_read hends
  cases heq
  rw [connections_of_timeless hstill, connections_of_timeless hstill']
  exact ⟨rfl, rfl⟩

theorem current_of_endsAmid_renew (hends : renew.run.EndsAmid timeless l (.ok h) l') :
    l'.connections.current = some h := by
  rcases Action.endsAmid_bind hends with ⟨a, l₁, -, hpublish⟩ | ⟨e, l₁, heq, -⟩
  · obtain ⟨h', l₂, heq, hatOnce, hstill⟩ := Action.endsAmid_ofTask hpublish
    cases heq
    obtain ⟨l₃, -, rfl, hstill'⟩ := Task.endsAmid_atOnce hatOnce
    rw [connections_of_timeless (hstill.trans hstill')]
    rfl
  · cases heq

/-- What is current in the end is so before the lock is left. -/
theorem current_of_endsAmid_holding {a : Client Handle}
    (ha : ∀ {l l' : Link}, a.run.EndsAmid timeless l (.ok h) l' → l'.connections.current = some h)
    (hends : (Action.holding lock a).run.EndsAmid timeless l (.ok h) l') :
    l'.connections.current = some h := by
  obtain ⟨l₁, l₂, l₃, -, -, hinner, hstill, hleave⟩ := Task.endsAmid_holding hends
  have hcurrent := ha hinner
  rw [← connections_of_timeless hstill] at hcurrent
  rw [connections_of_timeless hleave]
  exact hcurrent

theorem current_of_endsAmid_orElse {a : Client Handle}
    (ha : ∀ {l l' : Link}, a.run.EndsAmid timeless l (.ok h) l' → l'.connections.current = some h)
    (hends : (do
      match ← current with
      | some h => return h
      | none => a : Client Handle).run.EndsAmid timeless l (.ok h) l') :
    l'.connections.current = some h := by
  rcases Action.endsAmid_bind hends with ⟨o, l₁, hread, hrest⟩ | ⟨e, l₁, heq, -⟩
  · obtain ⟨rfl, hconnections⟩ := endsAmid_current hread
    cases hcurrent : l.connections.current with
    | some h' =>
        rw [hcurrent] at hrest
        exact current_of_endsAmid_pure hrest (by rw [hconnections, hcurrent])
    | none =>
        rw [hcurrent] at hrest
        exact ha hrest
  · cases heq

theorem current_of_endsAmid_getOrConnect
    (hends : getOrConnect.run.EndsAmid timeless l (.ok h) l') :
    l'.connections.current = some h :=
  current_of_endsAmid_orElse
    (current_of_endsAmid_holding (current_of_endsAmid_orElse current_of_endsAmid_renew)) hends

theorem current_of_endsAmid_reconnect {seen : Handle}
    (hends : (reconnect seen).run.EndsAmid timeless l (.ok h) l') :
    l'.connections.current = some h := by
  refine current_of_endsAmid_holding ?_ hends
  intro l l' hinner
  rcases Action.endsAmid_bind hinner with ⟨o, l₁, hdrop, hrest⟩ | ⟨e, l₁, heq, -⟩
  · obtain ⟨o', l₂, heq, hatOnce, hstill⟩ := Action.endsAmid_ofTask hdrop
    cases heq
    obtain ⟨l₃, -, rfl, hstill'⟩ := Task.endsAmid_atOnce hatOnce
    cases hdropped : (dropIfSeen seen l₃).1 with
    | some h' =>
        rw [hdropped] at hrest
        obtain ⟨hcurrent, -, hsame⟩ := dropIfSeen_some hdropped
        refine current_of_endsAmid_pure hrest ?_
        rw [connections_of_timeless (hstill.trans hstill'), hsame, hcurrent]
    | none =>
        rw [hdropped] at hrest
        exact current_of_endsAmid_renew hrest
  · cases heq

theorem current_refresh {seen : Handle} (script : String)
    (hcurrent : l.connections.current = some h) :
    (refresh seen script l).2.connections.current = some (refresh seen script l).1 := by
  unfold refresh
  rw [hcurrent]
  dsimp only
  split
  · rfl
  · exact hcurrent

/-- Whoever runs alone and has ensured the script leaves a connection behind. -/
theorem current_of_endsAmid_ensureScript
    (hends : ensureScript.run.EndsAmid timeless l (.ok h) l') :
    l'.connections.current = some h := by
  rcases Action.endsAmid_bind hends with ⟨h', l₁, hget, hrest⟩ | ⟨e, l₁, heq, -⟩
  · obtain ⟨r, l₂, hload, hlast⟩ := Action.endsAmid_bind_outcome hrest
    have hconnections : l₂.connections = l₁.connections :=
      ((aside_loadScript takeScript).mono fun _ _ h => h.connections).kept_of_endsAmid
        Link.connections (fun _ _ => connections_of_timeless) hload
    have hcurrent : l₂.connections.current = some h' := by
      rw [hconnections]
      exact current_of_endsAmid_getOrConnect hget
    cases r with
    | error e => exact current_of_endsAmid_reconnect hlast
    | ok script =>
        change (if script = h'.script then pure h' else replaceScript h' script :
          Client Handle).run.EndsAmid timeless l₂ (.ok h) l' at hlast
        split at hlast
        · exact current_of_endsAmid_pure hlast hcurrent
        · obtain ⟨l₃, l₄, l₅, hbefore, -, hinner, hstill, hleave⟩ := Task.endsAmid_holding hlast
          obtain ⟨h'', l₆, heq, hatOnce, hstill₄⟩ := Action.endsAmid_ofTask hinner
          cases heq
          obtain ⟨l₇, hstill₇, rfl, hstill₆⟩ := Task.endsAmid_atOnce hatOnce
          rw [connections_of_timeless hleave]
          change l₅.connections.current = _
          rw [connections_of_timeless ((hstill.trans hstill₄).trans hstill₆)]
          refine current_refresh script (h := h') ?_
          rw [connections_of_timeless hstill₇]
          change l₃.connections.current = _
          rw [connections_of_timeless hbefore, hcurrent]
  · cases heq

theorem run_getOrConnect (elapse : Nat → Link → Link) (hcurrent : l.connections.current = some h) :
    getOrConnect.run.run elapse l = (some (.ok h), l) := by
  have hread : current.run.run elapse l = (some (.ok (some h)), l) := by
    rw [← hcurrent]
    rfl
  change (current.run.andThen _).run elapse l = _
  rw [Task.run_andThen, hread]
  rfl

/-- The cells that are left when the store is cleaned. Nothing is deleted if the keys cannot be
listed or deleted. -/
def cleaned (c : ServiceConfig) (l : Link) : NameMap Cell :=
  if l.backend.outages.scans.isHit || l.backend.outages.deletes.isHit then l.cells
  else (Store.delete (c.doomed l.backend.store l.backend.now) l.backend.store).2.cells

theorem run_call {α : Type} (elapse : Nat → Link → Link) (f : Call α) (l : Link) :
    (call f).run.run elapse l =
      (some (f l.backend).1, { l with backend := (f l.backend).2 }) := rfl

theorem run_delete (keys : List String) (elapse : Nat → Link → Link) (l : Link) :
    ∃ r l', (if keys.isEmpty then pure 0 else call (Backend.delete keys) : Client Nat).run.run
        elapse l = (some r, l') ∧ l'.backend.now = l.backend.now ∧
      l'.cells = if l.backend.outages.deletes.isHit then l.cells
        else (Store.delete keys l.backend.store).2.cells := by
  cases keys with
  | nil => exact ⟨_, l, rfl, rfl, (ite_self _).symm⟩
  | cons key rest => exact ⟨_, _, rfl, Backend.delete_spec (key :: rest) l.backend⟩

theorem run_clean (c : ServiceConfig) (elapse : Nat → Link → Link)
    (hcurrent : l.connections.current = some h) :
    ∃ r l', (clean c).run.run elapse l = (some r, l') ∧ l'.backend.now = l.backend.now ∧
      l'.cells = cleaned c l := by
  have hclean : (clean c).run.run elapse l =
      (c.clean (call Backend.scan) fun keys => call (Backend.delete keys)).run.run elapse l := by
    change (getOrConnect.run.andThen _).run elapse l = _
    rw [Task.run_andThen, run_getOrConnect elapse hcurrent]
    rfl
  rw [hclean]
  change ∃ r l', ((call Backend.scan).run.andThen _).run elapse l = (some r, l') ∧ _
  rw [Task.run_andThen, run_call, Backend.scan_eq]
  unfold cleaned
  cases hscan : l.backend.outages.scans.isHit with
  | true => exact ⟨_, _, rfl, rfl, rfl⟩
  | false =>
      exact run_delete (c.doomed l.backend.store l.backend.now) elapse
        { l with backend.outages.scans := l.backend.outages.scans.called }

theorem run_prepare (c : ServiceConfig) (tick : Nat → Int → Int) (l : Link) :
    let ensured := ensureScript.run.run (passing tick) l
    let prepared := (prepare c).run.run (passing tick) l
    (∃ h, ensured.1 = some (.ok h) ∧ prepared.1 = some (.ok ()) ∧
      prepared.2.backend.now = ensured.2.backend.now ∧ prepared.2.cells = cleaned c ensured.2) ∨
    (∀ h, ensured.1 ≠ some (.ok h)) ∧ prepared.1 ≠ some (.ok ()) ∧ prepared.2 = ensured.2 := by
  intro ensured prepared
  have hprepared : prepared = match ensureScript.run.run (passing tick) l with
      | (some (.ok _), l₁) =>
        ((clean c).outcome >>= fun _ => pure () : Client Unit).run.run (passing tick) l₁
      | (some (.error e), l₁) => (some (.error e), l₁)
      | (none, l₁) => (none, l₁) := by
    refine (Task.run_andThen (passing tick) ensureScript.run _ l).trans ?_
    split
    · rename_i r l₁ heq
      rw [heq]
      cases r with
      | ok h => rfl
      | error e => rfl
    · rename_i l₁ heq
      rw [heq]
  rw [hprepared]
  cases hensured : ensured with
  | mk r l₁ =>
      have hensured' : ensureScript.run.run (passing tick) l = (r, l₁) := hensured
      rw [hensured']
      cases r with
      | none => exact .inr ⟨fun _ => by simp, by simp, rfl⟩
      | some r =>
          cases r with
          | error e => exact .inr ⟨fun _ => by simp, by simp, rfl⟩
          | ok h =>
              have hcurrent := current_of_endsAmid_ensureScript
                (Task.endsAmid_of_run (passing tick) (fun _ _ => rfl) hensured')
              obtain ⟨r, l', hclean, hnow, hcells⟩ := run_clean c (passing tick) hcurrent
              have hlast : ((clean c).outcome >>= fun _ => pure () : Client Unit).run.run
                  (passing tick) l₁ = (some (.ok ()), l') := by
                rw [Action.run_outcome_bind, Task.run_andThen, hclean]
                rfl
              refine .inl ⟨h, rfl, ?_⟩
              dsimp only
              rw [hlast]
              exact ⟨rfl, hnow, hcells⟩

theorem spared_ensureScript (tick : Nat → Int → Int) (l : Link) :
    (ensureScript.run.run (passing tick) l).2.backend.spared = l.backend.spared :=
  Task.Changes.kept_of_run (fun l : Link => l.backend.spared) (passing tick) (fun _ _ => rfl)
    spares_ensureScript l

/-- The store can list and delete its keys. -/
def CanClean (l : Link) : Prop :=
  l.backend.outages.scans.isHit = false ∧ l.backend.outages.deletes.isHit = false

theorem get?_cleaned {key : String} {cell : Cell} : (cleaned c l).get? key = some cell ↔
    l.cells.get? key = some cell ∧
      ¬(CanClean l ∧ cell.isLive l.backend.now = true ∧ c.Abandons key) := by
  unfold cleaned
  split
  · rename_i hhit
    have hnot : ¬CanClean l := by
      rintro ⟨hscan, hdelete⟩
      simp [hscan, hdelete] at hhit
    simp [hnot]
  · rename_i hhit
    have hcan : CanClean l := by
      unfold CanClean
      simpa using hhit
    rw [Store.get?_delete]
    change _ ↔ l.backend.store.cells.get? key = some cell ∧ _
    have hdoomed := c.mem_doomed l.backend.store l.backend.now key
    split
    · rename_i hmem
      obtain ⟨⟨cell', hcell'⟩, habandons⟩ := hdoomed.mp hmem
      obtain ⟨hget, hlive⟩ := Store.get?_live.mp hcell'
      rw [hget]
      constructor
      · rintro ⟨⟩
      · rintro ⟨⟨⟩, hkept⟩
        exact absurd ⟨hcan, hlive, habandons⟩ hkept
    · rename_i hmem
      refine ⟨fun hget => ⟨hget, fun ⟨_, hlive, habandons⟩ => hmem (hdoomed.mpr ?_)⟩, And.left⟩
      exact ⟨⟨cell, Store.get?_live.mpr ⟨hget, hlive⟩⟩, habandons⟩

/-- A cell is left if it was there, unless the store was cleaned while it was live and its bucket
is not accounted for. -/
theorem get?_prepare (c : ServiceConfig) (tick : Nat → Int → Int) (l : Link) (key : String)
    (cell : Cell) :
    let prepared := (prepare c).run.run (passing tick) l
    prepared.2.cells.get? key = some cell ↔ l.cells.get? key = some cell ∧
      ¬(prepared.1 = some (.ok ()) ∧ CanClean l ∧
        cell.isLive prepared.2.backend.now = true ∧ c.Abandons key) := by
  intro prepared
  have hspared := spared_ensureScript tick l
  have hcells : (ensureScript.run.run (passing tick) l).2.cells = l.cells :=
    congrArg Prod.fst hspared
  have hcan : CanClean (ensureScript.run.run (passing tick) l).2 ↔ CanClean l := by
    have hscans : (ensureScript.run.run (passing tick) l).2.backend.outages.scans =
        l.backend.outages.scans := congrArg (fun v => v.2.1) hspared
    have hdeletes : (ensureScript.run.run (passing tick) l).2.backend.outages.deletes =
        l.backend.outages.deletes := congrArg (fun v => v.2.2) hspared
    rw [CanClean, hscans, hdeletes]
    rfl
  rcases run_prepare c tick l with ⟨h, -, hok, hnow, heq⟩ | ⟨-, hnot, heq⟩
  · rw [heq, get?_cleaned, hcells, hcan, ← hnow]
    simp [prepared, hok]
  · rw [heq]
    simp [prepared, hnot, hcells]

/-- To prepare the store succeeds if the script is there, whether or not the store can be cleaned.
If it can, the live cells are then those that were live before, but for the buckets that the
configuration does not account for, and to prepare it once more changes no cell. If it cannot, no
cell changes. The cells of all buckets that are found for the configuration stay in any case. -/
theorem prepare_exact {c : ServiceConfig} (hcheck : c.check = .ok ()) (tick : Nat → Int → Int)
    (l : Link) :
    let ensured := ensureScript.run.run (passing tick) l
    let prepared := (prepare c).run.run (passing tick) l
    let l' := prepared.2
    (prepared.1 = some (.ok ()) ↔ ∃ h, ensured.1 = some (.ok h)) ∧
    (¬CanClean l → l'.cells = l.cells) ∧
    (prepared.1 = some (.ok ()) → CanClean l →
      (∀ key cell, (l'.backend.store.live l'.backend.now).get? key = some cell ↔
        (l.backend.store.live l'.backend.now).get? key = some cell ∧ ¬c.Abandons key) ∧
      ∀ tick' again, again.cells = l'.cells →
        let l'' := ((prepare c).run.run (passing tick') again).2
        l''.backend.now = l'.backend.now → l''.cells = l'.cells) ∧
    ∀ finds r key name b, let searched := Container.findAll finds (Container.make c r)
      (searched.1.find key name searched.2).1 = some b →
        l'.cells.get? b.keys.nextAvailable = l.cells.get? b.keys.nextAvailable ∧
        l'.cells.get? b.keys.accumulated = l.cells.get? b.keys.accumulated := by
  intro ensured prepared l'
  have hget := get?_prepare c tick l
  refine ⟨?_, ?_, ?_, ?_⟩
  · rcases run_prepare c tick l with ⟨h, hensured, hok, -⟩ | ⟨hensured, hnot, -⟩
    · exact ⟨fun _ => ⟨h, hensured⟩, fun _ => hok⟩
    · exact ⟨fun hok => absurd hok hnot, fun ⟨h, hh⟩ => absurd hh (hensured h)⟩
  · intro hcannot
    refine NameMap.ext_get? fun key cell => (hget key cell).trans ?_
    simp [hcannot]
  · intro hok hcan
    constructor
    · intro key cell
      rw [Store.get?_live, Store.get?_live]
      constructor
      · rintro ⟨hcell, hlive⟩
        obtain ⟨hbefore, hkept⟩ := (hget key cell).mp hcell
        exact ⟨⟨hbefore, hlive⟩, fun habandons => hkept ⟨hok, hcan, hlive, habandons⟩⟩
      · rintro ⟨⟨hbefore, hlive⟩, hnot⟩
        exact ⟨(hget key cell).mpr ⟨hbefore, fun hgone => hnot hgone.2.2.2⟩, hlive⟩
    · intro tick' again hcells l'' hnow
      refine NameMap.ext_get? fun key cell => (get?_prepare c tick' again key cell).trans ?_
      rw [hcells]
      constructor
      · exact And.left
      · intro hcell
        refine ⟨hcell, fun ⟨_, _, hlive, habandons⟩ => ?_⟩
        rw [hnow] at hlive
        exact ((hget key cell).mp hcell).2 ⟨hok, hcan, hlive, habandons⟩
  · intro finds r key name b searched hfind
    have haccounts := Container.accounts_of_find
      (Container.serves_findAll finds (Container.serves_make c r)) hfind
    have hns := ServiceConfig.separator_notMem_of_accounts hcheck haccounts
    have hkept : ∀ k, StateKey.Names b.ns b.name k → l'.cells.get? k = l.cells.get? k := by
      intro k hnames
      refine Option.ext fun cell => (hget k cell).trans ?_
      simp [ServiceConfig.not_abandons_of_accounts haccounts hnames]
    exact ⟨hkept _ ⟨hns, .inl rfl⟩, hkept _ ⟨hns, .inr rfl⟩⟩

/-- A bucket was taken out of the configuration: its cell goes, and those of another bucket and of
somebody else stay. -/
theorem prepare_exact_removed :
    let c : ServiceConfig := ⟨1, 1, "", none, (∅ : NameMap NamespaceConfig).insert "api"
      ((NamespaceConfig.ofName "api").withBucket "search" (.ofRate 1 1))⟩
    let cells : NameMap Cell := .ofList [("api:search:AT", ⟨1, none⟩),
      ("api:removed:AT", ⟨2, none⟩), ("api.removed.AT", ⟨3, none⟩)]
    let l : Link := ⟨⟨some ⟨0, 1, "take"⟩, false⟩,
      ⟨5, ⟨cells, [], 1⟩, { Outages.none with reportedName := some "take" }, 1⟩⟩
    let l' := ((prepare c).run.run (passing fun _ now => now) l).2
    (∀ key cell, (l'.backend.store.live l'.backend.now).get? key = some cell ↔
      (l.backend.store.live l'.backend.now).get? key = some cell ∧ ¬c.Abandons key) ∧
    c.Abandons "api:removed:AT" ∧ l'.cells =
      .ofList [("api:search:AT", ⟨1, none⟩), ("api.removed.AT", ⟨3, none⟩)] := by
  intro c cells l l'
  have hcheck : c.check = .ok () := by decide +kernel
  have hok : ((prepare c).run.run (passing fun _ now => now) l).1.map Except.isOk = some true := by
    decide +kernel
  obtain ⟨r, hr, hisOk⟩ := Option.map_eq_some_iff.mp hok
  cases r with
  | error e => cases hisOk
  | ok u =>
      obtain ⟨hexact, -⟩ := (prepare_exact hcheck (fun _ now => now) l).2.2.1 hr ⟨rfl, rfl⟩
      exact ⟨hexact, ServiceConfig.isStale_iff.mp (by decide +kernel), by decide +kernel⟩

end Link

end TokenQuota
