import TokenQuota.Proofs.Bucket.Isolation
import TokenQuota.Proofs.Store.Cells
import TokenQuota.Proofs.Task.Protocol

/-!
What callers do on a link on which no call of a request fails, while others come between their
steps. No script is forgotten meanwhile, so every request is decided in its first attempt, at one
reading of the clock, and answered.
-/

namespace TokenQuota

/-- To delete keys harms no other call. -/
theorem Backend.works_delete {b : Backend} (h : b.Works) (keys : List String) :
    (delete keys b).2.Works ∧ (delete keys b).2.store.scripts = b.store.scripts := by
  have hscripts := Store.scripts_delete keys b.store
  unfold delete guarded
  dsimp only
  split
  · exact ⟨⟨h.connects, h.times, h.loads, h.slowLoads, h.takes, h.reported⟩, rfl⟩
  · refine ⟨⟨h.connects, h.times, h.loads, h.slowLoads, h.takes, fun name hname => ?_⟩, hscripts⟩
    change name ∈ (Store.delete keys b.store).2.scripts
    rw [hscripts]
    exact h.reported name hname

namespace Link

open TokenQuota.Protocol (succeeds)

/-- What a caller does on a link: it asks for tokens, or looks after the store. -/
inductive Errand
  | ask (b : Bucket) (requested : Int) (maxWait : Nat)
  | tend

/-- The calls of requests work, and the live connection has its script. -/
structure Sound (l : Link) : Prop where
  backend : l.backend.Works
  current : ∀ h, l.connections.current = some h → h.script ∈ l.backend.store.scripts

/-- No script is forgotten. -/
def Remembers (l l' : Link) : Prop :=
  ∀ script ∈ l.backend.store.scripts, script ∈ l'.backend.store.scripts

/-- A sound link stays so, with its scripts and its cells. -/
def Upholds (l l' : Link) : Prop :=
  l.Sound → l'.Sound ∧ l.Remembers l' ∧ l'.cells = l.cells

/-- What the store decides on a request when it is asked now, and what it holds then. -/
def reply (b : Bucket) (requested : Int) (maxWait : Nat) (l : Link) : Decision × Store :=
  l.backend.store.take l.backend.now b.keys (b.limits.take l.backend.now requested maxWait)

/-- What a step makes of the cells, and of what is known of a request once it is decided: the
reading of the clock, and the verdict. -/
inductive Progress :
    Errand → Link → Link → Option (Int × Verdict) → Option (Int × Verdict) → Prop
  | aside {i : Errand} {l l' : Link} {a : Option (Int × Verdict)} (hcells : l'.cells = l.cells) :
      Progress i l l' a a
  | tended {l l' : Link} {a : Option (Int × Verdict)} : Progress .tend l l' a a
  | decided {b : Bucket} {requested : Int} {maxWait : Nat} {l l' : Link}
      (hcells : l'.cells = (reply b requested maxWait l).2.cells) :
      Progress (.ask b requested maxWait) l l' none
        (some (l.backend.now, .ofResult (reply b requested maxWait l).1.result))

/-- Errands on a sound link. A role is what is known of the request, once it is decided. -/
def errands : Protocol Errand (Option (Int × Verdict)) Link where
  inv := Sound
  given _ := True
  rely _ := Remembers
  move i a a' l l' := l'.Sound ∧ l.Remembers l' ∧ Progress i l l' a a'
  rely_refl _ _ _ hscript := hscript
  rely_trans h h' script hscript := h' script (h script hscript)

variable {α : Type} {i : Errand} {a : Option (Int × Verdict)} {l l' : Link}

theorem Sound.setNow (h : l.Sound) (now : Int) : Sound { l with backend.now := now } :=
  ⟨h.backend.setNow now, h.current⟩

theorem Upholds.move (h : l.Upholds l') (hl : l.Sound) :
    errands.move i a a l l' ∧ errands.rely a l l' := by
  obtain ⟨hsound, hremembers, hcells⟩ := h hl
  exact ⟨⟨hsound, hremembers, .aside hcells⟩, hremembers⟩

theorem upholds_of_carries {connections : Connections} {b b' : Backend} (h : b.Carries b') :
    Upholds ⟨connections, b⟩ ⟨connections, b'⟩ := by
  intro hl
  refine ⟨⟨h.works, fun handle hcurrent => ?_⟩, h.scripts, h.cells⟩
  exact h.scripts _ (hl.current handle hcurrent)

theorem upholds_lock (taken : Bool) (l : Link) : Upholds l (lock.set taken l) :=
  fun hl => ⟨⟨hl.backend, hl.current⟩, fun _ hscript => hscript, rfl⟩

/-- Another live connection does no harm if it has its script. -/
theorem upholds_current {current : Option Handle} {handles : Nat}
    (h : ∀ handle, current = some handle → handle.script ∈ l.backend.store.scripts) :
    l.Upholds { l with connections.current := current, backend.handles := handles } := by
  intro hl
  exact ⟨⟨hl.backend.setHandles handles, h⟩, fun _ hscript => hscript, rfl⟩

theorem stable_true : errands.Stable a fun _ => True := fun _ _ _ _ => trivial

theorem stable_loaded (script : String) :
    errands.Stable a fun l => script ∈ l.backend.store.scripts :=
  fun _ _ hrely hscript => hrely script hscript

/-- A call that works, and leaves the cells, the clock and the scripts as they are. -/
theorem does_call {c : Call α} {S : α → Link → Prop} (hS : ∀ x, errands.Stable a (S x))
    (h : ∀ b : Backend, b.Works → ∃ x b', c b = (.ok x, b') ∧ b.Carries b' ∧
      ∀ connections, S x ⟨connections, b'⟩) :
    errands.Does i a (fun _ => True) (call c) (succeeds S) := by
  intro l _ l₁ hl₁ _ _ _
  obtain ⟨x, b', hc, hcarries, hx⟩ := h l₁.backend hl₁.backend
  refine ⟨a, ?_, ?_⟩
  · change errands.move i a a l₁ { l₁ with backend := (c l₁.backend).2 }
    rw [hc]
    exact ((upholds_of_carries hcarries).move hl₁).1
  · intro l₂ _ hrely
    change errands.rely a { l₁ with backend := (c l₁.backend).2 } l₂ at hrely
    change a = a ∧ succeeds S (c l₁.backend).1 l₂
    rw [hc] at hrely ⊢
    exact ⟨rfl, hS x _ l₂ hrely (hx l₁.connections)⟩

theorem upholds_delay :
    (Task.onPart store (Backend.delay Backend.slowLoads)).Changes Upholds := by
  refine Task.Changes.onPart (R := fun b b' : Backend => b.Works → b.Carries b') ?_ ?_
  · intro l b hb hl
    exact upholds_of_carries (hb hl.backend) hl
  · refine Task.Changes.andThen (Task.changes_atOnce fun b hb => ?_) fun late => ?_
    · exact ⟨⟨hb.connects, hb.times, hb.loads, fun i => hb.slowLoads i, hb.takes, hb.reported⟩, rfl,
        rfl, fun _ hscript => hscript⟩
    · exact Task.changes_pause _ _

theorem does_loadScript (script : String) :
    errands.Does i a (fun _ => True) (loadScript script)
      (succeeds fun name l => name ∈ l.backend.store.scripts) := by
  refine .bind (Protocol.does_ofTask_of_changes upholds_delay stable_true
    fun l l' _ hl _ h => h.move hl) (fun _ => ?_) fun e l _ hs => absurd hs id
  refine does_call stable_loaded fun b hb => ?_
  obtain ⟨name, b', hload, hcarries, hname⟩ := Backend.carries_load hb script
  exact ⟨name, b', hload, hcarries, fun _ => hname⟩

theorem does_connect :
    errands.Does i a (fun _ => True) connect
      (succeeds fun opened l => opened.2 ∈ l.backend.store.scripts) := by
  refine .bind (does_call (S := fun _ _ => True) (fun _ => stable_true) fun b hb => ?_)
    (fun n => ?_) fun e l _ hs => absurd hs id
  · obtain ⟨n, b', hconnect, hcarries⟩ := Backend.carries_connect hb
    exact ⟨n, b', hconnect, hcarries, fun _ => trivial⟩
  · refine .bind (Protocol.Does.outcome (does_call (S := fun _ _ => True) (fun _ => stable_true)
      fun b hb => ?_)) (fun time => ?_) fun e l _ hs => absurd hs id
    · obtain ⟨seconds, b', htime, hcarries⟩ := Backend.carries_time hb
      exact ⟨seconds, b', htime, hcarries, fun _ => trivial⟩
    · cases time with
      | error e => exact fun l hs => absurd hs id
      | ok seconds =>
          refine .bind (does_loadScript takeScript) (fun script => ?_) fun e l _ hs => absurd hs id
          refine (Protocol.does_pure (stable_loaded script) (n, script)).mono (fun _ hs => hs) ?_
          rintro r l _ ⟨rfl, hs⟩
          exact hs

/-- A handle that is given out has its script. -/
def Gives (r : Except QuotaError Handle) (l : Link) : Prop :=
  succeeds (fun (h : Handle) (l : Link) => h.script ∈ l.backend.store.scripts) r l

theorem stable_gives (r : Except QuotaError Handle) : errands.Stable a (Gives r) := by
  intro l l' hrely hr
  cases r with
  | error e => exact hr
  | ok h => exact stable_loaded h.script l l' hrely hr

theorem does_pure (h : Handle) :
    errands.Does i a (fun l => h.script ∈ l.backend.store.scripts) (pure h : Client Handle)
      Gives := by
  refine (Protocol.does_pure (stable_loaded h.script) h).mono (fun _ hs => hs) ?_
  rintro r l _ ⟨rfl, hs⟩
  exact hs

theorem does_renew : errands.Does i a (fun _ => True) renew Gives := by
  refine .bind does_connect ?_ fun e l _ hs => hs
  rintro ⟨n, script⟩
  refine Protocol.does_atOnce (stable_loaded script) (fun h => stable_loaded h.script) ?_
  intro l hl _ hs
  refine ⟨((upholds_current ?_).move hl).1, hs⟩
  rintro _ ⟨⟩
  exact hs

/-- What a caller does with the lock, it does as well without it. -/
theorem does_holding {J : Link → Prop} {x : Client Handle} (hJ : errands.Stable a J)
    (hx : errands.Does i a J x Gives) : errands.Does i a J (Action.holding lock x) Gives := by
  intro l hl l₁ hl₁ _ hrely₁ _
  have htaken : J (lock.set true l₁) := hJ l₁ _ (fun _ hs => hs) (hJ l l₁ hrely₁ hl)
  refine ⟨a, ((upholds_lock true l₁).move hl₁).1, (hx _ htaken).andThen ?_⟩
  rintro m r l₂ - ⟨rfl, hr⟩ l₃ hl₃ _ hrely₃ _
  refine ⟨m, ((upholds_lock false l₃).move hl₃).1, ?_⟩
  intro l₄ _ hrely₄
  have hleft : Gives r (lock.set false l₃) := stable_gives (a := m) r l₂ _ hrely₃ hr
  exact ⟨rfl, stable_gives (a := m) r _ l₄ hrely₄ hleft⟩

theorem does_current :
    errands.Does i a (fun _ => True) current
      (succeeds fun found l => ∀ h, found = some h → h.script ∈ l.backend.store.scripts) := by
  refine Protocol.does_read stable_true ?_ fun l hl _ _ => ?_
  · intro found l l' hrely hs h hfound
    exact hrely _ (hs h hfound)
  · exact ⟨⟨hl, fun _ hscript => hscript, .aside rfl⟩, hl.current⟩

theorem does_getOrConnect : errands.Does i a (fun _ => True) getOrConnect Gives := by
  have hgiven : ∀ h : Handle, errands.Does i a
      (fun l => ∀ h', some h = some h' → h'.script ∈ l.backend.store.scripts)
      (pure h : Client Handle) Gives :=
    fun h => (does_pure h).mono (fun l hs => hs h rfl) fun _ _ _ hr => hr
  refine .bind does_current (fun found => ?_) fun e l _ hs => absurd hs id
  cases found with
  | some h => exact hgiven h
  | none =>
      refine (does_holding stable_true (.bind does_current (fun found => ?_)
        fun e l _ hs => hs)).mono (fun _ _ => trivial) fun _ _ _ hr => hr
      cases found with
      | some h => exact hgiven h
      | none => exact does_renew.mono (fun _ _ => trivial) fun _ _ _ hr => hr

theorem safe_evaluate {h : Handle} (b : Bucket) (requested : Int) (maxWait : Nat)
    (hscript : h.script ∈ l.backend.store.scripts) :
    errands.Safe (.ask b requested maxWait)
      (fun a r _ => ∃ now result, a = some (now, .ofResult result) ∧ r = .ok result)
      (evaluate h b requested maxWait).run none l := by
  intro l₁ hl₁ _ hrely _
  obtain ⟨b', htake, hworks, hstore, -⟩ := Backend.take_eq hl₁.backend (hrely _ hscript) b.keys
    (b.limits.take l₁.backend.now requested maxWait)
  let asked : Except QuotaError Int × Backend :=
    Backend.take h.script b.keys (b.limits.take l₁.backend.now requested maxWait) l₁.backend
  have hscripts : b'.store.scripts = l₁.backend.store.scripts := by
    rw [hstore, Store.scripts_take]
  refine ⟨some (l₁.backend.now, .ofResult (reply b requested maxWait l₁).1.result), ?_, ?_⟩
  · change errands.move _ _ _ l₁ { l₁ with backend := asked.2 }
    rw [show asked = _ from htake]
    refine ⟨⟨hworks, fun handle hcurrent => ?_⟩, fun script hs => ?_, .decided ?_⟩
    · rw [hscripts]
      exact hl₁.current handle hcurrent
    · rw [hscripts]
      exact hs
    · exact congrArg Store.cells hstore
  · intro l₂ _ _
    exact ⟨_, _, rfl, congrArg Prod.fst htake⟩

/-- A request is decided, and answered accordingly, in its first attempt. -/
theorem safe_take (retry : Retry) (b : Bucket) (requested : Int) (maxWait : Nat) :
    errands.Safe (.ask b requested maxWait)
      (fun a r _ => ∃ now v, a = some (now, v) ∧ r = .ok v)
      (take retry b requested maxWait).run none l := by
  obtain ⟨left, hleft⟩ : ∃ left, retry.count = left + 1 := ⟨retry.count - 1, by
    rw [Retry.count]
    omega⟩
  -- The first attempt is the last one: a handle is given with its script, and nobody forgets it.
  rw [take, hleft, takeFrom]
  refine (Protocol.does_ofTask_of_changes (J := fun _ => True)
    (Task.changes_pause Upholds _) stable_true fun l l' _ hl _ h => h.move hl).safe_bind
    (fun _ l₁ _ _ => ?_) (fun e l₁ _ hs => absurd hs id) trivial
  refine does_getOrConnect.outcome.safe_bind (fun found l₂ _ hfound => ?_)
    (fun e l₂ _ hs => absurd hs id) trivial
  cases found with
  | error e => exact absurd hfound id
  | ok h =>
      change errands.Safe _ _ (_ >>= _ : Client Verdict).run none l₂
      rw [Action.run_outcome_bind]
      refine (safe_evaluate b requested maxWait hfound).andThen ?_
      rintro a r l₃ - ⟨now, result, rfl, rfl⟩ l₄ _ _
      exact ⟨now, _, rfl, rfl⟩

theorem does_replaceScript (seen : Handle) (script : String) :
    errands.Does i a (fun l => script ∈ l.backend.store.scripts) (replaceScript seen script)
      Gives := by
  refine does_holding (stable_loaded script) (Protocol.does_atOnce (stable_loaded script)
    (fun h => stable_loaded h.script) ?_)
  intro l hl _ hs
  unfold refresh
  -- Where the handle was closed in the meantime, the script is issued and not published.
  split
  · rename_i h hcurrent
    split
    · refine ⟨((upholds_current ?_).move hl).1, hs⟩
      rintro _ ⟨⟩
      exact hs
    · exact ⟨⟨hl, fun _ hscript => hscript, .aside rfl⟩, hl.current h hcurrent⟩
  · exact ⟨((upholds_current hl.current).move hl).1, hs⟩

theorem does_ensureScript : errands.Does i a (fun _ => True) ensureScript Gives := by
  refine .bind does_getOrConnect (fun h => ?_) fun e l _ hs => hs
  refine .bind (Protocol.Does.outcome ((does_loadScript takeScript).mono (fun _ _ => trivial)
    fun _ _ _ hr => hr)) (fun loaded => ?_) fun e l _ hs => absurd hs id
  cases loaded with
  | error e => exact fun l hs => absurd hs id
  | ok script =>
      change errands.Does i a (fun l => script ∈ l.backend.store.scripts)
        (if script = h.script then pure h else replaceScript h script) Gives
      split
      · rename_i heq
        rw [heq]
        exact does_pure h
      · exact does_replaceScript h script

/-- Cleaning the store is to look for cells, and to delete keys that the configuration abandons. -/
theorem changes_clean {R : Link → Link → Prop} (c : ServiceConfig)
    (hscan : ∀ l, R l { l with backend := (Backend.scan l.backend).2 })
    (hdelete : ∀ keys, (∀ key ∈ keys, c.Abandons key) → ∀ l,
      R l { l with backend := (Backend.delete keys l.backend).2 }) :
    (c.clean (call Backend.scan) fun keys => call (Backend.delete keys) : Client Nat).run.Changes
      R := by
  have hcall : ∀ {β : Type} {f : Call β},
      (∀ l, R l { l with backend := (f l.backend).2 }) → (call f).run.Changes R := by
    intro β f hf l _
    exact ⟨hf l, trivial⟩
  refine Action.changes_bind (hcall hscan) fun keys => ?_
  change (if (c.staleKeys keys).isEmpty then pure 0
    else call (Backend.delete (c.staleKeys keys)) : Client Nat).run.Changes R
  split
  · exact trivial
  · refine hcall (hdelete _ fun key hkey => ?_)
    exact ServiceConfig.isStale_iff.mp (List.mem_filter.mp hkey).2

theorem does_prepare (c : ServiceConfig) :
    errands.Does .tend none (fun _ => True) (prepare c) (succeeds fun _ _ => True) := by
  have hclean : errands.Does .tend none (fun _ => True) (clean c) fun _ _ => True := by
    refine .bind (does_getOrConnect.mono (fun _ hs => hs) fun _ _ _ _ => trivial) (fun h => ?_)
      fun _ _ _ _ => trivial
    refine Protocol.does_of_changes (changes_clean (R := fun l l' => l.Sound → l'.Sound ∧
      l.Remembers l') c ?_ ?_) stable_true fun l l' _ hl _ h => ?_
    · intro l hl
      have hb := hl.backend
      rw [Backend.scan_eq]
      exact ⟨⟨⟨hb.connects, hb.times, hb.loads, hb.slowLoads, hb.takes, hb.reported⟩, hl.current⟩,
        fun _ hscript => hscript⟩
    · intro keys _ l hl
      obtain ⟨hworks, hscripts⟩ := Backend.works_delete hl.backend keys
      refine ⟨⟨hworks, fun h hcurrent => ?_⟩, fun script hscript => ?_⟩
      · exact hscripts ▸ hl.current h hcurrent
      · exact hscripts ▸ hscript
    · obtain ⟨hsound, hremembers⟩ := h hl
      exact ⟨⟨hsound, hremembers, .tended⟩, hremembers⟩
  refine .bind does_ensureScript (fun h => ?_) fun e l _ hs => hs
  refine .bind (hclean.outcome.mono (fun _ _ => trivial) fun _ _ _ hr => hr) (fun r => ?_)
    fun e l _ hs => hs
  exact (Protocol.does_pure stable_true ()).mono (fun _ _ => trivial) fun r l _ hr => hr.1 ▸ trivial

/-- To prepare the store for a configuration leaves the cells of a bucket alone that it accounts
for. -/
theorem pair_prepare {c : ServiceConfig} {ns name : String} (haccounts : c.Accounts ns name)
    (hns : ':' ∉ ns.toList) :
    (prepare c).run.Changes fun l l' => l'.pair (.of ns name) = l.pair (.of ns name) := by
  have hspares : ∀ {β : Type} {x : Client β}, x.run.Changes Spares →
      x.run.Changes fun l l' => l'.pair (.of ns name) = l.pair (.of ns name) :=
    fun hx => hx.mono fun _ _ h => Store.pair_congr h.keepsCells _
  refine Action.changes_bind (hspares spares_ensureScript) fun h => ?_
  refine Action.changes_bind (Action.changes_outcome (Action.changes_bind
    (hspares spares_getOrConnect) fun h => changes_clean c ?_ ?_)) fun _ => trivial
  · intro l
    rw [Backend.scan_eq]
    rfl
  · intro keys hkeys l
    have hkept : ∀ key, StateKey.Names ns name key →
        (Backend.delete keys l.backend).2.store.cells.get? key =
          l.backend.store.cells.get? key := by
      intro key hnames
      have hnot : key ∉ keys := fun hkey =>
        ServiceConfig.not_abandons_of_accounts haccounts hnames (hkeys key hkey)
      rw [(Backend.delete_spec keys l.backend).2]
      split
      · rfl
      · rw [Store.get?_delete, if_neg hnot]
    exact Prod.ext (hkept _ ⟨hns, .inl rfl⟩) (hkept _ ⟨hns, .inr rfl⟩)

end Link

end TokenQuota
