import TokenQuota.Bucket.Taking
import TokenQuota.Proofs.Task.Alone
import TokenQuota.Proofs.TokenBucket.Evaluation

/-!
A link on which no call fails. A request that is made alone on it is answered in the first attempt,
without a pause, by the decision of the store.
-/

namespace TokenQuota

theorem Store.mem_load_scripts {s : Store} {name script : String} :
    script ∈ (s.load name).scripts ↔ script = name ∨ script ∈ s.scripts := by
  unfold Store.load
  split
  · rename_i h
    rw [List.contains_iff_mem] at h
    constructor
    · exact .inr
    · rintro (rfl | hmem)
      · exact h
      · exact hmem
  · exact List.mem_cons

theorem Store.cells_load (s : Store) (name : String) : (s.load name).cells = s.cells := by
  unfold Store.load
  split <;> rfl

theorem Store.scripts_take (s : Store) (now : Int) (keys : CellKeys) (t : Take) :
    (s.take now keys t).2.scripts = s.scripts := by
  unfold Store.take
  split <;> rfl

/-- A store decides by its cells alone. -/
theorem Store.take_congr {s s' : Store} (h : s.cells = s'.cells) (now : Int) (keys : CellKeys)
    (t : Take) :
    (s.take now keys t).1 = (s'.take now keys t).1 ∧
      (s.take now keys t).2.cells = (s'.take now keys t).2.cells := by
  unfold take
  rw [decision_congr h]
  split
  · exact ⟨rfl, h⟩
  · refine ⟨rfl, ?_⟩
    rw [write, write, h]

theorem Retry.delay_zero (retry : Retry) : retry.delay 0 = 0 := by
  rw [Retry.delay, Nat.zero_mod, Backoff.delay]
  simp [Backoff.ceiling, Backoff.jitterRange, Nat.mod_one]

/-- No call that a request makes fails or is late, and a script that is loaded is known by the name
that is reported for it. -/
structure Backend.Works (b : Backend) : Prop where
  connects : ∀ i, b.outages.connects.hits i = false
  times : ∀ i, b.outages.times.hits i = false
  loads : ∀ i, b.outages.loads.hits i = false
  slowLoads : ∀ i, b.outages.slowLoads.hits i = false
  takes : ∀ i, b.outages.takes.hits i = false
  reported : ∀ name, b.outages.reportedName = some name → name ∈ b.store.scripts

theorem Backend.Works.setNow {b : Backend} (h : b.Works) (now : Int) : Works { b with now } :=
  ⟨h.connects, h.times, h.loads, h.slowLoads, h.takes, h.reported⟩

theorem Backend.Works.setHandles {b : Backend} (h : b.Works) (handles : Nat) :
    Works { b with handles } :=
  ⟨h.connects, h.times, h.loads, h.slowLoads, h.takes, h.reported⟩

/-- Nobody opens a connection, the calls of requests work, and the live connection has its
script. -/
structure Link.Works (l : Link) : Prop where
  unlocked : l.connections.locked = false
  backend : l.backend.Works
  current : ∀ h, l.connections.current = some h → h.script ∈ l.backend.store.scripts

namespace Backend

/-- Calls that have to do with connections leave the cells and the clock as they are, and forget no
script. -/
structure Carries (b b' : Backend) : Prop where
  works : b'.Works
  cells : b'.store.cells = b.store.cells
  now : b'.now = b.now
  scripts : ∀ script ∈ b.store.scripts, script ∈ b'.store.scripts

theorem Carries.trans {b b' b'' : Backend} (h : b.Carries b') (h' : b'.Carries b'') :
    b.Carries b'' where
  works := h'.works
  cells := h'.cells.trans h.cells
  now := h'.now.trans h.now
  scripts script hscript := h'.scripts script (h.scripts script hscript)

theorem guarded_of_not_hit {α : Type} {outage : Part Outages Outage} {error : QuotaError}
    {f : Backend → Except QuotaError α × Backend} {b : Backend}
    (h : ∀ i, (outage.get b.outages).hits i = false) :
    guarded outage error f b =
      f { b with outages := outage.set (outage.get b.outages).called b.outages } := by
  unfold guarded Outage.isHit
  simp only [h]
  rfl

variable {b : Backend}

theorem carries_connect (h : b.Works) : ∃ n b', connect b = (.ok n, b') ∧ b.Carries b' := by
  refine ⟨_, _, guarded_of_not_hit h.connects, ⟨?_, rfl, rfl, fun _ hscript => hscript⟩⟩
  exact ⟨h.connects, h.times, h.loads, h.slowLoads, h.takes, h.reported⟩

theorem carries_time (h : b.Works) : ∃ n b', time b = (.ok n, b') ∧ b.Carries b' := by
  refine ⟨_, _, guarded_of_not_hit h.times, ⟨?_, rfl, rfl, fun _ hscript => hscript⟩⟩
  exact ⟨h.connects, h.times, h.loads, h.slowLoads, h.takes, h.reported⟩

theorem carries_load (h : b.Works) (script : String) :
    ∃ name b', load script b = (.ok name, b') ∧ b.Carries b' ∧ name ∈ b'.store.scripts := by
  have hkept : ∀ name ∈ b.store.scripts,
      name ∈ (b.store.load (Digest.contentHash (Bytes.ofString script))).scripts :=
    fun name hname => Store.mem_load_scripts.mpr (.inr hname)
  refine ⟨_, _, guarded_of_not_hit h.loads, ⟨?_, Store.cells_load _ _, rfl, hkept⟩, ?_⟩
  · exact ⟨h.connects, h.times, h.loads, h.slowLoads, h.takes,
      fun name hname => hkept name (h.reported name hname)⟩
  · cases hname : b.outages.reportedName with
    | none => simpa [hname] using Store.mem_load_scripts.mpr (.inl rfl)
    | some name => simpa [hname] using hkept name (h.reported name hname)

theorem take_eq (h : b.Works) {script : String} (hscript : script ∈ b.store.scripts)
    (keys : CellKeys) (t : Take) :
    ∃ b', take script keys t b = (.ok (b.store.take b.now keys t).1.result, b') ∧ b'.Works ∧
      b'.store = (b.store.take b.now keys t).2 ∧ b'.now = b.now := by
  have htake : take script keys t b = _ := guarded_of_not_hit h.takes
  rw [if_pos (List.contains_iff_mem.mpr hscript)] at htake
  refine ⟨_, htake, ⟨h.connects, h.times, h.loads, h.slowLoads, h.takes, ?_⟩, rfl, rfl⟩
  intro name hname
  change name ∈ (b.store.take b.now keys t).2.scripts
  rw [Store.scripts_take]
  exact h.reported name hname

end Backend

namespace Link

open TokenQuota.Task

variable {l : Link}

theorem fits_store (l : Link) : store.Fits l :=
  ⟨rfl, fun _ => rfl, fun _ _ => rfl⟩

theorem runsTo_call {α : Type} {c : Call α} {r : Except QuotaError α} {b : Backend}
    (h : c l.backend = (r, b)) : (call c).run.RunsTo l r { l with backend := b } := by
  have hrun : (call c).run.RunsTo l (c l.backend).1 { l with backend := (c l.backend).2 } :=
    (Action.runsTo_atOnce c l.backend).onPart (fits_store l) rfl
  rwa [h] at hrun

theorem runsTo_loadScript (h : l.backend.Works) (script : String) :
    ∃ name b, (loadScript script).run.RunsTo l (.ok name) { l with backend := b } ∧
      l.backend.Carries b ∧ name ∈ b.store.scripts := by
  let called : Backend := { l.backend with
    outages.slowLoads := l.backend.outages.slowLoads.called }
  have hcalled : l.backend.Carries called :=
    ⟨⟨h.connects, h.times, h.loads, h.slowLoads, h.takes, h.reported⟩, rfl, rfl, fun _ hs => hs⟩
  have hdelay : (Backend.delay Backend.slowLoads).RunsTo l.backend () called := by
    refine (runsTo_atOnce _ l.backend).andThen ?_
    have hnot : (Backend.slowLoads.get l.backend).isHit = false := h.slowLoads _
    simp only [hnot]
    exact .done () called
  obtain ⟨name, b, hload, hcarries, hname⟩ := Backend.carries_load hcalled.works script
  refine ⟨name, b, ?_, hcalled.trans hcarries, hname⟩
  exact Action.runsTo_bind (Action.runsTo_ofTask (hdelay.onPart (fits_store l) rfl))
    (runsTo_call (l := { l with backend := called }) hload)

theorem runsTo_connect (h : l.backend.Works) :
    ∃ n script b, connect.run.RunsTo l (.ok (n, script)) { l with backend := b } ∧
      l.backend.Carries b ∧ script ∈ b.store.scripts := by
  obtain ⟨n, b₁, hconnect, hcarries₁⟩ := Backend.carries_connect h
  obtain ⟨seconds, b₂, htime, hcarries₂⟩ := Backend.carries_time hcarries₁.works
  obtain ⟨script, b, hload, hcarries, hscript⟩ :=
    runsTo_loadScript (l := { l with backend := b₂ }) hcarries₂.works takeScript
  refine ⟨n, script, b, ?_, (hcarries₁.trans hcarries₂).trans hcarries, hscript⟩
  refine Action.runsTo_bind (runsTo_call hconnect) ?_
  refine Action.runsTo_bind (Action.runsTo_outcome
    (runsTo_call (l := { l with backend := b₁ }) htime)) ?_
  exact Action.runsTo_bind hload (.done _ _)

theorem runsTo_current (l : Link) : current.run.RunsTo l (.ok l.connections.current) l :=
  Action.runsTo_read _ l

/-- A link whose lock is held, with a new live connection. -/
theorem runsTo_renew (h : l.backend.Works) :
    ∃ handle b, renew.run.RunsTo l (.ok handle)
        { l with connections.current := some handle, backend := b } ∧
      l.backend.Carries b ∧ handle.script ∈ b.store.scripts := by
  obtain ⟨n, script, b, hconnect, hcarries, hscript⟩ := runsTo_connect h
  refine ⟨⟨b.handles, n, script⟩, { b with handles := b.handles + 1 }, ?_, ?_, hscript⟩
  · exact Action.runsTo_bind hconnect (Action.runsTo_ofTask (runsTo_atOnce (publish n script) _))
  · exact hcarries.trans ⟨hcarries.works.setHandles _, rfl, rfl, fun _ hs => hs⟩

/-- On a working link there is a live connection, or one is opened at once. -/
theorem runsTo_getOrConnect (h : l.Works) :
    ∃ handle l', getOrConnect.run.RunsTo l (.ok handle) l' ∧ l'.Works ∧
      l.backend.Carries l'.backend ∧ handle.script ∈ l'.backend.store.scripts := by
  cases hcurrent : l.connections.current with
  | some handle =>
      refine ⟨handle, l, Action.runsTo_bind (runsTo_current l) ?_, h,
        ⟨h.backend, rfl, rfl, fun _ hs => hs⟩, h.current handle hcurrent⟩
      rw [hcurrent]
      exact .done _ _
  | none =>
      obtain ⟨handle, b, hrenew, hcarries, hscript⟩ := runsTo_renew (l := lock.set true l) h.backend
      refine ⟨handle, ⟨⟨some handle, false⟩, b⟩, Action.runsTo_bind (runsTo_current l) ?_,
        ⟨rfl, hcarries.works, ?_⟩, hcarries, hscript⟩
      · rw [hcurrent]
        have hlocked : (lock.set true l).connections.current = none := hcurrent
        have hunlock : lock.set false ⟨⟨some handle, true⟩, b⟩ = ⟨⟨some handle, false⟩, b⟩ := rfl
        rw [← hunlock]
        refine Task.RunsTo.holding h.unlocked (Action.runsTo_bind (runsTo_current _) ?_)
        rw [hlocked]
        exact hrenew
      · rintro handle' ⟨⟩
        exact hscript

theorem runsTo_evaluate (h : l.Works) {handle : Handle}
    (hscript : handle.script ∈ l.backend.store.scripts) (b : Bucket) (requested : Int)
    (maxWait : Nat) :
    let decided := l.backend.store.take l.backend.now b.keys
      (b.limits.take l.backend.now requested maxWait)
    ∃ l', (evaluate handle b requested maxWait).run.RunsTo l (.ok decided.1.result) l' ∧
      l'.Works ∧ l'.backend.store = decided.2 := by
  obtain ⟨backend, htake, hworks, hstore, -⟩ := Backend.take_eq h.backend hscript b.keys
    (b.limits.take l.backend.now requested maxWait)
  refine ⟨{ l with backend }, runsTo_call htake, ⟨h.unlocked, hworks, ?_⟩, hstore⟩
  intro handle' hcurrent
  change handle'.script ∈ backend.store.scripts
  rw [hstore, Store.scripts_take]
  exact h.current handle' hcurrent

/-- On a working link a request is answered by the decision of the store, in the first attempt. -/
theorem runsTo_take (h : l.Works) (retry : Retry) (b : Bucket) (requested : Int) (maxWait : Nat) :
    let decided := l.backend.store.take l.backend.now b.keys
      (b.limits.take l.backend.now requested maxWait)
    ∃ l', (take retry b requested maxWait).run.RunsTo l (.ok (.ofResult decided.1.result)) l' ∧
      l'.Works ∧ l'.backend.store.cells = decided.2.cells := by
  obtain ⟨left, hleft⟩ : ∃ left, retry.count = left + 1 := ⟨retry.count - 1, by
    rw [Retry.count]
    omega⟩
  obtain ⟨handle, l₁, hget, hworks₁, hcarries, hscript⟩ := runsTo_getOrConnect h
  obtain ⟨l', hevaluate, hworks', hstore⟩ := runsTo_evaluate hworks₁ hscript b requested maxWait
  obtain ⟨hresult, hcells⟩ := Store.take_congr hcarries.cells l₁.backend.now b.keys
    (b.limits.take l₁.backend.now requested maxWait)
  rw [hresult, hcarries.now] at hevaluate
  rw [hcarries.now] at hstore hcells
  refine ⟨l', ?_, hworks', (congrArg Store.cells hstore).trans hcells⟩
  rw [take, hleft, takeFrom, Retry.delay_zero]
  refine Action.runsTo_bind (Action.runsTo_ofTask (.done () l)) ?_
  refine Action.runsTo_bind (Action.runsTo_outcome hget) ?_
  exact Action.runsTo_bind (Action.runsTo_outcome hevaluate) (.done _ _)

end Link

end TokenQuota
