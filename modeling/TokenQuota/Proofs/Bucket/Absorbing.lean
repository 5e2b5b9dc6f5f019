import Mathlib.Data.Nat.Count
import Mathlib.Order.Interval.Finset.Nat
import TokenQuota.Bucket.Taking
import TokenQuota.Proofs.Bucket.Working
import TokenQuota.Proofs.Task.Finishing

/-!
A request that is made alone gets over as many failing calls as it has attempts, less one. Each
attempt that fails uses up a failing call of its own, or finds out that its script is not loaded,
which happens once at most.
-/

namespace TokenQuota

/-- The number of calls that are made to fail among the first ones. -/
def Outage.failed (o : Outage) (calls : Nat) : Nat := Nat.count (fun i => o.hits i = true) calls

theorem Outage.failed_called (o : Outage) :
    o.called.failed o.called.calls = o.failed o.calls + if o.isHit then 1 else 0 :=
  Nat.count_succ _ _

theorem Outage.failed_none (calls : Nat) : Outage.none.failed calls = 0 :=
  Nat.count_of_forall_not fun i _ => by simp [Outage.none]

theorem Outage.failed_next_le (o : Outage) (count calls : Nat) :
    (o.next count).failed calls ≤ count := by
  unfold Outage.failed
  rw [Nat.count_eq_card_filter_range]
  refine (Finset.card_le_card (t := Finset.Ico o.calls (o.calls + count)) fun i hi => ?_).trans ?_
  · simpa [Outage.next] using (Finset.mem_filter.mp hi).2
  · rw [Nat.card_Ico]
    omega

/-- Which calls of the kinds that a request makes are made to fail. -/
def Outages.schedule (o : Outages) : List (Nat → Bool) :=
  [o.connects.hits, o.times.hits, o.loads.hits, o.takes.hits]

namespace Backend

/-- The number of failed calls so far of the kinds that a request makes. -/
def failures (b : Backend) : Nat :=
  b.outages.connects.failed b.outages.connects.calls +
    b.outages.times.failed b.outages.times.calls +
    b.outages.loads.failed b.outages.loads.calls + b.outages.takes.failed b.outages.takes.calls

/-- The number of failed calls of these kinds from one state of a store to another. -/
def met (b b' : Backend) : Nat :=
  (b.outages.connects.failed b'.outages.connects.calls -
      b.outages.connects.failed b.outages.connects.calls) +
    (b.outages.times.failed b'.outages.times.calls -
      b.outages.times.failed b.outages.times.calls) +
    (b.outages.loads.failed b'.outages.loads.calls -
      b.outages.loads.failed b.outages.loads.calls) +
    (b.outages.takes.failed b'.outages.takes.calls -
      b.outages.takes.failed b.outages.takes.calls)

/-- What the calls of a request leave as it is: the calls that are to fail, those that failed, the
name that is reported for scripts, and those that are loaded. -/
structure Goes (b b' : Backend) : Prop where
  schedule : b'.outages.schedule = b.outages.schedule
  reported : b'.outages.reportedName = b.outages.reportedName
  scripts : ∀ script ∈ b.store.scripts, script ∈ b'.store.scripts
  failures : b.failures ≤ b'.failures

theorem Goes.refl (b : Backend) : b.Goes b := ⟨rfl, rfl, fun _ h => h, Nat.le_refl _⟩

theorem Goes.trans {b b' b'' : Backend} (h : b.Goes b') (h' : b'.Goes b'') : b.Goes b'' where
  schedule := h'.schedule.trans h.schedule
  reported := h'.reported.trans h.reported
  scripts script hscript := h'.scripts script (h.scripts script hscript)
  failures := Nat.le_trans h.failures h'.failures

theorem Goes.failures_le_met {b b' : Backend} (h : b.Goes b') :
    b'.failures ≤ b.failures + b.met b' := by
  have hschedule := h.schedule
  simp only [Outages.schedule, List.cons.injEq, and_true] at hschedule
  obtain ⟨hconnects, htimes, hloads, htakes⟩ := hschedule
  simp only [Backend.failures, met, Outage.failed, hconnects, htimes, hloads, htakes]
  omega

theorem Goes.fails {b b' b'' : Backend} (h : b.Goes b') (h' : b'.failures + 1 ≤ b''.failures) :
    b.failures + 1 ≤ b''.failures :=
  Nat.le_trans (Nat.succ_le_succ h.failures) h'

/-- The calls of this kind are counted when they fail. -/
def Counted (outage : Part Outages Outage) : Prop :=
  ∀ b : Backend, let o := outage.get b.outages
    let b' := { b with outages := outage.set o.called b.outages }
    b'.outages.schedule = b.outages.schedule ∧
      b'.outages.reportedName = b.outages.reportedName ∧
      b'.failures = b.failures + if o.isHit then 1 else 0

/-- A call fails, and is counted, or is made on a store that has the same scripts. -/
theorem guarded_induct {α : Type} {P : Except QuotaError α × Backend → Prop}
    {outage : Part Outages Outage} {error : QuotaError}
    {f : Backend → Except QuotaError α × Backend} {b : Backend} (h : Counted outage)
    (hfails : ∀ b', b.Goes b' → b.failures + 1 ≤ b'.failures → P (.error error, b'))
    (hcalls : ∀ b', b.Goes b' → b'.store = b.store → P (f b')) :
    P (guarded outage error f b) := by
  obtain ⟨hschedule, hreported, hfailures⟩ := h b
  unfold guarded
  dsimp only
  by_cases hhit : (outage.get b.outages).isHit = true
  · rw [if_pos hhit] at hfailures
    rw [if_pos hhit]
    exact hfails _ ⟨hschedule, hreported, fun _ hscript => hscript, by omega⟩ (by omega)
  · rw [if_neg hhit] at hfailures
    rw [if_neg hhit]
    exact hcalls _ ⟨hschedule, hreported, fun _ hscript => hscript, by omega⟩ rfl

theorem counted_connects : Counted ⟨Outages.connects, fun o s => { s with connects := o }⟩ := by
  intro b
  refine ⟨rfl, rfl, ?_⟩
  simp only [failures, Outage.failed_called]
  omega

theorem counted_times : Counted ⟨Outages.times, fun o s => { s with times := o }⟩ := by
  intro b
  refine ⟨rfl, rfl, ?_⟩
  simp only [failures, Outage.failed_called]
  omega

theorem counted_loads : Counted ⟨Outages.loads, fun o s => { s with loads := o }⟩ := by
  intro b
  refine ⟨rfl, rfl, ?_⟩
  simp only [failures, Outage.failed_called]
  omega

theorem counted_takes : Counted ⟨Outages.takes, fun o s => { s with takes := o }⟩ := by
  intro b
  refine ⟨rfl, rfl, ?_⟩
  simp only [failures, Outage.failed_called]
  omega

/-- A call leaves what requests rely on, and fails only when it is made to, unless it has an
excuse. -/
structure Tells {α : Type} (b : Backend) (excused : Prop) (x : Except QuotaError α × Backend) :
    Prop where
  goes : b.Goes x.2
  failed : ∀ e, x.1 = .error e → b.failures + 1 ≤ x.2.failures ∨ excused

theorem tells_connect (b : Backend) : b.Tells False (connect b) := by
  refine guarded_induct counted_connects
    (fun b' hgoes hfailed => ⟨hgoes, fun _ _ => .inl hfailed⟩) ?_
  intro b' hgoes _
  exact ⟨⟨hgoes.schedule, hgoes.reported, hgoes.scripts, hgoes.failures⟩, nofun⟩

theorem tells_time (b : Backend) : b.Tells False (time b) := by
  refine guarded_induct counted_times
    (fun b' hgoes hfailed => ⟨hgoes, fun _ _ => .inl hfailed⟩) ?_
  intro b' hgoes _
  exact ⟨hgoes, nofun⟩

/-- Asking for a decision fails for want of the script, too. -/
theorem tells_take (script : String) (keys : CellKeys) (t : Take) (b : Backend) :
    b.Tells (script ∉ b.store.scripts) (take script keys t b) := by
  refine guarded_induct counted_takes
    (fun b' hgoes hfailed => ⟨hgoes, fun _ _ => .inl hfailed⟩) ?_
  intro b' hgoes hstore
  split
  · rename_i hscript
    refine ⟨⟨hgoes.schedule, hgoes.reported, fun name hname => ?_, hgoes.failures⟩, nofun⟩
    change name ∈ (b'.store.take b'.now keys t).2.scripts
    rw [Store.scripts_take]
    exact hgoes.scripts name hname
  · rename_i hscript
    rw [hstore, List.contains_iff_mem] at hscript
    exact ⟨hgoes, fun _ _ => .inr hscript⟩

/-- Loading the script reports its own name, if it does not fail. -/
def Truthful (b : Backend) : Prop :=
  ∀ name, b.outages.reportedName = some name →
    name = takeScriptHash

theorem Goes.truthful {b b' : Backend} (h : b.Goes b') (hb : b.Truthful) : b'.Truthful := by
  unfold Truthful
  rw [h.reported]
  exact hb

structure Loads (b : Backend) (x : Except QuotaError String × Backend) : Prop
    extends Tells b False x where
  loaded : ∀ script, b.Truthful → x.1 = .ok script → script ∈ x.2.store.scripts

theorem loads_load (b : Backend) : b.Loads (load takeScript b) := by
  refine guarded_induct counted_loads
    (fun b' hgoes hfailed => ⟨⟨hgoes, fun _ _ => .inl hfailed⟩, nofun⟩) ?_
  intro b' hgoes _
  refine ⟨⟨⟨hgoes.schedule, hgoes.reported, fun name hname => ?_, hgoes.failures⟩, nofun⟩, ?_⟩
  · exact Store.mem_load_scripts.mpr (.inr (hgoes.scripts name hname))
  · rintro _ htruthful ⟨⟩
    refine Store.mem_load_scripts.mpr (.inl ?_)
    cases hreported : b'.outages.reportedName with
    | none => rfl
    | some name => exact hgoes.truthful htruthful name hreported

end Backend

namespace Link

/-- While a request sleeps, nobody else touches the connection, and no script is loaded or
forgotten. -/
def Undisturbed (elapse : Nat → Link → Link) : Prop :=
  ∀ millis l, (elapse millis l).connections = l.connections ∧
    (elapse millis l).backend.outages = l.backend.outages ∧
    (elapse millis l).backend.store.scripts = l.backend.store.scripts

variable {elapse : Nat → Link → Link} {l : Link}

theorem finishes_call {α : Type} {Q : Except QuotaError α → Link → Prop} {c : Call α}
    (h : Q (c l.backend).1 { l with backend := (c l.backend).2 }) :
    (call c).run.Finishes elapse Q l :=
  ⟨rfl, h⟩

theorem Undisturbed.goes (h : Undisturbed elapse) (millis : Nat) (l : Link) :
    l.backend.Goes (elapse millis l).backend := by
  obtain ⟨-, houtages, hscripts⟩ := h millis l
  refine ⟨congrArg Outages.schedule houtages, congrArg Outages.reportedName houtages, ?_, ?_⟩
  · rw [hscripts]
    exact fun _ hscript => hscript
  · unfold Backend.failures
    rw [houtages]

/-- The connection is left alone, and what requests rely on. -/
def Keeps (l l' : Link) : Prop :=
  l'.connections = l.connections ∧ l.backend.Goes l'.backend

theorem finishes_delay (h : Undisturbed elapse) :
    ((Backend.delay Backend.slowLoads).onPart store).Finishes elapse
      (fun _ l' => l.Keeps l') l := by
  let called : Link := { l with
    backend.outages.slowLoads := l.backend.outages.slowLoads.called }
  have hcalled : l.Keeps called := ⟨rfl, rfl, rfl, fun _ hscript => hscript, Nat.le_refl _⟩
  refine ⟨rfl, ?_⟩
  change ((Task.pause (if l.backend.outages.slowLoads.isHit then Backend.lateMillis else 0)).onPart
    store).Finishes elapse (fun _ l' => l.Keeps l') called
  cases l.backend.outages.slowLoads.isHit with
  | false => exact hcalled
  | true =>
      exact ⟨(h _ called).1.trans hcalled.1, hcalled.2.trans (h.goes Backend.lateMillis called)⟩

theorem finishes_loadScript (h : Undisturbed elapse) (htruthful : l.backend.Truthful) :
    (loadScript takeScript).run.Finishes elapse (fun r l' => l.Keeps l' ∧
      (∀ script, r = .ok script → script ∈ l'.backend.store.scripts) ∧
      ∀ e, r = .error e → l.backend.failures + 1 ≤ l'.backend.failures) l := by
  refine Action.finishes_bind_ofTask (finishes_delay h) fun _ l' hkeeps => finishes_call ?_
  obtain ⟨⟨hgoes, hfailed⟩, hloaded⟩ := Backend.loads_load l'.backend
  refine ⟨⟨hkeeps.1, hkeeps.2.trans hgoes⟩, ?_, ?_⟩
  · exact fun script hr => hloaded script (hkeeps.2.truthful htruthful) hr
  · exact fun e he => hkeeps.2.fails ((hfailed e he).resolve_right id)

theorem Keeps.trans {l' l'' : Link} (h : l.Keeps l') (h' : l'.Keeps l'') : l.Keeps l'' :=
  ⟨h'.1.trans h.1, h.2.trans h'.2⟩

theorem finishes_connect (h : Undisturbed elapse) (htruthful : l.backend.Truthful) :
    connect.run.Finishes elapse (fun r l' => l.Keeps l' ∧
      (∀ n script, r = .ok (n, script) → script ∈ l'.backend.store.scripts) ∧
      ∀ e, r = .error e → l.backend.failures + 1 ≤ l'.backend.failures) l := by
  obtain ⟨hgoes, hfailed⟩ := Backend.tells_connect l.backend
  refine Action.finishes_bind (Q := fun r l' => l.Keeps l' ∧
    ∀ e, r = .error e → l.backend.failures + 1 ≤ l'.backend.failures)
    (finishes_call ⟨⟨rfl, hgoes⟩, fun e he => (hfailed e he).resolve_right id⟩) ?_ ?_
  · rintro n l₁ ⟨hkeeps₁, -⟩
    obtain ⟨hgoes₁, hfailed₁⟩ := Backend.tells_time l₁.backend
    refine Action.finishes_bind_outcome (Q := fun r l' => l.Keeps l' ∧
      ∀ e, r = .error e → l.backend.failures + 1 ≤ l'.backend.failures)
      (finishes_call ⟨hkeeps₁.trans ⟨rfl, hgoes₁⟩, fun e he =>
        hkeeps₁.2.fails ((hfailed₁ e he).resolve_right id)⟩) ?_
    rintro time l₂ ⟨hkeeps₂, hfailed₂⟩
    cases time with
    | error e => exact ⟨hkeeps₂, nofun, fun _ _ => hfailed₂ e rfl⟩
    | ok seconds =>
        refine Action.finishes_bind (finishes_loadScript h (hkeeps₂.2.truthful htruthful)) ?_ ?_
        · rintro script l₃ ⟨hkeeps₃, hloaded, -⟩
          refine ⟨hkeeps₂.trans hkeeps₃, ?_, nofun⟩
          rintro _ _ ⟨⟩
          exact hloaded script rfl
        · rintro e l₃ ⟨hkeeps₃, -, hfailed₃⟩
          exact ⟨hkeeps₂.trans hkeeps₃, nofun, fun _ _ => hkeeps₂.2.fails (hfailed₃ e rfl)⟩
  · rintro e l₁ ⟨hkeeps₁, hfailed₁⟩
    exact ⟨hkeeps₁, nofun, fun _ _ => hfailed₁ e rfl⟩

/-- What opening a connection comes to: a live handle with its script, or none and a failed
call. -/
structure Renewed (l : Link) (r : Except QuotaError Handle) (l' : Link) : Prop where
  goes : l.backend.Goes l'.backend
  opened : ∀ h, r = .ok h → l'.connections.current = some h ∧ h.script ∈ l'.backend.store.scripts
  failed : ∀ e, r = .error e → l'.connections.current = none ∧
    l.backend.failures + 1 ≤ l'.backend.failures

theorem finishes_renew (h : Undisturbed elapse) (htruthful : l.backend.Truthful)
    (hnone : l.connections.current = none) : renew.run.Finishes elapse l.Renewed l := by
  refine Action.finishes_bind (finishes_connect h htruthful) ?_ ?_
  · rintro ⟨n, script⟩ l₁ ⟨hkeeps, hloaded, -⟩
    refine ⟨rfl, ⟨hkeeps.2.schedule, hkeeps.2.reported, hkeeps.2.scripts, hkeeps.2.failures⟩, ?_,
      nofun⟩
    rintro _ ⟨⟩
    exact ⟨rfl, hloaded n script rfl⟩
  · rintro e l₁ ⟨hkeeps, -, hfailed⟩
    refine ⟨hkeeps.2, nofun, ?_⟩
    rintro _ -
    exact ⟨(congrArg Connections.current hkeeps.1).trans hnone, hfailed e rfl⟩

/-- One if the script of the live handle is not loaded any more. -/
def stale (l : Link) : Nat :=
  match l.connections.current with
  | none => 0
  | some h => if l.backend.store.scripts.contains h.script then 0 else 1

theorem Undisturbed.stale_eq (h : Undisturbed elapse) (millis : Nat) (l : Link) :
    (elapse millis l).stale = l.stale := by
  obtain ⟨hconnections, -, hscripts⟩ := h millis l
  unfold stale
  rw [hconnections, hscripts]

theorem stale_eq_zero (h : ∀ handle, l.connections.current = some handle →
    handle.script ∈ l.backend.store.scripts) : l.stale = 0 := by
  unfold stale
  split
  · rfl
  · rename_i handle hcurrent
    exact if_pos (List.contains_iff_mem.mpr (h handle hcurrent))

theorem stale_eq_one {handle : Handle} (hcurrent : l.connections.current = some handle)
    (hscript : handle.script ∉ l.backend.store.scripts) : l.stale = 1 := by
  unfold stale
  rw [hcurrent]
  exact if_neg (mt List.contains_iff_mem.mp hscript)

theorem Renewed.script_of_current {r : Except QuotaError Handle} {l' : Link}
    (hr : l.Renewed r l') (handle : Handle) (hcurrent : l'.connections.current = some handle) :
    handle.script ∈ l'.backend.store.scripts := by
  cases r with
  | error e =>
      rw [(hr.failed e rfl).1] at hcurrent
      cases hcurrent
  | ok h =>
      obtain ⟨hlive, hscript⟩ := hr.opened h rfl
      rw [hlive, Option.some.injEq] at hcurrent
      rwa [← hcurrent]

/-- What a caller gets: the handle that is live, whose script is loaded unless it was live before,
or a failed call. -/
structure Got (l : Link) (r : Except QuotaError Handle) (l' : Link) : Prop where
  unlocked : l'.connections.locked = false
  goes : l.backend.Goes l'.backend
  live : ∀ h, r = .ok h → l'.connections.current = some h ∧
    (h.script ∈ l'.backend.store.scripts ∨ l' = l)
  failed : ∀ e, r = .error e → l'.connections.current = none ∧
    l.backend.failures + 1 ≤ l'.backend.failures

theorem finishes_getOrConnect (h : Undisturbed elapse) (htruthful : l.backend.Truthful)
    (hfree : l.connections.locked = false) : getOrConnect.run.Finishes elapse l.Got l := by
  unfold getOrConnect current
  refine Action.finishes_bind_read ?_
  cases hcurrent : l.connections.current with
  | some handle =>
      refine ⟨hfree, .refl _, ?_, nofun⟩
      rintro _ ⟨⟩
      exact ⟨hcurrent, .inr rfl⟩
  | none =>
      refine Task.Finishes.holding hfree (Action.finishes_bind_read ?_)
      have hlocked : (lock.set true l).connections.current = none := hcurrent
      rw [hlocked]
      refine (finishes_renew (l := lock.set true l) h htruthful hlocked).mono fun r l' hr => ?_
      refine ⟨rfl, hr.goes, fun handle heq => ?_, hr.failed⟩
      obtain ⟨hlive, hscript⟩ := hr.opened handle heq
      exact ⟨hlive, .inl hscript⟩

/-- After a caller had its handle replaced, there is none, or its script is loaded. -/
theorem finishes_reconnect (h : Undisturbed elapse) (htruthful : l.backend.Truthful)
    (hfree : l.connections.locked = false) {seen : Handle}
    (hcurrent : l.connections.current = some seen) :
    (reconnect seen).run.Finishes elapse (fun _ l' => l'.connections.locked = false ∧
      l.backend.Goes l'.backend ∧ l'.stale = 0) l := by
  refine Task.Finishes.holding hfree (Action.finishes_bind_atOnce ?_)
  have hdropped : dropIfSeen seen (lock.set true l) =
      (none, { lock.set true l with connections.current := none }) := by
    have hsame : (lock.set true l).connections.current = some seen := hcurrent
    rw [dropIfSeen, hsame]
    exact if_pos rfl
  rw [hdropped]
  refine (finishes_renew (l := { lock.set true l with connections.current := none }) h htruthful
    rfl).mono fun r l' hr => ?_
  exact ⟨rfl, hr.goes, stale_eq_zero hr.script_of_current⟩

theorem finishes_evaluate (h : Handle) (b : Bucket) (requested : Int) (maxWait : Nat) :
    (evaluate h b requested maxWait).run.Finishes elapse (fun r l' => l.Keeps l' ∧
      ∀ e, r = .error e → l.backend.failures + 1 ≤ l'.backend.failures ∨
        h.script ∉ l.backend.store.scripts) l := by
  obtain ⟨hgoes, hfailed⟩ := Backend.tells_take h.script b.keys
    (b.limits.take l.backend.now requested maxWait) l.backend
  exact finishes_call ⟨⟨rfl, hgoes⟩, hfailed⟩

/-- If all attempts fail, then as many calls failed, one less if the script of the live handle was
not loaded any more. -/
theorem finishes_takeFrom (h : Undisturbed elapse) (retry : Retry) (b : Bucket) (requested : Int)
    (maxWait left attempt : Nat) (htruthful : l.backend.Truthful)
    (hfree : l.connections.locked = false) :
    (takeFrom retry b requested maxWait left attempt).run.Finishes elapse (fun r l' =>
      l.backend.Goes l'.backend ∧ ∀ e, r = .error e → e = .retriesExhausted retry.count ∧
        left + l.backend.failures ≤ l'.backend.failures + l.stale) l := by
  induction left generalizing attempt l with
  | zero =>
      refine ⟨.refl _, ?_⟩
      rintro _ ⟨⟩
      exact ⟨rfl, by omega⟩
  | succ left ih =>
      rw [takeFrom]
      refine Action.finishes_bind_ofTask (Q := fun _ l' => l.Keeps l' ∧ l'.stale = l.stale)
        (Task.finishes_pause ⟨⟨rfl, .refl _⟩, rfl⟩ ?_) ?_
      · exact ⟨⟨(h _ l).1, h.goes _ l⟩, h.stale_eq _ l⟩
      rintro _ l₀ ⟨⟨hconnections, hgoes₀⟩, hstale₀⟩
      have htruthful₀ := hgoes₀.truthful htruthful
      -- What follows a failed attempt, which used up a failing call or an unloaded script.
      have hnext (l' : Link) (hfree' : l'.connections.locked = false)
          (hgoes' : l₀.backend.Goes l'.backend) (hstale' : l'.stale = 0)
          (hused : l₀.backend.failures + 1 ≤ l'.backend.failures + l₀.stale) :
          (takeFrom retry b requested maxWait left (attempt + 1)).run.Finishes elapse
            (fun r l'' => l.backend.Goes l''.backend ∧ ∀ e, r = .error e →
              e = .retriesExhausted retry.count ∧
                left + 1 + l.backend.failures ≤ l''.backend.failures + l.stale) l' := by
        refine (ih (attempt + 1) (hgoes'.truthful htruthful₀) hfree').mono fun r l'' hr => ?_
        refine ⟨(hgoes₀.trans hgoes').trans hr.1, fun e he => ?_⟩
        obtain ⟨heq, hspent⟩ := hr.2 e he
        have := hgoes₀.failures
        exact ⟨heq, by omega⟩
      refine Action.finishes_bind_outcome
        (finishes_getOrConnect h htruthful₀ ((congrArg Connections.locked hconnections).trans hfree))
        ?_
      intro r l₁ hgot
      cases r with
      | error e =>
          obtain ⟨hnone, hfailed⟩ := hgot.failed e rfl
          refine hnext l₁ hgot.unlocked hgot.goes (stale_eq_zero ?_) (by omega)
          rw [hnone]
          rintro _ ⟨⟩
      | ok handle =>
          obtain ⟨hlive, hloaded⟩ := hgot.live handle rfl
          refine Action.finishes_bind_outcome (finishes_evaluate handle b requested maxWait) ?_
          rintro result l₂ ⟨⟨hconnections₂, hgoes₂⟩, hfailed⟩
          cases result with
          | ok value =>
              refine ⟨(hgoes₀.trans hgot.goes).trans hgoes₂, ?_⟩
              rintro _ ⟨⟩
          | error e =>
              refine Action.finishes_bind_outcome (finishes_reconnect h
                (hgoes₂.truthful (hgot.goes.truthful htruthful₀))
                ((congrArg Connections.locked hconnections₂).trans hgot.unlocked)
                ((congrArg Connections.current hconnections₂).trans hlive)) ?_
              rintro - l₃ ⟨hfree₃, hgoes₃, hstale₃⟩
              have hgoes := (hgot.goes.trans hgoes₂).trans hgoes₃
              refine hnext l₃ hfree₃ hgoes hstale₃ ?_
              rcases hfailed e rfl with hused | hscript
              · have := hgot.goes.failures
                have := hgoes₃.failures
                omega
              · obtain rfl := hloaded.resolve_left hscript
                have := stale_eq_one hlive hscript
                have := hgoes.failures
                omega

/-- A request that is made alone comes to an end. It is answered if fewer calls fail meanwhile than
it has attempts, where a live handle whose script is not loaded any more counts as one. Otherwise it
gives up after all its attempts. -/
theorem take_absorbs (retry : Retry) (b : Bucket) (requested : Int) (maxWait : Nat)
    (helapse : Undisturbed elapse) (htruthful : l.backend.Truthful)
    (hfree : l.connections.locked = false) :
    ∃ r l', (take retry b requested maxWait).run.run elapse l = (some r, l') ∧
      (l.backend.met l'.backend + l.stale < max retry.attempts 1 → ∃ v, r = .ok v) ∧
      ∀ e, r = .error e → e = .retriesExhausted (max retry.attempts 1) := by
  obtain ⟨r, l', hrun, hgoes, hr⟩ := Task.finishes_iff_run.mp
    (finishes_takeFrom helapse retry b requested maxWait retry.count 0 htruthful hfree)
  refine ⟨r, l', hrun, fun hfew => ?_, fun e he => (hr e he).1⟩
  cases r with
  | ok v => exact ⟨v, rfl⟩
  | error e =>
      have hspent := (hr e rfl).2
      have hmet := hgoes.failures_le_met
      rw [Retry.count] at hspent
      omega

/-- The script of the live handle is gone, then the store cannot be reached once, and at last the
request is answered. -/
theorem take_absorbs_flushed :
    let l : Link := ⟨⟨some ⟨0, 1, "take"⟩, false⟩,
      ⟨5, ⟨∅, [], 1⟩, { Outages.none with connects := Outage.none.next 1 }, 1⟩⟩
    let elapse (millis : Nat) (l : Link) : Link :=
      { l with backend := l.backend.advance (millis * 1000000) }
    ∃ v l', (take ⟨3, 10, fun _ => 0⟩ ⟨0, "api", "search", .ofRate 1 5, false⟩ 1 0).run.run elapse l
      = (some (.ok v), l') := by
  intro l elapse
  have helapse : Undisturbed elapse := fun _ _ => ⟨rfl, rfl, rfl⟩
  have htruthful : l.backend.Truthful := nofun
  obtain ⟨r, l', hrun, hok, -⟩ := take_absorbs ⟨3, 10, fun _ => 0⟩
    ⟨0, "api", "search", .ofRate 1 5, false⟩ 1 0 helapse htruthful rfl
  have hmet : l.backend.met l'.backend ≤ 1 := by
    have hconnects := Outage.none.failed_next_le 1 l'.backend.outages.connects.calls
    simp only [l, Backend.met, Outages.none, Outage.failed_none]
    omega
  have hstale : l.stale = 1 := by decide
  obtain ⟨v, rfl⟩ := hok (by rw [hstale]; change _ < 3; omega)
  exact ⟨v, l', hrun⟩

end Link

end TokenQuota
