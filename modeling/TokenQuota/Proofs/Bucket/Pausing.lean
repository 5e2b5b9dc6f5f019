import TokenQuota.Bucket.Taking
import TokenQuota.Proofs.Backoff
import TokenQuota.Proofs.Task.Sleeping

/-!
How long a request pauses between its attempts. Whatever fails and whatever others do meanwhile,
each attempt adds less than a fixed delay. Only scripts that are late to load add to that.
-/

namespace TokenQuota

/-- The milliseconds by which a script is late, if the change is that somebody starts to load
it. -/
def Backend.lateness (c : Backend × Backend) : Nat :=
  if c.1.outages.slowLoads.calls < c.2.outages.slowLoads.calls ∧ c.1.outages.slowLoads.isHit
  then lateMillis else 0

theorem Retry.delay_le (retry : Retry) (attempt : Nat) : retry.delay attempt ≤ 2199 :=
  Backoff.delay_le _ _ _ _

namespace Link

open TokenQuota.Action TokenQuota.Task

def lateness (c : Link × Link) : Nat := Backend.lateness (c.1.backend, c.2.backend)

theorem sleepsWithin_call {α : Type} (c : Call α) : (call c).run.SleepsWithin lateness 0 :=
  fun _ _ => trivial

/-- What a late script makes its caller sleep is granted by the step that starts to load it. -/
theorem sleepsWithin_delay :
    (Task.onPart store (Backend.delay Backend.slowLoads)).SleepsWithin lateness 0 := by
  have hdelay : (Backend.delay Backend.slowLoads).SleepsWithin Backend.lateness 0 := by
    intro b _
    change (Task.pause (if b.outages.slowLoads.isHit then Backend.lateMillis else 0)).SleepsWithin
      _ _
    have hcalled : b.outages.slowLoads.calls < b.outages.slowLoads.called.calls :=
      Nat.lt_succ_self _
    refine (sleepsWithin_pause _).mono ?_
    simp [Backend.lateness, Backend.slowLoads, hcalled]
  exact hdelay.onPart fun _ _ => Nat.le_refl _

theorem sleepsWithin_loadScript (script : String) :
    (loadScript script).run.SleepsWithin lateness 0 :=
  sleepsWithin_bind_right (sleepsWithin_ofTask sleepsWithin_delay)
    fun _ => sleepsWithin_call _

theorem sleepsWithin_connect : connect.run.SleepsWithin lateness 0 := by
  refine sleepsWithin_bind_right (sleepsWithin_call _) fun connection => ?_
  refine sleepsWithin_bind_right (sleepsWithin_outcome (sleepsWithin_call _)) ?_
  intro time
  cases time with
  | error e => exact trivial
  | ok seconds =>
      exact sleepsWithin_bind_right (sleepsWithin_loadScript _)
        fun _ => sleepsWithin_pure _

theorem sleepsWithin_renew : renew.run.SleepsWithin lateness 0 :=
  sleepsWithin_bind_right sleepsWithin_connect
    fun _ => sleepsWithin_ofTask (sleepsWithin_atOnce _)

theorem sleepsWithin_getOrConnect : getOrConnect.run.SleepsWithin lateness 0 := by
  have hcurrent : current.run.SleepsWithin lateness 0 :=
    sleepsWithin_ofTask (sleepsWithin_read _)
  refine sleepsWithin_bind_right hcurrent fun handle => ?_
  cases handle with
  | some h => exact sleepsWithin_pure h
  | none =>
      refine SleepsWithin.holding (sleepsWithin_bind_right hcurrent fun handle => ?_)
      cases handle with
      | some h => exact sleepsWithin_pure h
      | none => exact sleepsWithin_renew

theorem sleepsWithin_reconnect (seen : Handle) :
    (reconnect seen).run.SleepsWithin lateness 0 := by
  refine SleepsWithin.holding (sleepsWithin_bind_right
    (sleepsWithin_ofTask (sleepsWithin_atOnce _)) fun handle => ?_)
  cases handle with
  | some h => exact sleepsWithin_pure h
  | none => exact sleepsWithin_renew

/-- Every attempt pauses at most once, for the delay before it. -/
theorem sleepsWithin_takeFrom (retry : Retry) (b : Bucket) (requested : Int) (maxWait left : Nat)
    (attempt : Nat) :
    (takeFrom retry b requested maxWait left attempt).run.SleepsWithin lateness (2199 * left) := by
  induction left generalizing attempt with
  | zero => exact sleepsWithin_throw _
  | succ left ih =>
      rw [takeFrom, Nat.mul_succ, Nat.add_comm (2199 * left)]
      have hpause : (Action.pause (retry.delay attempt) : Client Unit).run.SleepsWithin
          lateness 2199 :=
        sleepsWithin_ofTask ((sleepsWithin_pause _).mono (retry.delay_le attempt))
      refine sleepsWithin_bind hpause fun _ => ?_
      refine sleepsWithin_bind_right (sleepsWithin_outcome sleepsWithin_getOrConnect) ?_
      rintro (e | h)
      · exact ih (attempt + 1)
      · refine sleepsWithin_bind_right (sleepsWithin_outcome (sleepsWithin_call _)) ?_
        rintro (e | result)
        · exact sleepsWithin_bind_right (sleepsWithin_outcome (sleepsWithin_reconnect h))
            fun _ => ih (attempt + 1)
        · exact (sleepsWithin_pure _).mono (Nat.zero_le _)

/-- A delay is zero before the first attempt and without a base. Otherwise it starts at the base
times a power of two, cut off at the greatest delay, and the jitter adds less than a tenth of that.
It is an unsigned integer, and without its jitter it never shrinks from one attempt to the next. All
pauses of a request together, whatever fails and whatever others do, are less than 2200 milliseconds
for each attempt. -/
theorem backoff_bounded :
    (∀ attempt base greatest draw, greatest + greatest / 10 < 2 ^ 64 →
      let millis := Backoff.delay attempt base greatest draw
      (attempt = 0 ∨ base = 0 → millis = 0) ∧
      (attempt ≠ 0 → base ≠ 0 →
        let c := min (base * 2 ^ (attempt - 1)) greatest
        Backoff.ceiling attempt base greatest = c ∧ c ≤ millis ∧ millis < c + max (c / 10) 1) ∧
      millis < 2 ^ 64) ∧
    (∀ base greatest, Monotone fun attempt => Backoff.ceiling attempt base greatest) ∧
    ∀ (retry : Retry) (b : Bucket) (requested : Int) (maxWait : Nat) l slept rest,
      Passes (take retry b requested maxWait).run l slept rest →
        slept < 2200 * retry.count + (l.map lateness).sum := by
  refine ⟨fun attempt base greatest draw hgreatest => ⟨?_, ?_, ?_⟩, Backoff.ceiling_mono, ?_⟩
  · exact fun hzero => Backoff.delay_of_eq_zero hzero draw
  · intro hattempt hbase
    have hmax : greatest ≤ maxUnsigned := by
      rw [maxUnsigned]
      omega
    have hceiling := Backoff.ceiling_eq hattempt hbase hmax
    have hlt := Backoff.delay_lt attempt base greatest draw
    rw [hceiling] at hlt
    exact ⟨hceiling, hceiling ▸ Backoff.ceiling_le_delay attempt base greatest draw, hlt⟩
  · have hle := Backoff.delay_le attempt base greatest draw
    omega
  · intro retry b requested maxWait l slept rest hpasses
    have hcount : 1 ≤ retry.count := Nat.le_max_right _ _
    have hslept := (sleepsWithin_takeFrom retry b requested maxWait retry.count 0).of_passes
      hpasses
    omega

/-- A link to a store that refuses all connections. -/
def refusing : Link :=
  ⟨.none, { Backend.atTime 0 with outages := { Outages.none with connects := .always } }⟩

/-- A store that refuses all connections is tried three times, with pauses of 107 and 207
milliseconds. -/
theorem backoff_bounded_refused :
    (1600 ≤ Backoff.delay 5 100 2000 7 ∧ Backoff.delay 5 100 2000 7 < 1760) ∧
      ∃ l, Passes (take ⟨3, 100, fun _ => 7⟩ ⟨0, "api", "search", ⟨1, 5, 0, 0, false⟩, false⟩ 1
          0).run l 314 (.done (.error (.retriesExhausted 3))) ∧
        314 < 2200 * 3 + (l.map lateness).sum := by
  obtain ⟨hdelay, -, htake⟩ := backoff_bounded
  obtain ⟨-, hbetween, -⟩ := hdelay 5 100 2000 7 (by decide)
  refine ⟨(hbetween (by decide) (by decide)).2, ?_⟩
  have hrun : (take ⟨3, 100, fun _ => 7⟩ ⟨0, "api", "search", ⟨1, 5, 0, 0, false⟩, false⟩ 1
      0).run.run (fun _ s => s) refusing = (some (.error (.retriesExhausted 3)),
        { refusing with backend.outages.connects := ⟨3, fun _ => true⟩ }) := rfl
  obtain ⟨l, hpasses⟩ := exists_passes_of_run _ hrun
  exact ⟨l, hpasses, htake _ _ _ _ l _ _ hpasses⟩

end Link

end TokenQuota
