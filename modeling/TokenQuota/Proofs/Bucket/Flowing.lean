import TokenQuota.Bucket.Taking
import TokenQuota.Proofs.Store.Handles
import TokenQuota.Proofs.Task.Amid
import TokenQuota.Proofs.Task.Flowing

/-!
A request for tokens waits for nobody but the holder of the connection's lock, and it fails only
when its attempts are used up.
-/

namespace TokenQuota.Link

open TokenQuota.Task (Flows)

variable {α : Type} {k : Bool} {l l' : Link}

theorem flows_call (c : Call α) : (call c).run.Flows lock.get k := fun _ h => ⟨rfl, h⟩

theorem flows_current : current.run.Flows lock.get k := Action.flows_read _

theorem flows_loadScript (script : String) : (loadScript script).run.Flows lock.get k := by
  refine Action.flows_bind (Action.flows_ofTask ?_) fun _ => flows_call _
  exact fun l hl => ⟨rfl, Task.flows_onPart_pause _ _ _ hl⟩

theorem flows_connect : connect.run.Flows lock.get k := by
  refine Action.flows_bind (flows_call _) fun n => ?_
  refine Action.flows_bind (Action.flows_outcome (flows_call _)) fun time => ?_
  cases time with
  | error e => exact Task.flows_done _
  | ok seconds => exact Action.flows_bind (flows_loadScript _) fun _ => Task.flows_done _

theorem flows_renew : renew.run.Flows lock.get k :=
  Action.flows_bind flows_connect fun _ =>
    Action.flows_ofTask (Task.flows_atOnce fun _ => rfl)

theorem flows_holding {a : Client α} (h : a.run.Flows lock.get true) :
    (Action.holding lock a).run.Flows lock.get false :=
  Task.flows_holding (fun _ _ => rfl) h

theorem flows_getOrConnect : getOrConnect.run.Flows lock.get false := by
  refine Action.flows_bind flows_current fun handle => ?_
  cases handle with
  | some h => exact Task.flows_done _
  | none =>
      refine flows_holding (Action.flows_bind flows_current fun handle => ?_)
      cases handle with
      | some h => exact Task.flows_done _
      | none => exact flows_renew

theorem flows_reconnect (seen : Handle) : (reconnect seen).run.Flows lock.get false := by
  refine flows_holding (Action.flows_bind (Action.flows_ofTask
    (Task.flows_atOnce (locked_dropIfSeen seen))) fun handle => ?_)
  cases handle with
  | some h => exact Task.flows_done _
  | none => exact flows_renew

theorem flows_takeFrom (retry : Retry) (b : Bucket) (requested : Int)
    (maxWait left attempt : Nat) :
    (takeFrom retry b requested maxWait left attempt).run.Flows lock.get false := by
  induction left generalizing attempt with
  | zero => exact Task.flows_done _
  | succ left ih =>
      refine Action.flows_bind (Action.flows_ofTask (Task.flows_pause _)) fun _ => ?_
      refine Action.flows_bind (Action.flows_outcome flows_getOrConnect) fun handle => ?_
      cases handle with
      | error e => exact ih (attempt + 1)
      | ok h =>
          refine Action.flows_bind (Action.flows_outcome (flows_call _)) fun result => ?_
          cases result with
          | ok result => exact Task.flows_done _
          | error e =>
              exact Action.flows_bind (Action.flows_outcome (flows_reconnect h)) fun _ =>
                ih (attempt + 1)

theorem flows_take (retry : Retry) (b : Bucket) (requested : Int) (maxWait : Nat) :
    (take retry b requested maxWait).run.Flows lock.get false :=
  flows_takeFrom retry b requested maxWait retry.count 0

/-- Whatever goes wrong, a request that fails has used up its attempts. -/
theorem error_of_endsAmid_takeFrom {υ : Type} {still : Link → υ} (retry : Retry) (b : Bucket)
    (requested : Int) (maxWait left attempt : Nat) {e : QuotaError}
    (h : (takeFrom retry b requested maxWait left attempt).run.EndsAmid still l (.error e) l') :
    e = .retriesExhausted retry.count := by
  induction left generalizing attempt l with
  | zero =>
      obtain ⟨heq, -⟩ := Task.endsAmid_done h
      exact Except.error.inj heq
  | succ left ih =>
      rcases Action.endsAmid_bind h with ⟨u, l₁, -, hattempt⟩ | ⟨e', l₁, -, hpause, -⟩
      · obtain ⟨handle, l₂, -, hask⟩ := Action.endsAmid_bind_outcome hattempt
        cases handle with
        | error e' => exact ih (attempt + 1) hask
        | ok handle =>
            obtain ⟨result, l₃, -, hlast⟩ := Action.endsAmid_bind_outcome hask
            cases result with
            | ok result =>
                obtain ⟨heq, -⟩ := Task.endsAmid_done hlast
                cases heq
            | error e' =>
                obtain ⟨u, l₄, -, hrest⟩ := Action.endsAmid_bind_outcome hlast
                exact ih (attempt + 1) hrest
      · obtain ⟨u, l₀, heq, -⟩ := Action.endsAmid_ofTask hpause
        cases heq

end TokenQuota.Link
