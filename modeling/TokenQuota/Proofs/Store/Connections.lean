import TokenQuota.Bucket.Preparing
import TokenQuota.Proofs.Task.Steps

/-!
Connecting to the store and loading the script leave the cells alone, and so the calls that clean
the store. To prepare the store fails only while that is done, before any cell is deleted.
-/

namespace TokenQuota

/-- The cells are the same. -/
def Backend.KeepsCells (b b' : Backend) : Prop := b'.store.cells = b.store.cells

/-- The cells of the store are the same. -/
def Link.KeepsCells (l l' : Link) : Prop := l.backend.KeepsCells l'.backend

/-- What cleaning the store works on: the cells, and how the calls fare that clean it. -/
def Backend.spared (b : Backend) : NameMap Cell × Outage × Outage :=
  (b.store.cells, b.outages.scans, b.outages.deletes)

def Backend.Spares (b b' : Backend) : Prop := b'.spared = b.spared

def Link.Spares (l l' : Link) : Prop := l.backend.Spares l'.backend

namespace Backend

theorem Spares.keepsCells {b b' : Backend} (h : b.Spares b') : b.KeepsCells b' :=
  congrArg Prod.fst h

theorem spares_guarded {α : Type} {outage : Part Outages Outage} {error : QuotaError}
    {f : Backend → Except QuotaError α × Backend}
    (houtage : ∀ o s, (outage.set o s).scans = s.scans ∧ (outage.set o s).deletes = s.deletes)
    (hf : ∀ b : Backend, b.Spares (f b).2) (b : Backend) :
    b.Spares (guarded outage error f b).2 := by
  have hcalled (o : Outage) : b.Spares { b with outages := outage.set o b.outages } := by
    simp [Spares, spared, houtage]
  unfold guarded
  dsimp only
  split
  · exact hcalled _
  · exact (hf _).trans (hcalled _)

theorem spares_connect (b : Backend) : b.Spares (connect b).2 := by
  refine spares_guarded (fun _ _ => ⟨rfl, rfl⟩) ?_ b
  intro b
  exact (rfl : b.spared = b.spared)

theorem spares_time (b : Backend) : b.Spares (time b).2 := by
  refine spares_guarded (fun _ _ => ⟨rfl, rfl⟩) ?_ b
  intro b
  exact (rfl : b.spared = b.spared)

theorem spares_ping (b : Backend) : b.Spares (ping b).2 := by
  refine spares_guarded (fun _ _ => ⟨rfl, rfl⟩) ?_ b
  intro b
  exact (rfl : b.spared = b.spared)

theorem spares_load (script : String) (b : Backend) : b.Spares (load script b).2 := by
  refine spares_guarded (fun _ _ => ⟨rfl, rfl⟩) (fun b => ?_) b
  have hcells (name : String) : (b.store.load name).cells = b.store.cells := by
    unfold Store.load
    split
    · rfl
    · rfl
  simp [Spares, spared, hcells]

end Backend

namespace Link

variable {α : Type}

theorem Spares.keepsCells {l l' : Link} (h : l.Spares l') : l.KeepsCells l' :=
  Backend.Spares.keepsCells h

theorem Spares.refl (l : Link) : l.Spares l := rfl

theorem spares_onStore {t : Task Backend α} (h : t.Changes Backend.Spares) :
    (t.onPart store).Changes Spares :=
  h.onPart fun _ _ hr => hr

theorem spares_call {c : Call α} (h : ∀ b : Backend, b.Spares (c b).2) :
    (call c).run.Changes Spares :=
  spares_onStore (Task.changes_atOnce h)

theorem spares_loadScript (script : String) : (loadScript script).run.Changes Spares := by
  refine Action.changes_bind (Action.changes_ofTask (spares_onStore ?_)) fun _ =>
    spares_call (Backend.spares_load script)
  refine Task.Changes.andThen (Task.changes_atOnce fun b => ?_) fun late => ?_
  · exact (rfl : b.spared = b.spared)
  · exact Task.changes_pause _ _

theorem spares_current : current.run.Changes Spares :=
  Action.changes_ofTask (Task.changes_read .refl _)

theorem spares_connect : connect.run.Changes Spares := by
  refine Action.changes_bind (spares_call Backend.spares_connect) fun n => ?_
  refine Action.changes_bind (Action.changes_outcome
    (spares_call Backend.spares_time)) fun time => ?_
  cases time with
  | error e => exact trivial
  | ok seconds => exact Action.changes_bind (spares_loadScript takeScript) fun _ => trivial

theorem spares_renew : renew.run.Changes Spares :=
  Action.changes_bind spares_connect fun _ =>
    Action.changes_ofTask (Task.changes_atOnce fun _ => rfl)

theorem spares_holding {a : Client α} (h : a.run.Changes Spares) :
    (Action.holding lock a).run.Changes Spares :=
  Task.Changes.holding (fun _ _ => rfl) (fun _ => rfl) h

theorem spares_getOrConnect : getOrConnect.run.Changes Spares := by
  refine Action.changes_bind spares_current fun handle => ?_
  cases handle with
  | some h => exact trivial
  | none =>
      refine spares_holding (Action.changes_bind spares_current fun handle => ?_)
      cases handle with
      | some h => exact trivial
      | none => exact spares_renew

theorem spares_dropIfSeen (seen : Handle) (l : Link) : Spares l (dropIfSeen seen l).2 := by
  unfold dropIfSeen
  split
  · split
    · rfl
    · rfl
  · rfl

theorem spares_reconnect (seen : Handle) : (reconnect seen).run.Changes Spares := by
  refine spares_holding (Action.changes_bind (Action.changes_ofTask
    (Task.changes_atOnce (spares_dropIfSeen seen))) fun handle => ?_)
  cases handle with
  | some h => exact trivial
  | none => exact spares_renew

theorem spares_refresh (seen : Handle) (script : String) (l : Link) :
    Spares l (l.refresh seen script).2 := by
  unfold refresh
  split
  · split
    · rfl
    · rfl
  · rfl

theorem spares_ensureScript : ensureScript.run.Changes Spares := by
  refine Action.changes_bind spares_getOrConnect fun h => ?_
  refine Action.changes_bind (Action.changes_outcome (spares_loadScript _)) fun script => ?_
  cases script with
  | error e => exact spares_reconnect h
  | ok script =>
      change (if script = h.script then pure h else replaceScript h script :
        Client Handle).run.Changes Spares
      split
      · exact trivial
      · exact spares_holding (Action.changes_ofTask
          (Task.changes_atOnce (spares_refresh h script)))

theorem spares_close : close.run.Changes Spares :=
  spares_holding (Action.changes_ofTask (Task.changes_modify fun _ => rfl))

theorem spares_isHealthy : isHealthy.run.Changes Spares := by
  refine Action.changes_bind spares_current fun handle => ?_
  cases handle with
  | none => exact trivial
  | some h =>
      refine Action.changes_bind (Action.changes_outcome (spares_call Backend.spares_ping))
        fun answer => ?_
      cases answer with
      | error e => exact trivial
      | ok u => exact trivial

theorem keepsCells_getOrConnect : getOrConnect.run.Changes KeepsCells :=
  spares_getOrConnect.mono fun _ _ h => h.keepsCells

theorem keepsCells_reconnect (seen : Handle) : (reconnect seen).run.Changes KeepsCells :=
  (spares_reconnect seen).mono fun _ _ h => h.keepsCells

/-- To prepare the store fails only for want of a connection with the script. -/
theorem ends_prepare_error {config : ServiceConfig} {l : List (Link × Link)} {e : QuotaError}
    (h : Task.Ends (prepare config).run l (.error e)) :
    Task.Ends ensureScript.run l (.error e) := by
  rcases Action.ends_bind h with ⟨handle, l₁, l₂, -, -, hrest⟩ | ⟨e', heq, hensure⟩
  · rcases Action.ends_bind hrest with ⟨r, l₃, l₄, -, -, hdone⟩ | ⟨e', -, houtcome⟩
    · obtain ⟨-, heq⟩ := Task.ends_done hdone
      cases heq
    · obtain ⟨r, heq, -⟩ := Action.ends_outcome houtcome
      cases heq
  · cases heq
    exact hensure

theorem keepsCells_of_ends_prepare {config : ServiceConfig} {l : List (Link × Link)}
    {e : QuotaError} (h : Task.Ends (prepare config).run l (.error e)) :
    ∀ c ∈ l, KeepsCells c.1 c.2 :=
  fun c hc => (spares_ensureScript.of_steps (ends_prepare_error h) c hc).keepsCells

end Link

end TokenQuota
