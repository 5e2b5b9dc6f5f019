import TokenQuota.Deployment
import TokenQuota.Proofs.Bucket.Pairs
import TokenQuota.Proofs.Server.Taking

/-!
Over a store that starts empty the two cells of every bucket are live at the same times and have one
expiry, whatever several servers and the buckets outside of them do, and however their steps come
between each other.
-/

namespace TokenQuota

namespace Site

open TokenQuota.Protocol

variable {i : Request}

/-- The cells of the store are the same. -/
def KeepsCells (s s' : Site) : Prop := s.link.KeepsCells s'.link

theorem covers_keepsCells : Covers KeepsCells :=
  ⟨⟨fun _ => rfl, fun _ _ => rfl, fun _ _ => rfl, fun _ _ => rfl⟩, fun _ _ => rfl⟩

theorem keepsCells_onLink {α : Type} {a : Link.Client α} (ha : a.run.Changes Link.Spares) :
    (onLink a).run.Changes KeepsCells :=
  Task.Changes.onPart (fun _ _ hl => hl.keepsCells) ha

theorem keepsCells_transition (source target : Lifecycle) (s : Site) :
    s.KeepsCells (transition source target s).2 := by
  unfold transition
  split
  · rfl
  · rfl

theorem keepsCells_stop : stop.run.Changes KeepsCells := by
  refine Action.changes_bind (Task.changes_atOnce (keepsCells_transition _ _)) fun _ => ?_
  refine Action.changes_bind (Action.changes_ofTask (Task.changes_await fun _ _ => rfl)) fun _ => ?_
  exact keepsCells_onLink Link.spares_close

/-- Servers on a store whose cells come in pairs. -/
abbrev pairing : Protocol Request Unit Site :=
  .keeping Request fun s => s.link.backend.store.Paired

theorem pairing_of_changes {α : Type} {x : Work α} (hx : x.run.Changes KeepsCells) :
    pairing.Does i () (fun _ => True) x fun _ _ => True :=
  keeping_of_changes hx fun _ _ hs h => hs.of_cells_eq h

theorem pairing_onLink {α : Type} {a : Link.Client α}
    (ha : Link.pairing.Does () () (fun _ => True) a fun _ _ => True) :
    pairing.Does i () (fun _ => True) (onLink a) fun _ _ => True :=
  ha.keeping_onPart (p := linkPart) (I := fun s => s.link.backend.store.Paired)
    (R := fun _ => True) (fun _ hs => hs) fun _ _ _ hl => hl

theorem plain : Plain pairing where
  readArchive _ := pairing_of_changes covers_keepsCells.changes_readArchive
  prepare _ c := pairing_onLink (Link.pairing_prepare c)
  install _ _ _ hs := hs
  aside _ s s' (hs : s.link.backend.store.Paired) _ hlink := by
    change s'.link.backend.store.Paired
    rwa [hlink]

theorem pairing_allow (ns bucket : String) (tokens : Int) (maxWait : Nat) :
    pairing.Does i () (fun _ => True) (allow ns bucket tokens maxWait) fun _ _ => True := by
  refine plain.does_allow (fun s (hs : s.link.backend.store.Paired) => ?_) fun retry b => ?_
  · change (accept ns bucket tokens s).2.link.backend.store.Paired
    rwa [(accept_spec ns bucket tokens s).1]
  · exact pairing_onLink (Link.pairing_of_changes (Link.keepsPairs_take retry b tokens maxWait))

theorem keepsCells_work {r : Request} (htake : isTake r = false) (hstart : r ≠ .start)
    (hround : r ≠ .round) : (work r).Changes KeepsCells := by
  cases hminor : isMinor r with
  | false => exact covers_keepsCells.changes_work hstart hround hminor
  | true =>
      cases r with
      | stop => exact Action.changes_bind keepsCells_stop fun _ => trivial
      | health =>
          exact Action.changes_bind (keepsCells_onLink Link.spares_isHealthy) fun _ => trivial
      | sweep =>
          exact Action.changes_bind (Action.changes_ofTask (Task.changes_atOnce fun _ => rfl))
            fun _ => trivial
      | allow ns bucket tokens maxWait => cases htake
      | _ => cases hminor

theorem pairing_perform (i : Request) :
    pairing.Does i () (fun _ => True) (perform i) fun _ _ => True := by
  by_cases hstart : i = .start
  · subst hstart
    exact fun s _ => (plain.safe_start s).mono fun _ _ _ _ _ => ⟨rfl, trivial⟩
  · by_cases hround : i = .round
    · subst hround
      exact fun s _ => (plain.safe_round s).mono fun _ _ _ _ _ => ⟨rfl, trivial⟩
    · cases htake : isTake i with
      | true =>
          cases i with
          | allow ns bucket tokens maxWait =>
              exact .bind (pairing_allow ns bucket tokens maxWait)
                (fun v => (does_pure (stable_keeping True) _).mono (fun _ hs => hs)
                  fun _ _ _ _ => trivial) fun _ _ _ _ => trivial
          | _ => cases htake
      | false => exact pairing_of_changes (keepsCells_work htake hstart hround)

end Site

namespace Deployment

open TokenQuota.Protocol

/-- What is asked of a server, or of a connection to the store. -/
inductive Job
  | serve (server : String) (r : Request)
  | take (owner : Owner) (retry : Retry) (b : Bucket) (requested : Int) (maxWait : Nat)
  /-- Prepares the store for a configuration outside of servers. -/
  | prepare (owner : Owner) (config : ServiceConfig)

def perform : Job → Work Unit
  | .serve server r => do let _ ← onSite server (Site.perform r)
  | .take owner retry b requested maxWait => do
    let _ ← onLink owner (Link.take retry b requested maxWait)
  | .prepare owner config => onLink owner (Link.prepare config)

def work (j : Job) : Task Deployment (Except QuotaError Unit) := (perform j).run

/-- Changes that nobody works for. Clocks go forward or back, calls are made to fail, scripts are
forgotten, and servers are added, but no cell is touched. -/
def LeavesCells (d d' : Deployment) : Prop := d'.backend.store.cells = d.backend.store.cells

theorem backend_set_link (owner : Owner) (l : Link) (d : Deployment) :
    ((link owner).set l d).backend = l.backend := by
  cases owner <;> rfl

theorem backend_set_site (name : String) (s : Site) (d : Deployment) :
    ((site name).set s d).backend = s.link.backend := by
  unfold site archive
  dsimp only
  split <;> rfl

/-- What is asked for on a store whose cells come in pairs. -/
abbrev pairing : Protocol Job Unit Deployment := .keeping Job fun d => d.backend.store.Paired

theorem pairing_onLink {α : Type} {a : Link.Client α} {j : Job} (owner : Owner)
    (ha : Link.pairing.Does () () (fun _ => True) a fun _ _ => True) :
    pairing.Does j () (fun _ => True) (onLink owner a) fun _ _ => True := by
  refine ha.keeping_onPart (p := link owner) (I := fun d => d.backend.store.Paired)
    (R := fun _ => True) (fun _ hd => hd) fun d l _ hl => ?_
  rw [backend_set_link]
  exact hl

theorem pairing_onSite {α : Type} {x : Site.Work α} {j : Job} {i : Request} (name : String)
    (hx : Site.pairing.Does i () (fun _ => True) x fun _ _ => True) :
    pairing.Does j () (fun _ => True) (onSite name x) fun _ _ => True := by
  refine hx.keeping_onPart (p := site name) (I := fun d => d.backend.store.Paired)
    (R := fun _ => True) (fun _ hd => hd) fun d s _ hs => ?_
  rw [backend_set_site]
  exact hs

theorem pairing_perform (j : Job) :
    pairing.Does j () (fun _ => True) (perform j) fun _ _ => True := by
  have hends {α : Type} {x : Work α} (hx : pairing.Does j () (fun _ => True) x fun _ _ => True) :
      pairing.Does j () (fun _ => True) (do let _ ← x : Work Unit) fun _ _ => True :=
    hx.bind (fun _ => (does_pure (stable_keeping True) ()).mono (fun _ _ => trivial)
      fun _ _ _ _ => trivial) fun _ _ _ _ => trivial
  cases j with
  | serve server r => exact hends (pairing_onSite server (Site.pairing_perform r))
  | take owner retry b requested maxWait =>
      exact hends (pairing_onLink owner
        (Link.pairing_of_changes (Link.keepsPairs_take retry b requested maxWait)))
  | prepare owner c => exact pairing_onLink owner (Link.pairing_prepare c)

/-- On a store that starts empty the two cells of every name are there together, with one expiry,
and so they are live at the same times: after any steps of servers that start, reload, and give
tokens, of takers and of those who prepare the store, whichever calls fail and wherever the clock is
set meanwhile. -/
theorem cells_paired {d₀ : Deployment} {es : List (Event Deployment)}
    {p : Pool Job Deployment (Except QuotaError Unit)} (hempty : d₀.backend.store.cells = ∅)
    (hrun : Pool.Run work LeavesCells d₀ es p) (ns bucket : String) :
    let keys := CellKeys.of ns bucket
    let store := p.state.backend.store
    (store.cells.get? keys.nextAvailable).map Cell.expiry =
        (store.cells.get? keys.accumulated).map Cell.expiry ∧
      ∀ now, ((store.live now).get? keys.nextAvailable).isSome =
        ((store.live now).get? keys.accumulated).isSome := by
  intro keys store
  have hpaired : store.Paired := by
    refine hrun.keeping (I := fun d => d.backend.store.Paired)
      (Store.paired_of_cells_eq_empty hempty) (fun j d => ?_) fun d d' hcells hd => ?_
    · exact (pairing_perform j d trivial).mono fun _ _ _ _ _ => trivial
    · exact hd.of_cells_eq hcells
  exact ⟨hpaired ns bucket, fun now => hpaired.isSome_live now ns bucket⟩

/-- Two buckets are asked for tokens. Then the scripts are forgotten and the clock goes back, and
the store is prepared for a configuration with one of the two: its cells expire together, and those
of the other are gone. -/
theorem cells_paired_cleaned :
    let search : Bucket := ⟨0, "api", "search", ⟨1, 10, 60000, 0, false⟩, false⟩
    let removed : Bucket := ⟨1, "api", "removed", ⟨1, 10, 0, 0, false⟩, false⟩
    let c : ServiceConfig := ⟨1, 1, "", none, (∅ : NameMap NamespaceConfig).insert "api"
      ((NamespaceConfig.ofName "api").withBucket "search" search.config)⟩
    let retry : Retry := ⟨1, 0, fun _ => 0⟩
    let d₀ : Deployment := { Deployment.create 0 0 retry with
      connections := ⟨some ⟨0, 1, "take"⟩, false⟩
      backend := ⟨5, ⟨∅, ["take"], 1⟩, { Outages.none with reportedName := some "take" }, 1⟩ }
    let first := ((work (.take .shared retry search 1 0)).run (fun _ d => d) d₀).2
    let second := ((work (.take .shared retry removed 1 0)).run (fun _ d => d) first).2
    let back (d : Deployment) : Deployment :=
      { d with backend.now := -7, backend.store.scripts := [] }
    let last := ((work (.prepare .shared c)).run (fun _ d => d) (back second)).2
    ∃ (es : List (Event Deployment)) (p : Pool Job Deployment (Except QuotaError Unit)),
      Pool.Run work LeavesCells d₀ es p ∧ p.state = last ∧
      (∀ ns bucket, let keys := CellKeys.of ns bucket
        let store := p.state.backend.store
        (store.cells.get? keys.nextAvailable).map Cell.expiry =
            (store.cells.get? keys.accumulated).map Cell.expiry ∧
          ∀ now, ((store.live now).get? keys.nextAvailable).isSome =
            ((store.live now).get? keys.accumulated).isSome) ∧
      (last.backend.store.cells.entries.map fun e => (e.1, e.2.expiry)) =
        [("api:search:AT", some 60000000005), ("api:search:TNA", some 60000000005)] := by
  intro search removed c retry d₀ first second back last
  have h₀ : Pool.Run work LeavesCells d₀ [] ⟨d₀, []⟩ := .start
  obtain ⟨es₁, p₁, h₁, hp₁⟩ := h₀.exists_after rfl (.take .shared retry search 1 0)
    (by decide +kernel)
  obtain ⟨es₂, p₂, h₂, hp₂⟩ := h₁.exists_after (s := first) hp₁ (.take .shared retry removed 1 0)
    (by decide +kernel)
  have hback (d : Deployment) : LeavesCells d (back d) := rfl
  obtain ⟨es, p, h, hp⟩ := (h₂.outside (hback p₂.state)).exists_after (s := back second)
    (congrArg back hp₂) (.prepare .shared c) (by decide +kernel)
  exact ⟨es, p, h, hp, cells_paired rfl h, by decide +kernel⟩

end Deployment

end TokenQuota
