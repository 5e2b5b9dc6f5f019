import TokenQuota.Proofs.Store.Connections

/-!
How a connection is opened, step by step, and which handles a request for one finds or publishes
on its way.
-/

namespace TokenQuota

/-- The numbers given out to connections and handles only grow. -/
def Backend.Grows (b b' : Backend) : Prop :=
  b.store.connects ≤ b'.store.connects ∧ b.handles ≤ b'.handles

namespace Backend

theorem Grows.refl (b : Backend) : b.Grows b := ⟨Nat.le_refl _, Nat.le_refl _⟩

theorem Grows.trans {b b' b'' : Backend} (h : b.Grows b') (h' : b'.Grows b'') : b.Grows b'' :=
  ⟨Nat.le_trans h.1 h'.1, Nat.le_trans h.2 h'.2⟩

theorem grows_guarded {α : Type} {outage : Part Outages Outage} {error : QuotaError}
    {f : Backend → Except QuotaError α × Backend} (hf : ∀ b : Backend, b.Grows (f b).2)
    (b : Backend) : b.Grows (guarded outage error f b).2 := by
  unfold guarded
  dsimp only
  split
  · exact .refl b
  · exact hf { b with outages := outage.set (outage.get b.outages).called b.outages }

theorem grows_connect (b : Backend) : b.Grows (connect b).2 := by
  refine grows_guarded ?_ b
  intro b
  exact ⟨Nat.le_succ _, Nat.le_refl _⟩

theorem grows_time (b : Backend) : b.Grows (time b).2 := by
  refine grows_guarded ?_ b
  intro b
  exact .refl b

theorem grows_load (script : String) (b : Backend) : b.Grows (load script b).2 := by
  refine grows_guarded ?_ b
  intro b
  have hconnects (name : String) : (b.store.load name).connects = b.store.connects := by
    unfold Store.load
    split
    · rfl
    · rfl
  exact ⟨Nat.le_of_eq (hconnects _).symm, Nat.le_refl _⟩

/-- A connection gets a number that none had before. -/
theorem connects_of_connect {b b' : Backend} {n : Nat} (h : connect b = (.ok n, b')) :
    n = b.store.connects + 1 ∧ b'.store.connects = n := by
  unfold connect guarded at h
  dsimp only at h
  split at h
  · cases h
  · cases h
    exact ⟨rfl, rfl⟩

end Backend

namespace Link

variable {α : Type} {l : List (Link × Link)}

/-- The owner of the connection stays as it is, and the numbers given out only grow. -/
structure Aside (l l' : Link) : Prop where
  connections : l'.connections = l.connections
  grows : l.backend.Grows l'.backend

theorem aside_call {f : Call α} (hf : ∀ b : Backend, b.Grows (f b).2) :
    (call f).run.Changes Aside :=
  Task.Changes.onPart (fun _ _ h => ⟨rfl, h⟩) (Task.changes_atOnce hf)

theorem aside_loadScript (script : String) : (loadScript script).run.Changes Aside := by
  refine Action.changes_bind (Action.changes_ofTask ?_) fun _ =>
    aside_call (Backend.grows_load script)
  refine Task.Changes.onPart (R := Backend.Grows) (fun _ _ h => ⟨rfl, h⟩)
    (Task.Changes.andThen (Task.changes_atOnce fun b => ?_) fun late => ?_)
  · exact .refl b
  · exact Task.changes_pause _ _

theorem aside_connect : connect.run.Changes Aside := by
  refine Action.changes_bind (aside_call Backend.grows_connect) fun n => ?_
  refine Action.changes_bind (Action.changes_outcome (aside_call Backend.grows_time)) fun told => ?_
  cases told with
  | error e => exact trivial
  | ok seconds => exact Action.changes_bind (aside_loadScript takeScript) fun _ => trivial

/-- The changes of a caller by which a connection is opened: the store lets it in, tells its time
on the connection and takes the script, which may be late. -/
def IsOpening (l : List (Link × Link)) (n : Nat) (script : String) : Prop :=
  ∃ connecting telling loading waiting seconds,
    l = connecting :: telling :: (waiting ++ [loading]) ∧
      Backend.connect connecting.1.backend = (.ok n, connecting.2.backend) ∧
      Backend.time telling.1.backend = (.ok seconds, telling.2.backend) ∧
      Backend.load takeScript loading.1.backend = (.ok script, loading.2.backend)

theorem ends_call {f : Call α} {r : Except QuotaError α} (h : Task.Ends (call f).run l r) :
    ∃ c : Link × Link, l = [c] ∧ f c.1.backend = (r, c.2.backend) := by
  obtain ⟨s, l', rfl, -, hdone⟩ := Task.ends_step h
  obtain ⟨rfl, rfl⟩ := Task.ends_done hdone
  exact ⟨_, rfl, rfl⟩

theorem ends_loadScript {script name : String}
    (h : Task.Ends (loadScript script).run l (.ok name)) :
    ∃ waiting loading, l = waiting ++ [loading] ∧
      Backend.load script loading.1.backend = (.ok name, loading.2.backend) := by
  rcases Action.ends_bind h with ⟨u, waiting, l₂, rfl, -, hcall⟩ | ⟨e, heq, -⟩
  · obtain ⟨loading, rfl, hload⟩ := ends_call hcall
    exact ⟨waiting, loading, rfl, hload⟩
  · cases heq

theorem isOpening_of_ends {n : Nat} {script : String}
    (h : Task.Ends connect.run l (.ok (n, script))) : IsOpening l n script := by
  rcases Action.ends_bind h with ⟨m, l₁, l₂, rfl, hconnect, hrest⟩ | ⟨e, heq, -⟩
  · obtain ⟨connecting, rfl, hconnects⟩ := ends_call hconnect
    rcases Action.ends_bind hrest with ⟨told, l₃, l₄, rfl, htell, hlast⟩ | ⟨e, heq, -⟩
    · obtain ⟨r, heq, htime⟩ := Action.ends_outcome htell
      cases heq
      obtain ⟨telling, rfl, htells⟩ := ends_call htime
      cases told with
      | error e => cases (Task.ends_done hlast).2
      | ok seconds =>
          rcases Action.ends_bind hlast with ⟨name, l₅, l₆, rfl, hload, hdone⟩ | ⟨e, heq, -⟩
          · obtain ⟨rfl, heq⟩ := Task.ends_done hdone
            cases heq
            obtain ⟨waiting, loading, rfl, hloads⟩ := ends_loadScript hload
            exact ⟨connecting, telling, loading, waiting, seconds, by simp, hconnects, htells,
              hloads⟩
          · cases heq
    · cases heq
  · cases heq

/-- While a connection is opened, it is let in once, under the number after the last one. -/
theorem IsOpening.connects {n : Nat} {script : String} (h : IsOpening l n script) :
    ∃ c ∈ l, n = c.1.backend.store.connects + 1 ∧ c.2.backend.store.connects = n := by
  obtain ⟨connecting, telling, loading, waiting, seconds, rfl, hconnects, -⟩ := h
  exact ⟨connecting, List.mem_cons_self, Backend.connects_of_connect hconnects⟩

theorem ends_holding {a : Client α} {r : Except QuotaError α}
    (h : Task.Ends (Action.holding lock a).run l r) :
    ∃ l', l' ⊆ l ∧ Task.Ends a.run l' r := by
  obtain ⟨u, l₁, l₂, rfl, -, hrest⟩ := Task.ends_andThen h
  obtain ⟨r', l₃, l₄, rfl, ha, hleave⟩ := Task.ends_andThen hrest
  obtain ⟨u', l₅, l₆, rfl, -, hdone⟩ := Task.ends_andThen hleave
  obtain ⟨rfl, rfl⟩ := Task.ends_done hdone
  exact ⟨l₃, by simp, ha⟩

theorem ends_renew {h : Handle} (hends : Task.Ends renew.run l (.ok h)) :
    ∃ c ∈ l, c.2.connections.current = some h ∧ h.serial = c.1.backend.handles := by
  rcases Action.ends_bind hends with ⟨⟨n, script⟩, l₁, l₂, rfl, -, hpublish⟩ | ⟨e, heq, -⟩
  · obtain ⟨h', heq, hatOnce⟩ := Action.ends_ofTask hpublish
    cases heq
    obtain ⟨s, l', rfl, -, hdone⟩ := Task.ends_step hatOnce
    obtain ⟨rfl, rfl⟩ := Task.ends_done hdone
    exact ⟨(s, (publish n script s).2), by simp, rfl, rfl⟩
  · cases heq

/-- A caller that is given a handle without having to wait saw it as the current one. -/
theorem ends_orElse {a : Client Handle} {h : Handle}
    (hends : Task.Ends (do
      match ← current with
      | some h => return h
      | none => a : Client Handle).run l (.ok h)) :
    (∃ c ∈ l, c.2.connections.current = some h) ∨ ∃ l', l' ⊆ l ∧ Task.Ends a.run l' (.ok h) := by
  rcases Action.ends_bind hends with ⟨o, l₁, l₂, rfl, hread, hrest⟩ | ⟨e, heq, -⟩
  · obtain ⟨o', heq, hread'⟩ := Action.ends_ofTask hread
    cases heq
    obtain ⟨s, rfl, rfl⟩ := Task.ends_read hread'
    cases hcurrent : s.connections.current with
    | some h' =>
        rw [hcurrent] at hrest
        obtain ⟨rfl, heq⟩ := Task.ends_done hrest
        cases heq
        exact .inl ⟨(s, s), by simp, hcurrent⟩
    | none =>
        rw [hcurrent] at hrest
        exact .inr ⟨l₂, by simp, hrest⟩
  · cases heq

/-- The handle that a caller gets is current after one of its steps. -/
theorem ends_getOrConnect {h : Handle} (hends : Task.Ends getOrConnect.run l (.ok h)) :
    ∃ c ∈ l, c.2.connections.current = some h := by
  rcases ends_orElse hends with hfound | ⟨l₁, hl₁, hlocked⟩
  · exact hfound
  · obtain ⟨l₂, hl₂, hinner⟩ := ends_holding hlocked
    rcases ends_orElse hinner with ⟨c, hc, hcurrent⟩ | ⟨l₃, hl₃, hrenew⟩
    · exact ⟨c, hl₁ (hl₂ hc), hcurrent⟩
    · obtain ⟨c, hc, hcurrent, -⟩ := ends_renew hrenew
      exact ⟨c, hl₁ (hl₂ (hl₃ hc)), hcurrent⟩

theorem dropIfSeen_some {seen h : Handle} {s : Link} (hdrop : (dropIfSeen seen s).1 = some h) :
    s.connections.current = some h ∧ h.serial ≠ seen.serial ∧ (dropIfSeen seen s).2 = s := by
  unfold dropIfSeen at hdrop ⊢
  split at hdrop
  · rename_i h' hcurrent
    split at hdrop
    · cases hdrop
    · rename_i hne
      cases hdrop
      exact ⟨hcurrent, hne, if_neg hne ▸ rfl⟩
  · cases hdrop

theorem dropIfSeen_none {seen : Handle} {s : Link} (hdrop : (dropIfSeen seen s).1 = none) :
    (dropIfSeen seen s).2.connections.current = none := by
  unfold dropIfSeen at hdrop ⊢
  split at hdrop
  · split at hdrop
    · rename_i heq
      rw [if_pos heq]
    · cases hdrop
  · assumption

/-- Whoever replaces a handle leaves another one or none behind at one of its steps, and gets one
that is not the handle seen or was not there before. -/
theorem ends_reconnect {seen : Handle} {r : Except QuotaError Handle}
    (hends : Task.Ends (reconnect seen).run l r) :
    (∃ c ∈ l, ∀ h, c.2.connections.current = some h → h.serial ≠ seen.serial) ∧
      ∀ h, r = .ok h → ∃ c ∈ l, c.2.connections.current = some h ∧
        (h.serial ≠ seen.serial ∨ h.serial = c.1.backend.handles) := by
  obtain ⟨l', hl', hinner⟩ := ends_holding hends
  rcases Action.ends_bind hinner with ⟨o, l₁, l₂, rfl, hdrop, hrest⟩ | ⟨e, -, hdrop⟩
  · obtain ⟨o', heq, hatOnce⟩ := Action.ends_ofTask hdrop
    cases heq
    obtain ⟨s, l₀, rfl, -, hdone⟩ := Task.ends_step hatOnce
    obtain ⟨rfl, rfl⟩ := Task.ends_done hdone
    have hmem : (s, (dropIfSeen seen s).2) ∈ l := hl' (by simp)
    cases hdropped : (dropIfSeen seen s).1 with
    | some h' =>
        rw [hdropped] at hrest
        obtain ⟨rfl, rfl⟩ := Task.ends_done hrest
        obtain ⟨hcurrent, hne, hsame⟩ := dropIfSeen_some hdropped
        rw [← hsame] at hcurrent
        refine ⟨⟨_, hmem, fun h hh => ?_⟩, fun h heq => ⟨_, hmem, ?_⟩⟩
        · rw [hcurrent] at hh
          cases hh
          exact hne
        · cases heq
          exact ⟨hcurrent, .inl hne⟩
    | none =>
        rw [hdropped] at hrest
        refine ⟨⟨_, hmem, fun h hh => ?_⟩, fun h heq => ?_⟩
        · rw [dropIfSeen_none hdropped] at hh
          cases hh
        · rw [heq] at hrest
          obtain ⟨c, hc, hcurrent, hserial⟩ := ends_renew hrest
          exact ⟨c, hl' (List.mem_append_right _ hc), hcurrent, .inr hserial⟩
  · obtain ⟨o, heq, -⟩ := Action.ends_ofTask hdrop
    cases heq

end Link

end TokenQuota
