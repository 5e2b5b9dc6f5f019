import TokenQuota.Proofs.Store.Handles

/-!
The connection of a live handle was opened in full, a connection that was dropped never comes back,
and callers that replace one handle together open one connection.
-/

namespace TokenQuota

theorem getElem?_append_singleton_eq_some {α : Type} {l : List α} {n : Nat} {x y : α}
    (h : (l ++ [x])[n]? = some y) : l[n]? = some y ∨ y = x := by
  rw [List.getElem?_append] at h
  split at h
  · exact .inl h
  · rw [List.getElem?_singleton] at h
    split at h
    · exact .inr (Option.some.inj h).symm
    · cases h

namespace Link

/-- The handle is live before or after the step. -/
def Shows (e : Event Link) (h : Handle) : Prop :=
  e.before.connections.current = some h ∨ e.after.connections.current = some h

def Opens (e : Event Link) (h : Handle) : Prop :=
  e.before.connections.current = none ∧ e.after.connections.current = some h

def Drops (e : Event Link) (h : Handle) : Prop :=
  e.before.connections.current = some h ∧ e.after.connections.current = none

def Publishes (e : Event Link) (h : Handle) : Prop :=
  e.before.connections.current ≠ some h ∧ e.after.connections.current = some h

/-- What holds of the connection, the callers with their roles, and the steps so far. -/
structure Owned (named : Handle → Prop) (l : Link) (roles : List (Request × Role))
    (es : List (Event Link)) : Prop where
  kept : (ownership named).Kept l (Duties.dutiesOf roles) es
  turns : ∀ e ∈ es, ∃ i m, roles[e.caller]? = some (i, m) ∧ Turn i e.before e.after
  recorded : ∀ (n : Nat) i m, roles[n]? = some (i, m) → m.2 <:+ Pool.changesOf n es
  /-- Whoever has recorded something holds the lock, and there is no live handle since. -/
  bare : ∀ (n : Nat) i m, roles[n]? = some (i, m) → m.2 ≠ [] →
    m.1 = some () ∧ l.connections.current = none
  older : ∀ (n : Nat) i m, roles[n]? = some (i, m) → ∀ c ∈ m.2, ∀ e ∈ es, ∀ h, Shows e h →
    h.connection ≤ c.1.backend.store.connects
  past : ∀ e ∈ es, ∀ h, Shows e h → h.connection ≤ l.backend.store.connects
  newer : es.Pairwise fun e e' => ∀ h h', Shows e h → Opens e' h' → h.connection < h'.connection
  opened : ∀ e ∈ es, ∀ h, Opens e h →
    ∃ cs script, cs <:+: Pool.changesOf e.caller es ∧ IsOpening cs h.connection script

variable {named : Handle → Prop} {l l' : Link} {roles : List (Request × Role)}
variable {es : List (Event Link)} {n : Nat} {i : Request} {m m' : Role}

theorem owned_start (hl : l.Numbered) : Owned named l [] [] := by
  constructor
  · exact ⟨hl, by simp [Duties.dutiesOf], by simp [Duties.dutiesOf], by simp⟩
  all_goals simp

theorem Owned.join (h : Owned named l roles es) (i : Request) :
    Owned named l (roles ++ [(i, none, [])]) es := by
  have hold {n : Nat} {j : Request} {m : Role} (hn : (roles ++ [(i, none, [])])[n]? = some (j, m)) :
      roles[n]? = some (j, m) ∨ m.2 = [] := by
    rcases getElem?_append_singleton_eq_some hn with hn | heq
    · exact .inl hn
    · cases heq
      exact .inr rfl
  constructor
  · have hkept := h.kept.join i
    rwa [Duties.dutiesOf, List.map_append]
  · intro e he
    obtain ⟨j, m, hrole, hturn⟩ := h.turns e he
    refine ⟨j, m, ?_, hturn⟩
    rw [List.getElem?_append_left (List.getElem?_eq_some_iff.mp hrole).1, hrole]
  · intro n j m hn
    rcases hold hn with hn | hnil
    · exact h.recorded n j m hn
    · rw [hnil]
      exact List.nil_suffix
  · intro n j m hn hne
    rcases hold hn with hn | hnil
    · exact h.bare n j m hn hne
    · exact absurd hnil hne
  · intro n j m hn c hc
    rcases hold hn with hn | hnil
    · exact h.older n j m hn c hc
    · rw [hnil] at hc
      cases hc
  · exact h.past
  · exact h.newer
  · exact h.opened

/-- Nobody touches the owner of the connection while another caller has recorded something. -/
theorem Owned.untouched (h : Owned named l roles es) (hn : roles[n]? = some (i, m))
    (hstep : Step named i m m' l l') {k : Nat} {j : Request} {r : Role} (hne : k ≠ n)
    (hk : roles[k]? = some (j, r)) (hr : r.2 ≠ []) : l'.connections = l.connections :=
  Duties.rely_others h.kept (Duties.getElem?_dutiesOf hn) hstep.duty k j r.1 hne
    (Duties.getElem?_dutiesOf hk) () (h.bare k j r hk hr).1

theorem not_shows (hl : l.connections.current = none) (hl' : l'.connections.current = none)
    (h : Handle) : ¬Shows ⟨n, l, l'⟩ h := by
  rintro (hshows | hshows)
  · cases hl.symm.trans hshows
  · cases hl'.symm.trans hshows

theorem Owned.turns_step (h : Owned named l roles es) (hn : roles[n]? = some (i, m))
    (hstep : Step named i m m' l l') {e : Event Link} (he : e ∈ es ++ [⟨n, l, l'⟩]) :
    ∃ j r, (roles.set n (i, m'))[e.caller]? = some (j, r) ∧ Turn j e.before e.after := by
  rcases List.mem_append.mp he with he | he
  · obtain ⟨j, r, hrole, hturn⟩ := h.turns e he
    by_cases heq : e.caller = n
    · rw [heq, hn] at hrole
      cases hrole
      exact ⟨i, m', (getElem?_set_eq_some hn).mpr (.inl ⟨heq, rfl⟩), hturn⟩
    · exact ⟨j, r, (getElem?_set_eq_some hn).mpr (.inr ⟨heq, hrole⟩), hturn⟩
  · rw [List.mem_singleton.mp he]
    exact ⟨i, m', (getElem?_set_eq_some hn).mpr (.inl ⟨rfl, rfl⟩), hstep.turn⟩

theorem Owned.recorded_step (h : Owned named l roles es) (hn : roles[n]? = some (i, m))
    (hstep : Step named i m m' l l') {k : Nat} {j : Request} {r : Role}
    (hk : (roles.set n (i, m'))[k]? = some (j, r)) :
    r.2 <:+ Pool.changesOf k (es ++ [⟨n, l, l'⟩]) := by
  rcases (getElem?_set_eq_some hn).mp hk with ⟨rfl, heq⟩ | ⟨hne, hk⟩
  · cases heq
    rw [Pool.changesOf_append_self]
    rcases hstep.record with hnil | ⟨heq, -⟩
    · rw [hnil]
      exact List.nil_suffix
    · obtain ⟨earlier, hearlier⟩ := h.recorded k i m hn
      exact ⟨earlier, by rw [heq, ← hearlier, List.append_assoc]⟩
  · rw [Pool.changesOf_append_of_ne (Ne.symm hne)]
    exact h.recorded k j r hk

theorem Owned.bare_step (h : Owned named l roles es) (hn : roles[n]? = some (i, m))
    (hstep : Step named i m m' l l') {k : Nat} {j : Request} {r : Role}
    (hk : (roles.set n (i, m'))[k]? = some (j, r)) (hr : r.2 ≠ []) :
    r.1 = some () ∧ l'.connections.current = none := by
  rcases (getElem?_set_eq_some hn).mp hk with ⟨-, heq⟩ | ⟨hne, hk⟩
  · cases heq
    rcases hstep.record with hnil | ⟨-, hholds, -, hnone⟩
    · exact absurd hnil hr
    · exact ⟨hholds, hnone⟩
  · obtain ⟨hholds, hnone⟩ := h.bare k j r hk hr
    rw [h.untouched hn hstep hne hk hr]
    exact ⟨hholds, hnone⟩

theorem Owned.older_step (h : Owned named l roles es) (hn : roles[n]? = some (i, m))
    (hstep : Step named i m m' l l') {k : Nat} {j : Request} {r : Role}
    (hk : (roles.set n (i, m'))[k]? = some (j, r)) {c : Link × Link} (hc : c ∈ r.2)
    {e : Event Link} (he : e ∈ es ++ [⟨n, l, l'⟩]) {g : Handle} (hg : Shows e g) :
    g.connection ≤ c.1.backend.store.connects := by
  rcases (getElem?_set_eq_some hn).mp hk with ⟨-, heq⟩ | ⟨hne, hk⟩
  · cases heq
    rcases hstep.record with hnil | ⟨heq, -, hnone, hnone'⟩
    · rw [hnil] at hc
      cases hc
    · rcases List.mem_append.mp he with he | he
      · rw [heq] at hc
        rcases List.mem_append.mp hc with hc | hc
        · exact h.older n i m hn c hc e he g hg
        · rw [List.mem_singleton.mp hc]
          exact h.past e he g hg
      · rw [List.mem_singleton.mp he] at hg
        exact absurd hg (not_shows hnone hnone' g)
  · have hr : r.2 ≠ [] := List.ne_nil_of_mem hc
    rcases List.mem_append.mp he with he | he
    · exact h.older k j r hk c hc e he g hg
    · have hnone := (h.bare k j r hk hr).2
      rw [List.mem_singleton.mp he] at hg
      refine absurd hg (not_shows hnone ?_ g)
      rw [h.untouched hn hstep hne hk hr, hnone]

theorem Owned.past_step (h : Owned named l roles es) (hstep : Step named i m m' l l')
    {e : Event Link} (he : e ∈ es ++ [⟨n, l, l'⟩]) {g : Handle} (hg : Shows e g) :
    g.connection ≤ l'.backend.store.connects := by
  have hgrows := hstep.duty.guar.grows.1
  rcases List.mem_append.mp he with he | he
  · exact Nat.le_trans (h.past e he g hg) hgrows
  · rw [List.mem_singleton.mp he] at hg
    rcases hg with hg | hg
    · exact Nat.le_trans (h.kept.inv g hg).1 hgrows
    · exact (hstep.duty.inv g hg).1

theorem Owned.newer_step (h : Owned named l roles es) (hn : roles[n]? = some (i, m))
    (hstep : Step named i m m' l l') : List.Pairwise
      (fun e e' => ∀ g g', Shows e g → Opens e' g' → g.connection < g'.connection)
      (es ++ [⟨n, l, l'⟩]) := by
  rw [List.pairwise_append]
  refine ⟨h.newer, List.pairwise_singleton _ _, ?_⟩
  intro e he e' he' g g' hg hg'
  -- What is published now was let in after all that had been live before.
  rw [List.mem_singleton.mp he'] at hg'
  obtain ⟨script, hopening⟩ := hstep.opening g' hg'.1 hg'.2
  obtain ⟨c, hc, hconnection, -⟩ := hopening.connects
  rw [hconnection]
  exact Nat.lt_succ_of_le (h.older n i m hn c hc e he g hg)

theorem Owned.opened_step (h : Owned named l roles es) (hn : roles[n]? = some (i, m))
    (hstep : Step named i m m' l l') {e : Event Link} (he : e ∈ es ++ [⟨n, l, l'⟩]) {g : Handle}
    (hg : Opens e g) : ∃ cs script, cs <:+: Pool.changesOf e.caller (es ++ [⟨n, l, l'⟩]) ∧
      IsOpening cs g.connection script := by
  have hinitial (k : Nat) : Pool.changesOf k es <+: Pool.changesOf k (es ++ [⟨n, l, l'⟩]) := by
    simp [Pool.changesOf]
  rcases List.mem_append.mp he with he | he
  · obtain ⟨cs, script, hcs, hopening⟩ := h.opened e he g hg
    exact ⟨cs, script, hcs.trans (hinitial e.caller).isInfix, hopening⟩
  · rw [List.mem_singleton.mp he] at hg ⊢
    obtain ⟨script, hopening⟩ := hstep.opening g hg.1 hg.2
    exact ⟨m.2, script, (h.recorded n i m hn).isInfix.trans (hinitial n).isInfix, hopening⟩

theorem Owned.step (h : Owned named l roles es) (hn : roles[n]? = some (i, m))
    (hstep : Step named i m m' l l') :
    Owned named l' (roles.set n (i, m')) (es ++ [⟨n, l, l'⟩]) := by
  constructor
  · have hkept := h.kept.step (Duties.getElem?_dutiesOf hn) hstep.duty
    rwa [Duties.dutiesOf, List.map_set]
  · intro e he
    exact h.turns_step hn hstep he
  · intro k j r hk
    exact h.recorded_step hn hstep hk
  · intro k j r hk hr
    exact h.bare_step hn hstep hk hr
  · intro k j r hk c hc e he g hg
    exact h.older_step hn hstep hk hc he hg
  · intro e he g hg
    exact h.past_step hstep he hg
  · exact h.newer_step hn hstep
  · intro e he g hg
    exact h.opened_step hn hstep he hg

theorem owned_keeps : (protocol named).Keeps (none, []) Aside (Owned named) where
  inv h := h.kept.inv
  join h i := h.join i
  step h _ hn hstep := h.step hn hstep
  rely_step h hn hstep k j r hne hk :=
    ⟨hstep.duty.guar, Duties.rely_others h.kept (Duties.getElem?_dutiesOf hn) hstep.duty k j r.1
      hne (Duties.getElem?_dutiesOf hk)⟩
  change h hs := by
    have hduties : ((ownership named).protocol Request).Keeps none Aside (ownership named).Kept :=
      Duties.keeps fun l l' hinv hs => ⟨hs.numbered hinv, fun _ _ => hs.connections⟩
    refine ⟨hduties.change h.kept hs, h.turns, h.recorded, ?_, h.older, ?_, h.newer, h.opened⟩
    · intro n i m hn hm
      rw [hs.connections]
      exact h.bare n i m hn hm
    · intro e he g hg
      exact Nat.le_trans (h.past e he g hg) hs.grows.1
  rely_change h hs k j r hk := ⟨hs.later, fun _ _ => hs.connections⟩

section Runs

variable {s₀ : Link} {p : Pool Request Link (Except QuotaError (Option Handle))}

/-- The handles that callers name themselves in a run. -/
def NamedIn (p : Pool Request Link (Except QuotaError (Option Handle))) (seen : Handle) : Prop :=
  ∃ script, .replaceScript seen script ∈ p.callers.map Caller.request

/-- Handles that callers name are told apart from the live ones by their numbers. -/
def ToldApart (es : List (Event Link)) (p : Pool Request Link (Except QuotaError (Option Handle))) :
    Prop :=
  ∀ e ∈ es, ∀ seen, NamedIn p seen → ∀ h, e.before.connections.current = some h →
    h.serial = seen.serial → h = seen

theorem owned_of_run (hstart : s₀.Numbered) (hrun : Pool.Run serve Aside s₀ es p)
    (hnamed : ToldApart es p) : ∃ roles, Owned (NamedIn p) p.state roles es ∧
      Pool.Guarded (protocol (NamedIn p)) (fun _ _ _ _ => True) roles p := by
  refine hrun.guarded_among (A := fun i => ∀ seen script, i = .replaceScript seen script →
    NamedIn p seen) owned_keeps (fun i l hi => safe_serve hi) (owned_start hstart) ?_ hnamed
  rintro i hi seen script rfl
  exact ⟨script, hi⟩

/-- What each step of a run does to the live handle, and what is known of the numbers. -/
theorem turns_of_run (hstart : s₀.Numbered) (hrun : Pool.Run serve Aside s₀ es p)
    (hnamed : ToldApart es p) : ∀ e ∈ es, ∃ c ∈ p.callers, Turn c.request e.before e.after := by
  obtain ⟨roles, howned, hguarded⟩ := owned_of_run hstart hrun hnamed
  intro e he
  obtain ⟨i, m, hrole, hturn⟩ := howned.turns e he
  have hlt : e.caller < p.callers.length := by
    rw [hguarded.length_eq]
    exact (List.getElem?_eq_some_iff.mp hrole).1
  obtain ⟨m', hrole', -⟩ := hguarded.safe e.caller _ (List.getElem?_eq_getElem hlt)
  rw [hrole] at hrole'
  obtain ⟨hrequest, -⟩ := Prod.mk.inj (Option.some.inj hrole')
  rw [hrequest] at hturn
  exact ⟨_, List.getElem_mem hlt, hturn⟩

/-- The connection was live at first, or was opened by steps of one caller one after the other. -/
def Stems (s₀ : Link) (es : List (Event Link)) (n : Nat) : Prop :=
  (∃ h, s₀.connections.current = some h ∧ h.connection = n) ∨
    ∃ k cs script, cs <:+: Pool.changesOf k es ∧ IsOpening cs n script

theorem stems_of_run (hstart : s₀.Numbered) (hrun : Pool.Run serve Aside s₀ es p)
    (hnamed : ToldApart es p) :
    (∀ e ∈ es, ∀ h, Shows e h → Stems s₀ es h.connection) ∧
      ∀ h, p.state.connections.current = some h → Stems s₀ es h.connection := by
  obtain ⟨roles, howned, -⟩ := owned_of_run hstart hrun hnamed
  have hevents : ∀ e ∈ es, (∀ h, e.before.connections.current = some h →
      Stems s₀ es h.connection) → ∀ h, e.after.connections.current = some h →
        Stems s₀ es h.connection := by
    intro e he hbefore h hh
    obtain ⟨i, m, -, hturn⟩ := howned.turns e he
    rcases hturn.live_after hh with hlive | ⟨-, hconnection⟩
    · exact hbefore h hlive
    · cases hcurrent : e.before.connections.current with
      | some h' =>
          rw [hconnection h' hcurrent]
          exact hbefore h' hcurrent
      | none =>
          obtain ⟨cs, script, hcs, hopening⟩ := howned.opened e he h ⟨hcurrent, hh⟩
          exact .inr ⟨e.caller, cs, script, hcs, hopening⟩
  have houtside : ∀ l l' : Link, l.Aside l' →
      (∀ h, l.connections.current = some h → Stems s₀ es h.connection) →
      ∀ h, l'.connections.current = some h → Stems s₀ es h.connection := by
    intro l l' haside hl h hh
    exact hl h (by rw [← haside.connections, hh])
  obtain ⟨hbefore, hlast⟩ := hrun.kept_of_start
    (K := fun l => ∀ h, l.connections.current = some h → Stems s₀ es h.connection)
    (fun h hh => .inl ⟨h, hh, rfl⟩) hevents houtside
  refine ⟨?_, hlast⟩
  rintro e he h (hh | hh)
  · exact hbefore e he h hh
  · exact hevents e he (hbefore e he) h hh

/-- A connection that was dropped never comes back. -/
theorem gone_of_run (hstart : s₀.Numbered) (hrun : Pool.Run serve Aside s₀ es p)
    (hnamed : ToldApart es p) :
    es.Pairwise (fun e e' => ∀ h h', Drops e h → Shows e' h' → h'.connection ≠ h.connection) ∧
      ∀ e ∈ es, ∀ h h', Drops e h → p.state.connections.current = some h' →
        h'.connection ≠ h.connection := by
  obtain ⟨roles, howned, -⟩ := owned_of_run hstart hrun hnamed
  have hkept : es.Pairwise fun e e' => True →
      (∀ h h', Drops e h → e'.before.connections.current = some h' →
        h'.connection ≠ h.connection) →
      ∀ h h', Drops e h → e'.after.connections.current = some h' →
        h'.connection ≠ h.connection := by
    refine howned.newer.imp_of_mem fun {e e'} _ he' hnewer _ hbefore h h' hdrops hh' => ?_
    obtain ⟨i, m, -, hturn⟩ := howned.turns e' he'
    rcases hturn.live_after hh' with hlive | ⟨-, hconnection⟩
    · exact hbefore h h' hdrops hlive
    · cases hcurrent : e'.before.connections.current with
      | some g =>
          rw [hconnection g hcurrent]
          exact hbefore h g hdrops hcurrent
      | none => exact (Nat.ne_of_lt (hnewer h h' (.inl hdrops.1) ⟨hcurrent, hh'⟩)).symm
  obtain ⟨hpairwise, hlast⟩ := hrun.pairwise_of_reached (A := fun _ => True)
    (K := fun e l => ∀ h h', Drops e h → l.connections.current = some h' →
      h'.connection ≠ h.connection)
    (fun e _ _ h h' hdrops hh' => by cases hdrops.2.symm.trans hh') hkept
    fun e l l' haside hl h h' hdrops hh' => hl h h' hdrops (by rw [← haside.connections, hh'])
  refine ⟨(hpairwise.and hkept).imp fun {e e'} hboth h h' hdrops hshows => ?_, fun e he =>
    hlast e he trivial⟩
  rcases hshows with hh' | hh'
  · exact hboth.1 trivial h h' hdrops hh'
  · exact hboth.2 trivial (hboth.1 trivial) h h' hdrops hh'

/-- Callers replaced a handle together: they published one new handle at most, which every caller
that could replace the old one got, and which is live in the end. If there is none, nobody could
open a connection. -/
structure Replaced (h : Handle) (es : List (Event Link))
    (p : Pool Request Link (Except QuotaError (Option Handle))) : Prop where
  once : es.Pairwise fun e e' => ∀ f f', Publishes e f → ¬Publishes e' f'
  same : ∀ c ∈ p.callers, c.request = .reconnect h → ∀ r, c.rest = .done (.ok r) →
    ∃ f, r = some f ∧ p.state.connections.current = some f ∧ ∃ e ∈ es, Publishes e f
  last : ∀ c ∈ p.callers, c.request = .reconnect h → ∀ r, c.rest = .done r →
    (∃ f, p.state.connections.current = some f ∧ ∃ e ∈ es, Publishes e f) ∨
      p.state.connections.current = none ∧ (∀ e ∈ es, ∀ f, ¬Publishes e f) ∧
        ∀ c' ∈ p.callers, ∀ r', c'.rest = .done (.ok r') →
          c'.request = .getOrConnect ∧ r' = some h

/-- A run in which one live handle is replaced, and connections are asked for alongside. -/
structure Replacing (s₀ : Link) (h : Handle) (es : List (Event Link))
    (p : Pool Request Link (Except QuotaError (Option Handle))) : Prop where
  run : Pool.Run serve Aside s₀ es p
  numbered : s₀.Numbered
  live : s₀.connections.current = some h
  only : ∀ c ∈ p.callers, c.request = .reconnect h ∨ c.request = .getOrConnect

variable {h : Handle}

theorem ends_some {x : Client Handle} {cs : List (Link × Link)}
    {r : Except QuotaError (Option Handle)}
    (hends : Task.Ends (do return some (← x) : Client _).run cs r) :
    ∃ r', Task.Ends x.run cs r' ∧ r = r'.map some := by
  rcases Action.ends_bind hends with ⟨f, l₁, l₂, rfl, hx, hdone⟩ | ⟨e, rfl, hx⟩
  · obtain ⟨rfl, rfl⟩ := Task.ends_done hdone
    rw [List.append_nil]
    exact ⟨.ok f, hx, rfl⟩
  · exact ⟨.error e, hx, rfl⟩

namespace Replacing

theorem toldApart (hr : Replacing s₀ h es p) : ToldApart es p := by
  rintro e - seen ⟨script, hmem⟩
  obtain ⟨c, hc, heq⟩ := List.mem_map.mp hmem
  rcases hr.only c hc with hrequest | hrequest
  · cases hrequest.symm.trans heq
  · cases hrequest.symm.trans heq

theorem mayDrop (hr : Replacing s₀ h es p) {c : Caller Request Link _} (hc : c ∈ p.callers)
    {g : Handle} (hmay : c.request.MayDrop g) : g.serial = h.serial := by
  rcases hr.only c hc with hrequest | hrequest
  · rw [hrequest] at hmay
    exact hmay
  · rw [hrequest] at hmay
    exact absurd hmay id

theorem serial_lt (hr : Replacing s₀ h es p) : ∀ e ∈ es, h.serial < e.before.backend.handles := by
  obtain ⟨roles, howned, -⟩ := owned_of_run hr.numbered hr.run hr.toldApart
  refine (hr.run.kept_of_start (K := fun l => h.serial < l.backend.handles) ?_ ?_ ?_).1
  · exact (hr.numbered h hr.live).2
  · exact fun e he hlt => Nat.lt_of_lt_of_le hlt (howned.kept.events e he).2.grows.2
  · exact fun l l' haside hlt => Nat.lt_of_lt_of_le hlt haside.grows.2

/-- A handle that is published is another one than the one that is replaced. -/
theorem serial_ne (hr : Replacing s₀ h es p) {e : Event Link} (he : e ∈ es) {f : Handle}
    (hpublishes : Publishes e f) : f.serial ≠ h.serial := by
  obtain ⟨c, -, hturn⟩ := turns_of_run hr.numbered hr.run hr.toldApart e he
  rcases hturn.live_after hpublishes.2 with hlive | ⟨hserial, -⟩
  · exact absurd hlive hpublishes.1
  · rw [hserial]
    exact (Nat.ne_of_lt (hr.serial_lt e he)).symm

theorem kept (hr : Replacing s₀ h es p) {e : Event Link} (he : e ∈ es) {f : Handle}
    (hne : f.serial ≠ h.serial) (hlive : e.before.connections.current = some f) :
    e.after.connections.current = some f := by
  obtain ⟨c, hc, hturn⟩ := turns_of_run hr.numbered hr.run hr.toldApart e he
  rcases hturn.live_before hlive with hlive' | hmay
  · exact hlive'
  · exact absurd (hr.mayDrop hc hmay) hne

/-- Any other handle than the one that is replaced stays once it is live. -/
theorem stays (hr : Replacing s₀ h es p) :
    es.Pairwise (fun e e' => ∀ f, f.serial ≠ h.serial → e.after.connections.current = some f →
      e'.before.connections.current = some f) ∧
    ∀ e ∈ es, ∀ f, f.serial ≠ h.serial → e.after.connections.current = some f →
      p.state.connections.current = some f := by
  have hlater : es.Pairwise fun e e' => True →
      (∀ f, f.serial ≠ h.serial → e.after.connections.current = some f →
        e'.before.connections.current = some f) →
      ∀ f, f.serial ≠ h.serial → e.after.connections.current = some f →
        e'.after.connections.current = some f :=
    List.pairwise_of_forall_mem_list fun e _ e' he' _ hbefore f hne hf =>
      hr.kept he' hne (hbefore f hne hf)
  obtain ⟨hpairwise, hlast⟩ := hr.run.pairwise_of_reached (A := fun _ => True)
    (K := fun e l => ∀ f, f.serial ≠ h.serial → e.after.connections.current = some f →
      l.connections.current = some f) (fun _ _ _ _ _ => id) hlater
    fun e l l' haside hl f hne hf => by rw [haside.connections, hl f hne hf]
  exact ⟨hpairwise.imp fun hK => hK trivial, fun e he => hlast e he trivial⟩

/-- Every live handle is the one that is replaced, or was published. -/
theorem published (hr : Replacing s₀ h es p) :
    (∀ e ∈ es, ∀ g, e.after.connections.current = some g → g = h ∨ ∃ e' ∈ es, Publishes e' g) ∧
      ∀ g, p.state.connections.current = some g → g = h ∨ ∃ e' ∈ es, Publishes e' g := by
  have hevents : ∀ e ∈ es,
      (∀ g, e.before.connections.current = some g → g = h ∨ ∃ e' ∈ es, Publishes e' g) →
      ∀ g, e.after.connections.current = some g → g = h ∨ ∃ e' ∈ es, Publishes e' g := by
    intro e he hbefore g hg
    by_cases hlive : e.before.connections.current = some g
    · exact hbefore g hlive
    · exact .inr ⟨e, he, hlive, hg⟩
  obtain ⟨hbefore, hlast⟩ := hr.run.kept_of_start
    (K := fun l => ∀ g, l.connections.current = some g → g = h ∨ ∃ e' ∈ es, Publishes e' g)
    (fun g hg => .inl (Option.some.inj (hg.symm.trans hr.live))) hevents
    fun l l' haside hl g hg => hl g (by rw [← haside.connections, hg])
  exact ⟨fun e he => hevents e he (hbefore e he), hlast⟩

theorem publishes_once (hr : Replacing s₀ h es p) :
    es.Pairwise fun e e' => ∀ f f', Publishes e f → ¬Publishes e' f' := by
  refine hr.stays.1.imp_of_mem fun {e e'} he he' hstays f f' hf hf' => ?_
  have hne := hr.serial_ne he hf
  have hlive : e'.before.connections.current = some f := hstays f hne hf.2
  obtain rfl := Option.some.inj ((hr.kept he' hne hlive).symm.trans hf'.2)
  exact hf'.1 hlive

/-- Whoever got another handle than the one that is replaced got the one that is live now. -/
theorem live_of_found (hr : Replacing s₀ h es p) {k : Nat} {d : Link × Link}
    (hd : d ∈ Pool.changesOf k es) {f : Handle} (hf : d.2.connections.current = some f)
    (hne : f.serial ≠ h.serial) :
    p.state.connections.current = some f ∧ ∃ e ∈ es, Publishes e f := by
  obtain ⟨e, he, -, rfl⟩ := Pool.mem_of_mem_changesOf hd
  refine ⟨hr.stays.2 e he f hne hf, ?_⟩
  rcases hr.published.1 e he f hf with rfl | hpublished
  · exact absurd rfl hne
  · exact hpublished

theorem same (hr : Replacing s₀ h es p) {c : Caller Request Link _} (hc : c ∈ p.callers)
    (hrequest : c.request = .reconnect h) {r : Option Handle} (hdone : c.rest = .done (.ok r)) :
    ∃ f, r = some f ∧ p.state.connections.current = some f ∧ ∃ e ∈ es, Publishes e f := by
  obtain ⟨k, hk⟩ := List.mem_iff_getElem?.mp hc
  have hends := hr.run.steps hk
  rw [hrequest, hdone] at hends
  obtain ⟨r', hreconnect, heq⟩ := ends_some hends
  cases r' with
  | error e => cases heq
  | ok f =>
      cases heq
      obtain ⟨d, hd, hcurrent, hother⟩ := (ends_reconnect hreconnect).2 f rfl
      refine ⟨f, rfl, hr.live_of_found hd hcurrent ?_⟩
      rcases hother with hne | hserial
      · exact hne
      · obtain ⟨e, he, -, rfl⟩ := Pool.mem_of_mem_changesOf hd
        rw [hserial]
        exact (Nat.ne_of_lt (hr.serial_lt e he)).symm

/-- Once a caller is through with replacing the handle, the handle is gone for good. -/
theorem gone (hr : Replacing s₀ h es p) {c : Caller Request Link _} (hc : c ∈ p.callers)
    (hrequest : c.request = .reconnect h) {r : Except QuotaError (Option Handle)}
    (hdone : c.rest = .done r) :
    ∀ g, p.state.connections.current = some g → g.serial ≠ h.serial := by
  have hkept : ∀ e ∈ es, (∀ g, e.before.connections.current = some g → g.serial ≠ h.serial) →
      ∀ g, e.after.connections.current = some g → g.serial ≠ h.serial := by
    intro e he hbefore g hg
    by_cases hlive : e.before.connections.current = some g
    · exact hbefore g hlive
    · exact hr.serial_ne he ⟨hlive, hg⟩
  obtain ⟨k, hk⟩ := List.mem_iff_getElem?.mp hc
  have hends := hr.run.steps hk
  rw [hrequest, hdone] at hends
  obtain ⟨r', hreconnect, -⟩ := ends_some hends
  -- The caller's own step leaves no handle or another one, and no step brings the old one back.
  obtain ⟨d, hd, hother⟩ := (ends_reconnect hreconnect).1
  obtain ⟨e, he, -, rfl⟩ := Pool.mem_of_mem_changesOf hd
  refine (hr.run.pairwise_of_reached
    (A := fun e => ∀ g, e.after.connections.current = some g → g.serial ≠ h.serial)
    (K := fun _ l => ∀ g, l.connections.current = some g → g.serial ≠ h.serial)
    (fun _ _ => id) ?_ ?_).2 e he hother
  · exact List.pairwise_of_forall_mem_list fun _ _ e' he' _ => hkept e' he'
  · intro _ l l' haside hl g hg
    exact hl g (by rw [← haside.connections, hg])

theorem found (hr : Replacing s₀ h es p) {c : Caller Request Link _} (hc : c ∈ p.callers)
    (hrequest : c.request = .getOrConnect) {r : Option Handle} (hdone : c.rest = .done (.ok r)) :
    ∃ f, r = some f ∧
      (f = h ∨ p.state.connections.current = some f ∧ ∃ e ∈ es, Publishes e f) := by
  obtain ⟨k, hk⟩ := List.mem_iff_getElem?.mp hc
  have hends := hr.run.steps hk
  rw [hrequest, hdone] at hends
  obtain ⟨r', hget, heq⟩ := ends_some hends
  cases r' with
  | error e => cases heq
  | ok f =>
      cases heq
      obtain ⟨d, hd, hcurrent⟩ := ends_getOrConnect hget
      obtain ⟨e, he, -, rfl⟩ := Pool.mem_of_mem_changesOf hd
      refine ⟨f, rfl, ?_⟩
      rcases hr.published.1 e he f hcurrent with hsame | ⟨e', he', hpublishes⟩
      · exact .inl hsame
      · exact .inr (hr.live_of_found hd hcurrent (hr.serial_ne he' hpublishes))

theorem last (hr : Replacing s₀ h es p) {c : Caller Request Link _} (hc : c ∈ p.callers)
    (hrequest : c.request = .reconnect h) {r : Except QuotaError (Option Handle)}
    (hdone : c.rest = .done r) :
    (∃ f, p.state.connections.current = some f ∧ ∃ e ∈ es, Publishes e f) ∨
      p.state.connections.current = none ∧ (∀ e ∈ es, ∀ f, ¬Publishes e f) ∧
        ∀ c' ∈ p.callers, ∀ r', c'.rest = .done (.ok r') →
          c'.request = .getOrConnect ∧ r' = some h := by
  cases hcurrent : p.state.connections.current with
  | some f =>
      refine .inl ⟨f, rfl, ?_⟩
      rcases hr.published.2 f hcurrent with heq | hpublished
      · exact absurd (congrArg Handle.serial heq) (hr.gone hc hrequest hdone f hcurrent)
      · exact hpublished
  | none =>
      refine .inr ⟨rfl, ?_, ?_⟩
      · intro e he f hpublishes
        have hlive := hr.stays.2 e he f (hr.serial_ne he hpublishes) hpublishes.2
        cases hcurrent.symm.trans hlive
      · intro c' hc' r' hdone'
        rcases hr.only c' hc' with hreplaces | hasks
        · obtain ⟨f, -, hlive, -⟩ := hr.same hc' hreplaces hdone'
          cases hcurrent.symm.trans hlive
        · obtain ⟨f, rfl, heq | ⟨hlive, -⟩⟩ := hr.found hc' hasks hdone'
          · exact ⟨hasks, congrArg some heq⟩
          · cases hcurrent.symm.trans hlive

theorem replaced (hr : Replacing s₀ h es p) : Replaced h es p where
  once := hr.publishes_once
  same _ hc hrequest _ hdone := hr.same hc hrequest hdone
  last _ hc hrequest _ hdone := hr.last hc hrequest hdone

end Replacing

/-- From an owner on whatever link, any callers in any order of their steps: every live handle
stems from an opening in full or from the handle at first, no connection comes back that was
dropped, and callers that replace the handle at first together publish one handle. -/
theorem connection_ownership (hstart : s₀.Numbered) (hrun : Pool.Run serve Aside s₀ es p)
    (hnamed : ToldApart es p) :
    ((∀ e ∈ es, ∀ h, Shows e h → Stems s₀ es h.connection) ∧
      ∀ h, p.state.connections.current = some h → Stems s₀ es h.connection) ∧
    (es.Pairwise (fun e e' => ∀ h h', Drops e h → Shows e' h' → h'.connection ≠ h.connection) ∧
      ∀ e ∈ es, ∀ h h', Drops e h → p.state.connections.current = some h' →
        h'.connection ≠ h.connection) ∧
    ∀ h, s₀.connections.current = some h →
      (∀ c ∈ p.callers, c.request = .reconnect h ∨ c.request = .getOrConnect) →
        Replaced h es p := by
  refine ⟨stems_of_run hstart hrun hnamed, gone_of_run hstart hrun hnamed, ?_⟩
  intro h hlive honly
  have hreplacing : Replacing s₀ h es p := ⟨hrun, hstart, hlive, honly⟩
  exact hreplacing.replaced

/-- Two callers wait for the lock to replace one handle: the first opens a connection, and the
second gets the handle that the first published. -/
theorem connection_ownership_together :
    let h : Handle := ⟨0, 1, "take"⟩
    let s : Link := ⟨⟨some h, false⟩,
      ⟨5, ⟨∅, [], 1⟩, { Outages.none with reportedName := some "take" }, 1⟩⟩
    ∃ es l f, Pool.Run serve Aside s es
        ⟨l, [⟨.reconnect h, .done (.ok (some f))⟩, ⟨.reconnect h, .done (.ok (some f))⟩]⟩ ∧
      l.connections.current = some f ∧ f ≠ h ∧ Stems s es f.connection := by
  intro h s
  have hresults : ((serve (.reconnect h)).run (fun _ s => s) s).1.map Except.isOk = some true ∧
      ((serve (.reconnect h)).run (fun _ s => s)
        ((serve (.reconnect h)).run (fun _ s => s) s).2).1.map Except.isOk = some true ∧
      ((serve (.reconnect h)).run (fun _ s => s)
        ((serve (.reconnect h)).run (fun _ s => s) s).2).2.connections.current =
          some ⟨1, 2, "take"⟩ := by
    decide +kernel
  generalize hfirst : (serve (.reconnect h)).run (fun _ s => s) s = first at hresults
  generalize hsecond : (serve (.reconnect h)).run (fun _ s => s) first.2 = second at hresults
  obtain ⟨o₁, l₁⟩ := first
  obtain ⟨o₂, l₂⟩ := second
  obtain ⟨hok₁, hok₂, hcurrent⟩ := hresults
  obtain ⟨r₁, rfl, hok₁⟩ := Option.map_eq_some_iff.mp hok₁
  obtain ⟨r₂, rfl, hok₂⟩ := Option.map_eq_some_iff.mp hok₂
  have hwait : Pool.Run serve Aside s []
      ⟨s, [⟨.reconnect h, serve (.reconnect h)⟩, ⟨.reconnect h, serve (.reconnect h)⟩]⟩ :=
    (Pool.Run.start.join (Request.reconnect h)).join (Request.reconnect h)
  obtain ⟨es₁, hrun₁⟩ := hwait.finish_of_run (n := 0) rfl hfirst
  obtain ⟨es, hrun⟩ := hrun₁.finish_of_run (n := 1) rfl hsecond
  cases r₁ with
  | error e => cases hok₁
  | ok g =>
      cases r₂ with
      | error e => cases hok₂
      | ok g' =>
          have hstart : s.Numbered := by
            rintro g ⟨⟩
            decide
          have hnamed : ToldApart es ⟨l₂, [⟨.reconnect h, .done (.ok g)⟩,
              ⟨.reconnect h, .done (.ok g')⟩]⟩ := by
            rintro e - seen ⟨script, hmem⟩
            simp at hmem
          obtain ⟨⟨-, hstems⟩, -, hreplaced⟩ := connection_ownership hstart hrun hnamed
          obtain ⟨-, hsame, -⟩ := hreplaced h rfl (by simp)
          obtain ⟨f, rfl, hf, -⟩ := hsame _ (List.mem_cons_self) rfl g rfl
          obtain ⟨f', rfl, hf', -⟩ :=
            hsame _ (List.mem_cons_of_mem _ List.mem_cons_self) rfl g' rfl
          obtain rfl := Option.some.inj (hf.symm.trans hf')
          obtain rfl := Option.some.inj (hcurrent.symm.trans hf)
          exact ⟨es, l₂, _, hrun, hf, by decide, hstems _ hf⟩

end Runs

end Link

end TokenQuota
