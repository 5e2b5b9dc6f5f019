import TokenQuota.Proofs.Store.Opening
import TokenQuota.Proofs.Task.Duties

/-!
What callers ask of the owner of a connection, what their steps may do to the live handle, and
what they may rely on meanwhile. Only the holder of the lock does anything to the handle.
-/

namespace TokenQuota

namespace Link

/-- What callers ask of the owner of a connection. -/
inductive Request
  | getOrConnect
  | reconnect (seen : Handle)
  | ensureScript
  | replaceScript (seen : Handle) (script : String)
  | close

def perform : Request → Client (Option Handle)
  | .getOrConnect => do return some (← getOrConnect)
  | .reconnect seen => do return some (← reconnect seen)
  | .ensureScript => do return some (← ensureScript)
  | .replaceScript seen script => do return some (← replaceScript seen script)
  | .close => do close; return none

/-- What a caller does for a request, and the handle that it gets. -/
def serve (r : Request) : Task Link (Except QuotaError (Option Handle)) := (perform r).run

/-- The handles that a request may take away. -/
def Request.MayDrop : Request → Handle → Prop
  | .getOrConnect, _ => False
  | .reconnect seen, h => h.serial = seen.serial
  | .ensureScript, _ => True
  | .replaceScript seen _, h => h.serial = seen.serial
  | .close, _ => True

/-- The numbers of the live handle were given out before. -/
def Numbered (l : Link) : Prop :=
  ∀ h, l.connections.current = some h →
    h.connection ≤ l.backend.store.connects ∧ h.serial < l.backend.handles

/-- A handle that is live later is live already, or has a number that is not given out yet. -/
structure Later (l l' : Link) : Prop where
  grows : l.backend.Grows l'.backend
  fresh : ∀ h, l'.connections.current = some h →
    l.connections.current = some h ∨ l.backend.handles ≤ h.serial

/-- The handle was given out, and no other one with its number is live. -/
def Knows (l : Link) (h : Handle) : Prop :=
  h.serial < l.backend.handles ∧
    ∀ h', l.connections.current = some h' → h'.serial = h.serial → h' = h

/-- What one step for a request does to the live handle. -/
inductive Turn (i : Request) (l l' : Link) : Prop
  | kept (hsame : l'.connections.current = l.connections.current)
  | dropped {h : Handle} (hcurrent : l.connections.current = some h) (hmay : i.MayDrop h)
      (hnone : l'.connections.current = none)
  | opened {n : Nat} {script : String} (hnone : l.connections.current = none)
      (hcurrent : l'.connections.current = some ⟨l.backend.handles, n, script⟩)
  /-- The handle has another script now, on the same connection. -/
  | refreshed {h : Handle} {script : String} (hcurrent : l.connections.current = some h)
      (hmay : i.MayDrop h)
      (hfresh : l'.connections.current = some ⟨l.backend.handles, h.connection, script⟩)

variable {l l' l'' : Link} {h : Handle}

/-- A handle that is live after a step was live before, or is a new one, on the connection of the
one that was live. -/
theorem Turn.live_after {i : Request} (hturn : Turn i l l')
    (hlive : l'.connections.current = some h) : l.connections.current = some h ∨
      h.serial = l.backend.handles ∧
        ∀ h', l.connections.current = some h' → h.connection = h'.connection := by
  cases hturn with
  | kept hsame => exact .inl (hsame.symm.trans hlive)
  | dropped hcurrent hmay hnone => cases hnone.symm.trans hlive
  | opened hnone hcurrent =>
      cases hcurrent.symm.trans hlive
      refine .inr ⟨rfl, fun h' hh' => ?_⟩
      cases hnone.symm.trans hh'
  | refreshed hcurrent hmay hfresh =>
      cases hfresh.symm.trans hlive
      refine .inr ⟨rfl, fun h' hh' => ?_⟩
      obtain rfl := Option.some.inj (hcurrent.symm.trans hh')
      rfl

theorem Turn.live_before {i : Request} (hturn : Turn i l l')
    (hlive : l.connections.current = some h) : l'.connections.current = some h ∨ i.MayDrop h := by
  cases hturn with
  | kept hsame => exact .inl (hsame.trans hlive)
  | dropped hcurrent hmay hnone =>
      cases hcurrent.symm.trans hlive
      exact .inr hmay
  | opened hnone hcurrent => cases hnone.symm.trans hlive
  | refreshed hcurrent hmay hfresh =>
      cases hcurrent.symm.trans hlive
      exact .inr hmay

theorem Later.refl (l : Link) : l.Later l := ⟨.refl _, fun _ => .inl⟩

theorem Later.trans (h : l.Later l') (h' : l'.Later l'') : l.Later l'' := by
  constructor
  · exact h.grows.trans h'.grows
  · intro g hg
    rcases h'.fresh g hg with hlive | hnew
    · exact h.fresh g hlive
    · exact .inr (Nat.le_trans h.grows.2 hnew)

theorem Aside.refl (l : Link) : l.Aside l := ⟨rfl, .refl _⟩

theorem Aside.later (h : l.Aside l') : l.Later l' := by
  refine ⟨h.grows, fun g hg => .inl ?_⟩
  rwa [h.connections] at hg

theorem Aside.numbered (h : l.Aside l') (hl : l.Numbered) : l'.Numbered := by
  intro g hg
  rw [h.connections] at hg
  obtain ⟨hconnection, hserial⟩ := hl g hg
  exact ⟨Nat.le_trans hconnection h.grows.1, Nat.lt_of_lt_of_le hserial h.grows.2⟩

theorem Numbered.knows (hl : l.Numbered) (hcurrent : l.connections.current = some h) :
    l.Knows h := by
  refine ⟨(hl h hcurrent).2, fun h' hh' _ => ?_⟩
  rw [hcurrent] at hh'
  exact (Option.some.inj hh').symm

theorem Knows.later (hl : l.Knows h) (hlater : l.Later l') : l'.Knows h := by
  refine ⟨Nat.lt_of_lt_of_le hl.1 hlater.grows.2, fun h' hh' heq => ?_⟩
  rcases hlater.fresh h' hh' with hlive | hnew
  · exact hl.2 h' hlive heq
  · rw [heq] at hnew
    exact absurd hl.1 (Nat.not_lt.mpr hnew)

/-- The duty is to hold the lock: meanwhile nobody else touches the owner of the connection. Handles
that callers name themselves are told apart by their numbers. -/
def ownership (named : Handle → Prop) : Duties Unit Link where
  inv := Numbered
  given l := ∀ seen, named seen → ∀ h, l.connections.current = some h →
    h.serial = seen.serial → h = seen
  taken _ l := l.connections.locked = true
  rely _ l l' := l'.connections = l.connections
  guar := Later
  guar_refl := .refl
  rely_refl _ _ := rfl
  rely_trans h h' := h'.trans h
  rely_taken {_ l l'} h htaken := by rw [h, htaken]

/-- The duty of a caller, with its changes since it took the lock or last saw a live handle. -/
abbrev Role := Option Unit × List (Link × Link)

/-- A step opens a connection only after all that it takes, which is recorded in the role. -/
structure Step (named : Handle → Prop) (i : Request) (m m' : Role) (l l' : Link) : Prop where
  duty : (ownership named).Move m.1 m'.1 l l'
  turn : Turn i l l'
  opening : ∀ h, l.connections.current = none → l'.connections.current = some h →
    ∃ script, IsOpening m.2 h.connection script
  record : m'.2 = [] ∨ m'.2 = m.2 ++ [(l, l')] ∧ m'.1 = some () ∧
    l.connections.current = none ∧ l'.connections.current = none

def protocol (named : Handle → Prop) : Protocol Request Role Link where
  inv := Numbered
  given := (ownership named).given
  rely m l l' := l.Later l' ∧ ((ownership named).protocol Request).rely m.1 l l'
  move := Step named
  rely_refl m l := ⟨.refl l, ((ownership named).protocol Request).rely_refl m.1 l⟩
  rely_trans h h' :=
    ⟨h.1.trans h'.1, ((ownership named).protocol Request).rely_trans h.2 h'.2⟩

section Steps

variable {named : Handle → Prop} {i : Request} {cs cs' : List (Link × Link)} {α : Type}

theorem step_away (hl : l.Numbered) (haside : l.Aside l') :
    Step named i (none, []) (none, []) l l' := by
  constructor
  · constructor
    · exact haside.numbered hl
    · exact haside.later
    · exact fun _ _ _ => haside.connections
    · rintro _ ⟨⟩
    · rintro _ ⟨⟩
  · exact .kept (by rw [haside.connections])
  · intro g hnone hg
    rw [haside.connections, hnone] at hg
    cases hg
  · exact .inl rfl

theorem step_holding (hl' : l'.Numbered) (hlater : l.Later l')
    (hlocked : l'.connections.locked = true) (hturn : Turn i l l')
    (hopening : ∀ h, l.connections.current = none → l'.connections.current = some h →
      ∃ script, IsOpening cs h.connection script)
    (hrecord : cs' = [] ∨ cs' = cs ++ [(l, l')] ∧ l.connections.current = none ∧
      l'.connections.current = none) :
    Step named i (some (), cs) (some (), cs') l l' := by
  constructor
  · constructor
    · exact hl'
    · exact hlater
    · exact fun _ hne _ => absurd rfl hne
    · exact fun _ _ => hlocked
    · exact fun _ _ hne => absurd rfl hne
  · exact hturn
  · exact hopening
  · rcases hrecord with hnil | ⟨heq, hnone, hnone'⟩
    · exact .inl hnil
    · exact .inr ⟨heq, rfl, hnone, hnone'⟩

/-- A step of the holder that leaves the owner of the connection alone. -/
theorem step_holding_aside (hl : l.Numbered) (haside : l.Aside l')
    (hlocked : l.connections.locked = true)
    (hrecord : cs' = [] ∨ cs' = cs ++ [(l, l')] ∧ l.connections.current = none) :
    Step named i (some (), cs) (some (), cs') l l' := by
  refine step_holding (haside.numbered hl) haside.later ?_ (.kept ?_) ?_ ?_
  · rw [haside.connections, hlocked]
  · rw [haside.connections]
  · intro g hnone hg
    rw [haside.connections, hnone] at hg
    cases hg
  · rcases hrecord with hnil | ⟨heq, hnone⟩
    · exact .inl hnil
    · exact .inr ⟨heq, hnone, by rw [haside.connections, hnone]⟩

/-- The holder records what it does while there is no live handle. -/
theorem safe_recording {t : Task Link α} (ht : t.Changes Aside) {c : Connections}
    (hnone : c.current = none) (hlocked : c.locked = true) (hl : l.connections = c)
    (hcs : ∀ d ∈ cs, d.2.backend.Grows l.backend) :
    (protocol named).Safe i (fun m a l' => ∃ ds, m = (some (), cs ++ ds) ∧ Task.Ends t ds a ∧
      l'.connections = c ∧ ∀ d ∈ cs ++ ds, d.2.backend.Grows l'.backend) t (some (), cs) l := by
  induction t generalizing cs l with
  | done a =>
      intro l' _ hrely
      refine ⟨[], by simp, .refl _, (hrely.2 () rfl).trans hl, fun d hd => ?_⟩
      rw [List.append_nil] at hd
      exact (hcs d hd).trans hrely.1.grows
  | step ready change next ih =>
      intro l' hinv _ hrely hready
      obtain ⟨haside, hnext⟩ := ht l' hready
      have hl' : l'.connections = c := (hrely.2 () rfl).trans hl
      refine ⟨(some (), cs ++ [(l', change l')]), ?_, ?_⟩
      · refine step_holding_aside hinv haside ?_ (.inr ⟨rfl, ?_⟩)
        · rw [hl', hlocked]
        · rw [hl', hnone]
      · refine (ih l' hnext (haside.connections.trans hl') ?_).mono ?_
        · intro d hd
          rcases List.mem_append.mp hd with hd | hd
          · exact ((hcs d hd).trans hrely.1.grows).trans haside.grows
          · rw [List.mem_singleton.mp hd]
            exact .refl _
        · rintro m a l'' - ⟨ds, rfl, hends, hconnections, hgrows⟩
          rw [List.append_assoc] at hgrows ⊢
          exact ⟨(l', change l') :: ds, rfl, .step hready hends, hconnections, hgrows⟩
  | sleep millis next ih =>
      refine Protocol.Safe.mono (ih ht hl hcs) ?_
      rintro m a l' - ⟨ds, heq, hends, hrest⟩
      exact ⟨ds, heq, .sleep hends, hrest⟩

/-- A caller that is given a handle knows it. -/
def Gets (r : Except QuotaError Handle) (l : Link) : Prop := ∀ h, r = .ok h → l.Knows h

theorem Gets.later {r : Except QuotaError Handle} (hr : Gets r l) (hlater : l.Later l') :
    Gets r l' :=
  fun h heq => (hr h heq).later hlater

theorem gets_error (e : QuotaError) (l : Link) : Gets (.error e) l := by
  rintro h ⟨⟩

theorem numbered_publish (n : Nat) (script : String) (hn : n ≤ l.backend.store.connects) :
    (publish n script l).2.Numbered := by
  rintro h ⟨⟩
  exact ⟨hn, Nat.lt_succ_self _⟩

theorem later_publish (n : Nat) (script : String) : l.Later (publish n script l).2 := by
  refine ⟨⟨Nat.le_refl _, Nat.le_succ _⟩, ?_⟩
  rintro h ⟨⟩
  exact .inr (Nat.le_refl _)

/-- The holder of the lock does what leaves the lock with it. -/
def SafeHolding (named : Handle → Prop) (i : Request) (Q : Except QuotaError α → Link → Prop)
    (a : Client α) (l : Link) : Prop :=
  (protocol named).Safe i (fun m r l' => m.1 = some () ∧ l'.connections.locked = true ∧ Q r l')
    a.run (some (), []) l

theorem safe_renew (hnone : l.connections.current = none)
    (hlocked : l.connections.locked = true) : SafeHolding named i Gets renew l := by
  refine Protocol.Safe.bind (safe_recording aside_connect hnone hlocked rfl (by simp)) ?_ ?_
  · rintro _ ⟨n, script⟩ l₁ - ⟨ds, rfl, hends, hconnections, hgrows⟩ l₂ hinv hgiven hrely -
    have hl₂ : l₂.connections = l.connections := (hrely.2 () rfl).trans hconnections
    have hopening := isOpening_of_ends hends
    have hn : n ≤ l₂.backend.store.connects := by
      obtain ⟨d, hd, -, heq⟩ := hopening.connects
      rw [← heq]
      exact ((hgrows d hd).trans hrely.1.grows).1
    refine ⟨(some (), []), ?_, ?_⟩
    · refine step_holding (numbered_publish n script hn) (later_publish n script) ?_
        (.opened (by rw [hl₂, hnone]) rfl) ?_ (.inl rfl)
      · exact (congrArg Connections.locked hl₂).trans hlocked
      · rintro h - ⟨⟩
        exact ⟨script, hopening⟩
    · intro l₃ hinv₃ hrely₃
      have hl₃ := hrely₃.2 () rfl
      refine ⟨rfl, ?_, ?_⟩
      · rw [hl₃]
        exact (congrArg Connections.locked hl₂).trans hlocked
      · rintro h ⟨⟩
        refine hinv₃.knows ?_
        rw [hl₃]
        rfl
  · rintro _ e l₁ - ⟨ds, rfl, -, hconnections, -⟩
    exact ⟨rfl, by rw [hconnections, hlocked], gets_error e l₁⟩

theorem later_lock (b : Bool) (l : Link) : l.Later (lock.set b l) := ⟨.refl _, fun _ => .inl⟩

theorem step_lock {d d' : Option Unit} {b : Bool}
    (hduty : (ownership named).Move d d' l (lock.set b l)) :
    Step named i (d, cs) (d', []) l (lock.set b l) := by
  refine ⟨hduty, .kept rfl, ?_, .inl rfl⟩
  intro h hnone hcurrent
  cases hnone.symm.trans hcurrent

theorem step_takes (hl : l.Numbered) (hfree : l.connections.locked = false) :
    Step named i (none, []) (some (), []) l (lock.set true l) := by
  refine step_lock ⟨hl, later_lock true l, ?_, fun _ _ => rfl, ?_⟩
  · intro _ _ htaken
    exact absurd (htaken.symm.trans hfree) (by simp)
  · intro _ _ _ htaken
    exact absurd (htaken.symm.trans hfree) (by simp)

theorem step_leaves (hl : l.Numbered) :
    Step named i (some (), cs) (none, []) l (lock.set false l) := by
  refine step_lock ⟨hl, later_lock false l, fun _ hne _ => absurd rfl hne, ?_, ?_⟩
  · rintro _ ⟨⟩
  · rintro _ ⟨⟩

/-- A caller takes the lock, does what it must hold it for, and leaves it. -/
theorem safe_holding {J : Link → Prop} {Q : Except QuotaError α → Link → Prop} {a : Client α}
    (hJ : ∀ l l', l.Later l' → J l → J l') (hQ : ∀ r l l', l.Later l' → Q r l → Q r l')
    (ha : ∀ l, l.Numbered → J l → l.connections.locked = true → SafeHolding named i Q a l)
    (hl : J l) : (protocol named).Safe i (fun m r l' => m = (none, []) ∧ Q r l')
      (Action.holding lock a).run (none, []) l := by
  intro l₁ hinv hgiven hrely hready
  have hfree : lock.get l₁ = false := by simpa using hready
  have hJ₁ : J (lock.set true l₁) := hJ _ _ (hrely.1.trans (later_lock true l₁)) hl
  refine ⟨(some (), []), step_takes hinv hfree, (ha (lock.set true l₁) hinv hJ₁ rfl).andThen ?_⟩
  rintro ⟨d, ds⟩ r l₂ - ⟨rfl, hlocked, hr⟩ l₃ hinv₃ - hrely₃ -
  refine ⟨(none, []), step_leaves hinv₃, ?_⟩
  intro l₄ _ hrely₄
  exact ⟨rfl, hQ _ _ _ hrely₄.1 (hQ _ _ _ (hrely₃.1.trans (later_lock false l₃)) hr)⟩

theorem safeHolding_pure {h : Handle} (hlocked : l.connections.locked = true) (hl : l.Knows h) :
    SafeHolding named i Gets (pure h) l := by
  intro l' _ hrely
  refine ⟨rfl, (congrArg Connections.locked (hrely.2 () rfl)).trans hlocked, ?_⟩
  rintro _ ⟨⟩
  exact hl.later hrely.1

theorem safe_getOrConnect : (protocol named).Safe i (fun m r l' => m = (none, []) ∧ Gets r l')
    getOrConnect.run (none, []) l := by
  refine Protocol.safe_read_bind fun l₁ hinv _ _ => ⟨(none, []), step_away hinv (.refl l₁), ?_⟩
  cases hcurrent : l₁.connections.current with
  | some h =>
      intro l₂ _ hrely
      refine ⟨rfl, ?_⟩
      rintro _ ⟨⟩
      exact (hinv.knows hcurrent).later hrely.1
  | none =>
      refine safe_holding (J := fun _ => True) (fun _ _ _ => id)
        (fun _ _ _ hlater hr => hr.later hlater) ?_ trivial
      intro l₂ _ _ hlocked
      refine Protocol.safe_read_bind fun l₃ hinv₃ _ hrely₃ => ?_
      have hlocked₃ : l₃.connections.locked = true :=
        (congrArg Connections.locked (hrely₃.2 () rfl)).trans hlocked
      refine ⟨(some (), []), step_holding_aside hinv₃ (.refl l₃) hlocked₃ (.inl rfl), ?_⟩
      cases hcurrent₃ : l₃.connections.current with
      | some h => exact safeHolding_pure hlocked₃ (hinv₃.knows hcurrent₃)
      | none => exact safe_renew hcurrent₃ hlocked₃

theorem step_dropIfSeen {seen : Handle} (hmay : ∀ h, h.serial = seen.serial → i.MayDrop h)
    (hl : l.Numbered) (hlocked : l.connections.locked = true) :
    Step named i (some (), cs) (some (), []) l (dropIfSeen seen l).2 := by
  unfold dropIfSeen
  split
  · rename_i h hcurrent
    split
    · rename_i heq
      refine step_holding ?_ ⟨.refl _, ?_⟩ hlocked ?_ ?_ (.inl rfl)
      · rintro g ⟨⟩
      · rintro g ⟨⟩
      · exact .dropped hcurrent (hmay h heq) rfl
      · rintro g - ⟨⟩
    · exact step_holding_aside hl (.refl l) hlocked (.inl rfl)
  · exact step_holding_aside hl (.refl l) hlocked (.inl rfl)

theorem locked_dropIfSeen (seen : Handle) (l : Link) :
    (dropIfSeen seen l).2.connections.locked = l.connections.locked := by
  unfold dropIfSeen
  split
  · split
    · rfl
    · rfl
  · rfl

theorem safe_reconnect {seen : Handle} (hmay : ∀ h, h.serial = seen.serial → i.MayDrop h) :
    (protocol named).Safe i (fun m r l' => m = (none, []) ∧ Gets r l')
      (reconnect seen).run (none, []) l := by
  refine safe_holding (J := fun _ => True) (fun _ _ _ => id)
    (fun _ _ _ hlater hr => hr.later hlater) ?_ trivial
  intro l₁ _ _ hlocked
  refine Protocol.safe_atOnce_bind fun l₂ hinv₂ _ hrely₂ => ?_
  have hlocked₂ : l₂.connections.locked = true :=
    (congrArg Connections.locked (hrely₂.2 () rfl)).trans hlocked
  have hlocked₃ : (dropIfSeen seen l₂).2.connections.locked = true :=
    (locked_dropIfSeen seen l₂).trans hlocked₂
  refine ⟨(some (), []), step_dropIfSeen hmay hinv₂ hlocked₂, ?_⟩
  cases hdropped : (dropIfSeen seen l₂).1 with
  | some h =>
      obtain ⟨hcurrent, -, hsame⟩ := dropIfSeen_some hdropped
      refine safeHolding_pure hlocked₃ ?_
      rw [hsame]
      exact hinv₂.knows hcurrent
  | none => exact safe_renew (dropIfSeen_none hdropped) hlocked₃

theorem locked_refresh (seen : Handle) (script : String) (l : Link) :
    (refresh seen script l).2.connections.locked = l.connections.locked := by
  unfold refresh
  split
  · split
    · rfl
    · rfl
  · rfl

theorem step_refresh {seen : Handle} {script : String}
    (hmay : ∀ h, h.serial = seen.serial → i.MayDrop h)
    (hseen : ∀ h, l.connections.current = some h → h.serial = seen.serial → h = seen)
    (hl : l.Numbered) (hlocked : l.connections.locked = true) :
    Step named i (some (), cs) (some (), []) l (refresh seen script l).2 ∧
      (refresh seen script l).2.Knows (refresh seen script l).1 := by
  unfold refresh
  split
  · rename_i h hcurrent
    split
    · rename_i heq
      obtain rfl := hseen h hcurrent heq
      have hnumbered := numbered_publish h.connection script (hl h hcurrent).1
      refine ⟨?_, hnumbered.knows rfl⟩
      refine step_holding hnumbered (later_publish h.connection script) hlocked
        (.refreshed hcurrent (hmay h rfl) rfl) ?_ (.inl rfl)
      intro g hnone
      cases hnone.symm.trans hcurrent
    · exact ⟨step_holding_aside hl (.refl l) hlocked (.inl rfl), hl.knows hcurrent⟩
  · rename_i hnone
    have haside : l.Aside (l.issue seen.connection script).2 :=
      ⟨rfl, Nat.le_refl _, Nat.le_succ _⟩
    refine ⟨step_holding_aside hl haside hlocked (.inl rfl), Nat.lt_succ_self _, ?_⟩
    intro h hcurrent
    cases hnone.symm.trans hcurrent

/-- Another script is published only on the connection that the handle seen has. -/
theorem safe_replaceScript {J : Link → Prop} {seen : Handle} {script : String}
    (hmay : ∀ h, h.serial = seen.serial → i.MayDrop h)
    (hJ : ∀ l l', l.Later l' → J l → J l')
    (hseen : ∀ l, (ownership named).given l → J l → ∀ h, l.connections.current = some h →
      h.serial = seen.serial → h = seen) (hl : J l) :
    (protocol named).Safe i (fun m r l' => m = (none, []) ∧ Gets r l')
      (replaceScript seen script).run (none, []) l := by
  refine safe_holding hJ (fun _ _ _ hlater hr => hr.later hlater) ?_ hl
  intro l₁ _ hl₁ hlocked l₂ hinv₂ hgiven hrely₂ _
  have hlocked₂ : l₂.connections.locked = true :=
    (congrArg Connections.locked (hrely₂.2 () rfl)).trans hlocked
  obtain ⟨hstep, hknows⟩ : Step named i (some (), []) (some (), []) l₂ (refresh seen script l₂).2 ∧
      (refresh seen script l₂).2.Knows (refresh seen script l₂).1 :=
    step_refresh hmay (hseen l₂ hgiven (hJ l₁ l₂ hrely₂.1 hl₁)) hinv₂ hlocked₂
  refine ⟨(some (), []), hstep, ?_⟩
  intro l₃ _ hrely₃
  refine ⟨rfl, ?_, ?_⟩
  · rw [hrely₃.2 () rfl]
    exact (locked_refresh seen script l₂).trans hlocked₂
  · rintro _ ⟨⟩
    exact hknows.later hrely₃.1

theorem safe_aside {x : Client α} (hx : x.run.Changes Aside) :
    (protocol named).Safe i (fun m _ l' => m = (none, []) ∧ l.Later l') x.run (none, []) l := by
  refine (Protocol.safe_of_changes hx ?_).mono ?_
  · intro l₁ l₂ _ hinv _ haside
    exact ⟨step_away hinv haside, haside.later, fun _ hne => by cases hne⟩
  · rintro m r l' - ⟨heq, hlater, -⟩
    exact ⟨heq, hlater⟩

theorem safe_ensureScript : (protocol named).Safe .ensureScript
    (fun m r l' => m = (none, []) ∧ Gets r l') ensureScript.run (none, []) l := by
  refine Protocol.Safe.bind safe_getOrConnect ?_ ?_
  · rintro _ h l₁ - ⟨rfl, hgets⟩
    -- The handle may be replaced while the script loads, but no other one gets its number.
    have hknows : l₁.Knows h := hgets h rfl
    rw [Action.run_outcome_bind]
    refine (safe_aside (aside_loadScript takeScript)).andThen ?_
    rintro _ r l₂ - ⟨rfl, hlater⟩
    have hknows₂ := hknows.later hlater
    cases r with
    | error e => exact safe_reconnect fun _ _ => trivial
    | ok script =>
        change (protocol named).Safe .ensureScript _ (if script = h.script then pure h
          else replaceScript h script : Client Handle).run (none, []) l₂
        split
        · intro l₃ _ hrely
          refine ⟨rfl, ?_⟩
          rintro _ ⟨⟩
          exact hknows₂.later hrely.1
        · exact safe_replaceScript (J := fun l => l.Knows h) (fun _ _ => trivial)
            (fun _ _ hlater hl => hl.later hlater) (fun _ _ hl => hl.2) hknows₂
  · rintro _ e l₁ - ⟨rfl, -⟩
    exact ⟨rfl, gets_error e l₁⟩

theorem safe_close : (protocol named).Safe .close
    (fun m _ _ => m = (none, [])) close.run (none, []) l := by
  refine (safe_holding (J := fun _ => True) (Q := fun _ _ => True) (fun _ _ _ => id)
    (fun _ _ _ _ => id) ?_ trivial).mono fun _ _ _ _ h => h.1
  intro l₁ _ _ hlocked l₂ hinv₂ _ hrely₂ _
  have hlocked₂ : l₂.connections.locked = true :=
    (congrArg Connections.locked (hrely₂.2 () rfl)).trans hlocked
  refine ⟨(some (), []), ?_, ?_⟩
  · refine step_holding ?_ ⟨.refl _, ?_⟩ hlocked₂ ?_ ?_ (.inl rfl)
    · rintro g ⟨⟩
    · rintro g ⟨⟩
    · cases hcurrent : l₂.connections.current with
      | none => exact .kept hcurrent.symm
      | some h => exact .dropped hcurrent trivial rfl
    · rintro g - ⟨⟩
  · intro l₃ _ hrely₃
    refine ⟨rfl, ?_, trivial⟩
    rw [hrely₃.2 () rfl]
    exact hlocked₂

/-- Whatever is asked, every step is one that the others may rely on. -/
theorem safe_serve (hnamed : ∀ seen script, i = .replaceScript seen script → named seen) :
    (protocol named).Safe i (fun _ _ _ => True) (serve i) (none, []) l := by
  have hreturn : ∀ {x : Client Handle},
      (protocol named).Safe i (fun m r l' => m = (none, []) ∧ Gets r l') x.run (none, []) l →
      (protocol named).Safe i (fun _ _ _ => True) (do return some (← x) : Client _).run
        (none, []) l := by
    intro x hx
    exact hx.bind (fun _ _ _ _ _ _ _ _ => trivial) fun _ _ _ _ _ => trivial
  cases i with
  | getOrConnect => exact hreturn safe_getOrConnect
  | reconnect seen => exact hreturn (safe_reconnect fun _ heq => heq)
  | ensureScript => exact hreturn safe_ensureScript
  | replaceScript seen script =>
      refine hreturn (safe_replaceScript (J := fun _ => True) (fun _ heq => heq)
        (fun _ _ _ => id) (fun l hgiven _ => ?_) trivial)
      exact hgiven seen (hnamed seen script rfl)
  | close => exact safe_close.bind (fun _ _ _ _ _ _ _ _ => trivial) fun _ _ _ _ _ => trivial

end Steps

end Link

end TokenQuota
