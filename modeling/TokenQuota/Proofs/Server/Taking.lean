import TokenQuota.Proofs.Bucket.Answering
import TokenQuota.Proofs.Server.Charging
import TokenQuota.Proofs.Server.Snapshots

/-!
How requests for tokens come along while the server changes around them: each finds its bucket, is
decided by the store at one of its steps, and is answered so. No other request touches a cell,
unless it applies a configuration.
-/

namespace TokenQuota

namespace Site

open TokenQuota.Protocol (either succeeds)

/-- A server that was started, over a link on which no call of a request fails. -/
structure IsUp (s : Site) : Prop where
  wasStarted : s.WasStarted
  isServed : s.IsServed
  lawful : s.server.active.buckets.Lawful
  link : s.link.Sound

/-- Only dynamic buckets with lawful names come or go, and a sound link stays so, with its scripts
and its cells. -/
structure Upholds (s s' : Site) : Prop where
  server : s.server.Steady s'.server
  lawful : s.server.active.buckets.Lawful → s'.server.active.buckets.Lawful
  link : s.link.Upholds s'.link

/-- How far a request for tokens has come. -/
inductive Stage
  | waiting
  /-- No bucket was found. -/
  | refused
  | asking (b : Bucket)
  /-- The store has decided at a reading of its clock. -/
  | answered (b : Bucket) (now : Int) (v : Verdict)

def isTake : Request → Bool
  | .allow .. => true
  | _ => false

/-- Either both are the same bucket, or they have no key in common. -/
def IsKin (b b' : Bucket) : Prop := b'.terms = b.terms ∨ b.keys.Apart b'.keys

/-- What a step makes of the cells and of the stage of a request. Every bucket that is found is one
of those that are told from a certain bucket. -/
inductive Advance (b : Bucket) : Request → Site → Site → Stage → Stage → Prop
  | aside {i : Request} {s s' : Site} {m : Stage} (hcells : s'.link.cells = s.link.cells)
      (hbegun : isTake i = false ∨ m ≠ .waiting) : Advance b i s s' m m
  | applying {s s' : Site} : Advance b .round s s' .waiting .waiting
  | refused {ns bucket : String} {tokens : Int} {maxWait : Nat} {s s' : Site} {e : QuotaError}
      (haccept : (accept ns bucket tokens s).1 = .error e)
      (hcells : s'.link.cells = s.link.cells) :
      Advance b (.allow ns bucket tokens maxWait) s s' .waiting .refused
  | found {ns bucket : String} {tokens : Int} {maxWait : Nat} {s s' : Site} {b' : Bucket}
      (haccept : (accept ns bucket tokens s).1 = .ok b') (hkin : IsKin b b')
      (hcells : s'.link.cells = s.link.cells) :
      Advance b (.allow ns bucket tokens maxWait) s s' .waiting (.asking b')
  | decided {ns bucket : String} {tokens : Int} {maxWait : Nat} {s s' : Site} {b' : Bucket}
      (hcells : s'.link.cells = (s.link.reply b' tokens maxWait).2.cells) :
      Advance b (.allow ns bucket tokens maxWait) s s' (.asking b') (.answered b'
        s.link.backend.now (.ofResult (s.link.reply b' tokens maxWait).1.result))

variable {s s' : Site} {b b' : Bucket} {i : Request} {m : Stage} {ns bucket : String} {tokens : Int}
  {maxWait : Nat}

theorem Upholds.isUp (h : s.Upholds s') (hs : s.IsUp) : s'.IsUp := by
  have hconfig : s'.activeConfig = s.activeConfig := h.server.config
  refine ⟨(wasStarted_iff h.server).mpr hs.wasStarted, ⟨?_, ?_⟩, h.lawful hs.lawful,
    (h.link hs.link).1⟩
  · rw [hconfig]
    exact hs.isServed.check
  · rw [hconfig]
    exact h.server.buckets.serves _ hs.isServed.serves

theorem upholds_self (l : Link) : l.Upholds l := fun hl => ⟨hl, fun _ hscript => hscript, rfl⟩

theorem upholds_of_server (h : s.server.Steady s'.server) (hlink : s'.link = s.link)
    (hlawful : s.server.active.buckets.Lawful → s'.server.active.buckets.Lawful) :
    s.Upholds s' := by
  refine ⟨h, hlawful, ?_⟩
  rw [hlink]
  exact upholds_self s.link

theorem upholds_link {l : Link} (h : s.link.Upholds l) : s.Upholds { s with link := l } :=
  ⟨.refl _, id, h⟩

theorem covers_upholds : Covers Upholds where
  refl _ := upholds_of_server (.refl _) rfl id
  late _ _ := upholds_link fun hl =>
    ⟨⟨⟨hl.backend.connects, hl.backend.times, hl.backend.loads, hl.backend.slowLoads,
      hl.backend.takes, hl.backend.reported⟩, hl.current⟩, fun _ hscript => hscript, rfl⟩
  archive _ _ := upholds_of_server (.refl _) rfl id
  lock s taken := upholds_of_server (Applying.covers_steady.lock s taken) rfl id
  stats s stats := upholds_of_server (Applying.covers_steady.stats s stats) rfl id

theorem upholds_resolve (ns bucket : String) (s : Site) : s.Upholds (s.resolve ns bucket).2 := by
  have hundisturbed := undisturbed_resolve ns bucket s
  refine upholds_of_server hundisturbed.server ?_ fun hs => ?_
  · unfold resolve
    split
    · rfl
    · rfl
  · have hlawful := Container.lawful_find hs ns bucket s.roster
    unfold resolve
    split
    · rename_i b' buckets roster heq
      rwa [heq] at hlawful
    · rename_i buckets roster heq
      rwa [heq] at hlawful

theorem upholds_accept (ns bucket : String) (tokens : Int) (s : Site) :
    s.Upholds (accept ns bucket tokens s).2 := by
  unfold accept
  split
  · exact covers_upholds.refl s
  · split
    · exact covers_upholds.refl s
    · exact upholds_resolve ns bucket s

theorem upholds_stop : stop.run.Changes Upholds := by
  refine Action.changes_bind (Task.changes_atOnce fun s => ?_) fun _ => ?_
  · unfold transition
    split
    · rename_i hstarted
      exact upholds_of_server ⟨rfl, rfl, .refl _, rfl, .inr ⟨hstarted, rfl⟩, .inl rfl⟩ rfl id
    · exact covers_upholds.refl s
  · refine Action.changes_bind (Action.changes_ofTask (Task.changes_await fun s hready => ?_))
      fun _ => ?_
    · have hnot : s.server.reloader ≠ .busy := by simpa using hready
      exact upholds_of_server ⟨rfl, rfl, .refl _, rfl, .inl rfl, .inr ⟨hnot, rfl⟩⟩ rfl id
    · refine Task.Changes.onPart (fun s l hl => upholds_link hl)
        (Task.Changes.holding (fun l _ => Link.upholds_lock true l)
          (fun l => Link.upholds_lock false l) (Action.changes_ofTask (Task.changes_modify ?_)))
      intro l
      exact Link.upholds_current (fun h hnone => by cases hnone)

theorem upholds_isHealthy : isHealthy.run.Changes Upholds := by
  refine Task.Changes.onPart (R := Link.Upholds) (fun s l hl => upholds_link hl) ?_
  refine Action.changes_bind (Action.changes_ofTask (Task.changes_read upholds_self _))
    fun found => ?_
  cases found with
  | none => exact trivial
  | some h =>
      refine Action.changes_bind (Action.changes_outcome (Task.Changes.onPart
        (R := fun b b' : Backend => b.Works → b.Carries b') (fun l b hb hl =>
          Link.upholds_of_carries (hb hl.backend) hl) (Task.changes_atOnce fun b hb => ?_)))
        fun answer => ?_
      · have hworks : ∀ o : Outage, Backend.Works { b with outages.pings := o } := fun o =>
          ⟨hb.connects, hb.times, hb.loads, hb.slowLoads, hb.takes, hb.reported⟩
        unfold Backend.ping Backend.guarded
        dsimp only
        split
        · exact ⟨hworks _, rfl, rfl, fun _ hscript => hscript⟩
        · exact ⟨hworks _, rfl, rfl, fun _ hscript => hscript⟩
      · cases answer with
        | ok u => exact trivial
        | error e => exact trivial

/-- Requests other than those for tokens leave the server up and the cells alone, unless they start
the server or apply a configuration. -/
theorem upholds_work {r : Request} (htake : isTake r = false) (hstart : r ≠ .start)
    (hround : r ≠ .round) : (work r).Changes Upholds := by
  cases hminor : isMinor r with
  | false => exact covers_upholds.changes_work hstart hround hminor
  | true =>
      cases r with
      | stop => exact Action.changes_bind upholds_stop fun _ => trivial
      | health => exact Action.changes_bind upholds_isHealthy fun _ => trivial
      | sweep =>
          refine Action.changes_bind (Action.changes_ofTask (Task.changes_atOnce fun s => ?_))
            fun _ => trivial
          exact upholds_of_server (undisturbed_sweep s).server rfl fun hs =>
            Container.lawful_sweep hs s.roster
      | allow ns bucket tokens maxWait => cases htake
      | _ => cases hminor

theorem isUp_install {c : ServiceConfig} (hcheck : c.check = .ok ()) (hs : s.IsUp) :
    (install c s).IsUp :=
  ⟨hs.wasStarted, ⟨hcheck, serves_install c s⟩, Container.lawful_make c s.roster, hs.link⟩

theorem isUp_of_active_eq (hs : s.IsUp) (hlifecycle : s'.server.lifecycle = s.server.lifecycle)
    (hactive : s'.server.active = s.server.active) (hlink : s'.link.Sound) : s'.IsUp := by
  refine ⟨?_, Applying.isServed_of_active_eq hs.isServed hactive, ?_, hlink⟩
  · rw [WasStarted, hlifecycle]
    exact hs.wasStarted
  · rw [hactive]
    exact hs.lawful

/-- A caller that relies on a sound link may do any errand on it, if it may touch the cells. -/
theorem embeds_of_sound {μ : Type} {P : Protocol Request μ Site} {m : μ} (errand : Link.Errand)
    (hsound : ∀ s, P.inv s → s.link.Sound)
    (hrely : ∀ s s', P.rely m s s' → s.link.Remembers s'.link)
    (hmove : ∀ s l, P.inv s → l.Sound → s.link.Remembers l →
      P.move i m m s { s with link := l }) :
    Link.errands.Embeds P linkPart errand i fun _ => m :=
  ⟨fun _ _ => rfl, hsound, fun _ _ => trivial, fun _ => hrely,
    fun _ _ s l hs _ h => hmove s l hs h.1 h.2.1⟩

theorem does_prepare_of_embeds {μ : Type} {P : Protocol Request μ Site} {m : μ}
    (h : Link.errands.Embeds P linkPart .tend i fun _ => m) (c : ServiceConfig) :
    P.Does i m (fun _ => True) (onLink (Link.prepare c)) fun _ _ => True := by
  intro s _
  refine (Protocol.Safe.onPart h (Link.does_prepare c s.link trivial)).mono ?_
  rintro m r s₁ - ⟨_, rfl, -⟩
  exact ⟨rfl, trivial⟩

namespace Taking

/-- Requests on a server that is up, while the configuration offers a certain bucket. -/
def rules (b : Bucket) : Protocol Request Stage Site where
  inv := IsUp
  given s := s.activeConfig.Offers b.terms
  rely _ s s' := s.link.Remembers s'.link
  move i m m' s s' := s'.IsUp ∧ s.link.Remembers s'.link ∧ Advance b i s s' m m'
  rely_refl _ _ _ hscript := hscript
  rely_trans h h' script hscript := h' script (h script hscript)

theorem move_of_upholds (h : s.Upholds s') (hs : s.IsUp)
    (hbegun : isTake i = false ∨ m ≠ .waiting) :
    (rules b).move i m m s s' ∧ (rules b).rely m s s' := by
  obtain ⟨-, hremembers, hcells⟩ := h.link hs.link
  exact ⟨⟨h.isUp hs, hremembers, .aside hcells hbegun⟩, hremembers⟩

theorem stable_true : (rules b).Stable m fun _ => True := fun _ _ _ _ => trivial

theorem does_of_upholds {α : Type} {x : Work α} (hx : x.run.Changes Upholds)
    (hbegun : isTake i = false ∨ m ≠ .waiting) :
    (rules b).Does i m (fun _ => True) x fun _ _ => True :=
  Protocol.does_of_changes hx stable_true fun _ _ _ hs _ h => move_of_upholds h hs hbegun

/-- A bucket that is found is told from every bucket that the configuration offers. -/
theorem isKin_of_accept (hs : s.IsUp) (hoffers : s.activeConfig.Offers b.terms)
    (haccept : (accept ns bucket tokens s).1 = .ok b') : IsKin b b' := by
  have hfind := (accept_spec ns bucket tokens s).2.2 b' haccept
  have hoffers' := Container.offers_of_find hs.isServed.serves hs.lawful hfind
  -- Under one name there is one bucket, and under different names the keys are apart.
  by_cases heq : (b.ns, b.name) = (b'.ns, b'.name)
  · obtain ⟨hns, hname⟩ := Prod.mk.inj heq
    rw [Bucket.terms, hns, hname] at hoffers
    obtain ⟨hconfig, hdynamic⟩ :=
      ServiceConfig.offers_unique hs.isServed.check hoffers hoffers'
    left
    rw [Bucket.terms, Bucket.terms, hns, hname, hconfig, hdynamic]
  · exact .inr (ServiceConfig.apart_of_offers hs.isServed.check hoffers hoffers' heq)

/-- What the stage of a request says about its answer. -/
def Concludes (m : Stage) (r : Except QuotaError Reply) : Prop :=
  (m = .refused ∧ ∃ e, r = .error e) ∨ ∃ b now v, m = .answered b now v ∧ r = .ok (.verdict v)

/-- The stage of a request that asks the store for a bucket. -/
def Stage.ofReply (b : Bucket) : Option (Int × Verdict) → Stage
  | none => .asking b
  | some (now, v) => .answered b now v

theorem ofReply_ne_waiting (b : Bucket) (a : Option (Int × Verdict)) :
    Stage.ofReply b a ≠ .waiting := by
  cases a with
  | none => nofun
  | some a => nofun

theorem embeds_ask (b b' : Bucket) (ns bucket : String) (tokens : Int) (maxWait : Nat) :
    Link.errands.Embeds (rules b) linkPart (.ask b' tokens maxWait)
      (.allow ns bucket tokens maxWait) (Stage.ofReply b') where
  get_set _ _ := rfl
  inv _ hs := hs.link
  given _ _ := trivial
  rely _ _ _ h := h
  move a a' s l hs _ h := by
    obtain ⟨hsound, hremembers, hprogress⟩ := h
    refine ⟨isUp_of_active_eq hs rfl rfl hsound, hremembers, ?_⟩
    cases hprogress with
    | aside hcells => exact .aside hcells (.inr (ofReply_ne_waiting b' a))
    | decided hcells => exact .decided hcells

/-- A request that was answered may be counted. -/
theorem does_count (ns bucket : String) (b' : Bucket) (v : Verdict) (hbegun : m ≠ .waiting) :
    (rules b).Does i m (fun _ => True)
      (do
        if b'.dynamic then
          Action.modify fun s =>
            { s with server.stats := s.server.stats.record ns bucket v.admitted }
        return v : Work Verdict)
      fun r _ => r = .ok v := by
  have hreturn : (rules b).Does i m (fun _ => True) (pure v : Work Verdict)
      fun r _ => r = .ok v :=
    (Protocol.does_pure stable_true v).mono (fun _ hs => hs) fun r s _ hr => hr.1
  cases b'.dynamic with
  | false => exact hreturn
  | true =>
      refine .bind (Protocol.does_modify stable_true stable_true fun s hs _ _ => ?_)
        (fun _ => hreturn) fun e s _ hs => absurd hs id
      exact ⟨(move_of_upholds (covers_upholds.stats s _) hs (.inr hbegun)).1, trivial⟩

theorem safe_accept (s : Site) :
    (rules b).Safe (.allow ns bucket tokens maxWait)
      (fun m r _ => (m = .refused ∧ ∃ e, r = .error e) ∨ ∃ b', m = .asking b' ∧ r = .ok b')
      (Action.atOnce (accept ns bucket tokens)).run .waiting s := by
  refine Protocol.safe_atOnce fun s₁ hs₁ hoffers _ => ?_
  have hupholds := upholds_accept ns bucket tokens s₁
  have hup := hupholds.isUp hs₁
  obtain ⟨-, hremembers, hcells⟩ := hupholds.link hs₁.link
  cases haccept : (accept ns bucket tokens s₁).1 with
  | error e =>
      exact ⟨.refused, ⟨hup, hremembers, .refused haccept hcells⟩, fun _ _ _ =>
        .inl ⟨rfl, e, rfl⟩⟩
  | ok b' =>
      refine ⟨.asking b', ⟨hup, hremembers, ?_⟩, fun _ _ _ => .inr ⟨b', rfl, rfl⟩⟩
      exact .found haccept (isKin_of_accept hs₁ hoffers haccept) hcells

theorem safe_ask (b' : Bucket) (s : Site) :
    (rules b).Safe (.allow ns bucket tokens maxWait)
      (fun m r _ => ∃ now v, m = .answered b' now v ∧ r = .ok v)
      (do
        let retry ← Action.read fun s => s.server.retry
        let verdict ← onLink (Link.take retry b' tokens maxWait)
        if b'.dynamic then
          Action.modify fun s =>
            { s with server.stats := s.server.stats.record ns bucket verdict.admitted }
        return verdict : Work Verdict).run (.asking b') s := by
  refine Protocol.safe_read_bind fun s₁ hs₁ _ _ => ⟨.asking b', ?_, ?_⟩
  · exact (move_of_upholds (covers_upholds.refl s₁) hs₁ (.inr (ofReply_ne_waiting b' none))).1
  · have hasked := Protocol.Safe.onPart (s := s₁) (embeds_ask b b' ns bucket tokens maxWait)
      (Link.safe_take s₁.server.retry b' tokens maxWait)
    refine Protocol.Safe.bind hasked ?_ ?_
    · rintro _ v s₂ - ⟨_, rfl, now, v, rfl, heq⟩
      cases heq
      have hbegun := ofReply_ne_waiting b' (some (now, v))
      refine ((does_count ns bucket b' v hbegun) s₂ trivial).mono ?_
      rintro _ r s₃ - ⟨rfl, rfl⟩
      exact ⟨now, v, rfl, rfl⟩
    · rintro _ e s₂ - ⟨_, -, now, v, -, heq⟩
      cases heq

/-- A request is refused at once, or answered as the store decides. -/
theorem safe_allow (s : Site) :
    (rules b).Safe (.allow ns bucket tokens maxWait) (fun m r _ => Concludes m r)
      (work (.allow ns bucket tokens maxWait)) .waiting s := by
  refine Protocol.Safe.bind (Q := fun m r _ => (m = .refused ∧ ∃ e, r = .error e) ∨
    ∃ b now v, m = .answered b now v ∧ r = .ok v) ?_ ?_ ?_
  · refine Protocol.Safe.bind (safe_accept s) ?_ ?_
    · rintro m b' s₁ - (⟨-, e, heq⟩ | ⟨b', rfl, heq⟩)
      · cases heq
      · cases heq
        exact (safe_ask b' s₁).mono fun _ _ _ _ hanswered => .inr ⟨b', hanswered⟩
    · rintro m e s₁ - (⟨hm, -⟩ | ⟨b', -, heq⟩)
      · exact .inl ⟨hm, e, rfl⟩
      · cases heq
  · rintro m v s₁ - (⟨-, e, heq⟩ | ⟨b', now, v, rfl, heq⟩)
    · cases heq
    · cases heq
      exact fun _ _ _ => .inr ⟨b', now, v, rfl, rfl⟩
  · rintro m e s₁ - (⟨hm, -⟩ | ⟨b', now, v, -, heq⟩)
    · exact .inl ⟨hm, e, rfl⟩
    · cases heq

/-- A server that was started is not started again. -/
theorem safe_start_again (s : Site) :
    (rules b).Safe .start (fun _ _ _ => True) (work .start) .waiting s := by
  refine Protocol.Safe.bind (Q := fun _ _ _ => True) ?_ (fun _ _ _ _ _ _ _ _ => trivial)
    fun _ _ _ _ _ => trivial
  refine Protocol.Safe.bind (Q := fun _ r _ => ∃ e, r = .error e) ?_ ?_ fun _ _ _ _ _ => trivial
  · refine Protocol.safe_atOnce fun s₁ hs₁ _ _ => ?_
    have hnot : s₁.server.lifecycle ≠ .created := by
      intro hcreated
      rcases hs₁.wasStarted with heq | heq <;> rw [hcreated] at heq <;> cases heq
    rw [transition, if_neg hnot]
    have hmove : (rules b).move .start .waiting .waiting s₁ s₁ :=
      (move_of_upholds (covers_upholds.refl s₁) hs₁ (.inl rfl)).1
    exact ⟨.waiting, hmove, fun _ _ _ => ⟨_, rfl⟩⟩
  · rintro m u s₁ - ⟨e, heq⟩
    cases heq

/-- To prepare the store is a step of the round that is allowed to touch cells. -/
theorem does_prepare (c : ServiceConfig) :
    (rules b).Does .round .waiting (fun _ => True) (onLink (Link.prepare c)) fun _ _ => True := by
  have hembeds : Link.errands.Embeds (rules b) linkPart .tend .round fun _ => .waiting :=
    embeds_of_sound .tend (fun _ hs => hs.link) (fun _ _ h => h) fun _ _ hs hsound hremembers =>
      ⟨isUp_of_active_eq hs rfl rfl hsound, hremembers, .applying⟩
  exact does_prepare_of_embeds hembeds c

theorem does_reload :
    (rules b).Does .round .waiting (fun _ => True) reload
      (either (fun _ _ => True) fun _ => True) := by
  refine Site.does_reload (K := fun _ _ => True) (N := fun c _ _ => c.check = .ok ())
    (fun _ => stable_true) (fun _ _ _ _ _ hcheck => hcheck) ?_ (fun _ _ _ => trivial) ?_
    (fun _ _ _ _ => trivial) ?_
  · refine (does_of_upholds covers_upholds.changes_readArchive (.inl rfl)).mono (fun _ hs => hs) ?_
    rintro (e | content) s _ _
    · trivial
    · trivial
  · intro content c s hdecode hs _ _
    exact ⟨(move_of_upholds (covers_upholds.refl s) hs (.inl rfl)).1,
      (decodeChange_eq_ok_iff.mp hdecode).2⟩
  · intro c active wallClock _
    refine Protocol.Does.mono (J := fun _ => c.check = .ok () ∧ True) (Protocol.does_of_known
      fun hcheck => does_apply_of_prepare stable_true (S := fun _ => True) stable_true
        (does_prepare _) fun s hs _ _ => ?_) (fun _ hs => ⟨hs, trivial⟩) ?_
    · have hup := isUp_install ((check_restamp wallClock active c).trans hcheck) hs
      exact ⟨⟨hup, fun _ hscript => hscript, .applying⟩, trivial⟩
    · rintro (e | v) s _ _
      · trivial
      · trivial

theorem safe_round_applying (s : Site) :
    (rules b).Safe .round (fun _ _ _ => True) (work .round) .waiting s := by
  have hstep : ∀ {s s' : Site}, s.IsUp → s'.server.lifecycle = s.server.lifecycle →
      s'.server.active = s.server.active → s'.link = s.link →
      (rules b).move .round .waiting .waiting s s' := by
    intro s s' hs hlifecycle hactive hlink
    obtain ⟨hsound, hremembers, hcells⟩ : s'.link.Sound ∧ s.link.Remembers s'.link ∧
        s'.link.cells = s.link.cells := by
      rw [hlink]
      exact upholds_self s.link hs.link
    exact ⟨isUp_of_active_eq hs hlifecycle hactive hsound, hremembers, .aside hcells (.inl rfl)⟩
  refine safe_round stable_true stable_true (fun s hs _ => ⟨hstep hs rfl rfl rfl, trivial⟩)
    (does_handleChange (fun _ => stable_true) stable_true stable_true does_reload ?_ ?_)
    (fun s hs _ => hstep hs rfl rfl rfl) s
  · exact fun v s hs _ _ => ⟨hstep hs rfl rfl rfl, trivial⟩
  · exact fun e s hs _ _ => ⟨hstep hs rfl rfl rfl, trivial⟩

/-- Every request is safe, and what is known of one for tokens is its answer. -/
theorem safe_work (i : Request) (s : Site) :
    (rules b).Safe i (fun m r _ => isTake i = true → Concludes m r) (work i) .waiting s := by
  have hother : isTake i = false → (rules b).Safe i (fun _ _ _ => True) (work i) .waiting s →
      (rules b).Safe i (fun m r _ => isTake i = true → Concludes m r) (work i) .waiting s :=
    fun hi h => h.mono fun _ _ _ _ _ htake => absurd (hi.symm.trans htake) nofun
  by_cases hstart : i = .start
  · subst hstart
    exact hother rfl (safe_start_again s)
  · by_cases hround : i = .round
    · subst hround
      exact hother rfl (safe_round_applying s)
    · cases htake : isTake i with
      | true =>
          cases i with
          | allow ns bucket tokens maxWait => exact (safe_allow s).mono fun _ _ _ _ h _ => h
          | _ => cases htake
      | false =>
          rw [htake] at hother
          refine hother rfl ((does_of_upholds (upholds_work htake hstart hround) (.inl htake) s
            trivial).mono fun _ _ _ _ _ => trivial)

end Taking

end Site

end TokenQuota
