import TokenQuota.Proofs.Bucket.Isolation
import TokenQuota.Proofs.Bucket.Resolution
import TokenQuota.Proofs.Server.Requests
import TokenQuota.Proofs.Task.Turns

/-!
That idle dynamic buckets are taken out of service does not show, as long as there may be any
number of them: a bucket that is made again has the keys and the limits of the one that went.
-/

namespace TokenQuota

/-- Buckets with the same terms, whatever their numbers, ask the store the same. -/
theorem Link.take_congr {b b' : Bucket} (h : b.terms = b'.terms) (retry : Retry) (requested : Int)
    (maxWait : Nat) : take retry b requested maxWait = take retry b' requested maxWait := by
  obtain ⟨hkeys, hlimits⟩ := Bucket.keys_limits_of_terms_eq h
  have hevaluate : ∀ h, evaluate h b requested maxWait = evaluate h b' requested maxWait := by
    intro h
    unfold evaluate
    rw [hkeys, hlimits]
  have hfrom : ∀ left attempt, takeFrom retry b requested maxWait left attempt =
      takeFrom retry b' requested maxWait left attempt := by
    intro left
    induction left with
    | zero => exact fun _ => rfl
    | succ left ih =>
        intro attempt
        simp only [takeFrom, hevaluate, ih]
  exact hfrom retry.count 0

/-- The container has the buckets of a configuration. -/
structure Container.IsOf (b : Container) (c : ServiceConfig) : Prop where
  serves : b.Serves c
  lawful : b.Lawful

theorem Container.isOf_empty : Container.empty.IsOf .empty := by
  refine ⟨⟨?_, fun _ _ => rfl, rfl⟩, ?_⟩
  · intro key ns hns
    cases hns
  · intro key nb hnb
    cases hnb

theorem ServiceConfig.unlimited_empty : ServiceConfig.empty.Unlimited := by
  intro key nc hns
  cases hns

namespace Site

open TokenQuota.Task (Blind)
open TokenQuota.Pool (Turn)

/-- The site with other buckets, and other marks of these. -/
def withBuckets (buckets : Container) (roster : Roster) (s : Site) : Site :=
  { s with server.active.buckets := buckets, roster }

/-- Two sites that differ in their dynamic buckets and the marks of these at most. Before the start
there are no buckets at all. -/
def Alike (s s' : Site) : Prop :=
  ∃ buckets roster, s' = s.withBuckets buckets roster ∧
    ∃ c, (c = s.activeConfig ∨ c = .empty) ∧ s.server.active.buckets.IsOf c ∧ buckets.IsOf c

/-- The active configuration does not limit the number of dynamic buckets. -/
def Limitless (s : Site) : Prop := s.activeConfig.Unlimited

/-- What happens around a server: the store, the archive and the wall clock are changed by others,
or idle dynamic buckets are taken out of service. -/
inductive Happening
  | elsewhere (link : Link → Link) (archive : Archive → Archive) (wallClock : UInt64)
  | sweep

def happen : Happening → Site → Site
  | .elsewhere link archive wallClock, s =>
    { s with link := link s.link, archive := archive s.archive, wallClock }
  | .sweep, s => s.sweep.2

/-- A step neither looks at the buckets nor touches them. -/
def Aside {α : Type} (f : Site → α × Site) : Prop :=
  ∀ s, (f s).2.server.active = s.server.active ∧ ∀ buckets roster,
    f (s.withBuckets buckets roster) = ((f s).1, (f s).2.withBuckets buckets roster)

variable {α : Type} {s s' : Site}

theorem alike_self (h : s.IsFresh ∨ s.server.active.buckets.IsOf s.activeConfig) :
    Alike s s := by
  rcases h with ⟨initial, sweepMillis, retry, since, hserver⟩ | hof
  · have hempty : s.server.active.buckets.IsOf .empty := by
      rw [hserver]
      exact Container.isOf_empty
    exact ⟨_, s.roster, rfl, .empty, .inr rfl, hempty, hempty⟩
  · exact ⟨_, s.roster, rfl, s.activeConfig, .inl rfl, hof, hof⟩

theorem Alike.step (h : Alike s s') {f : Site → α × Site} (hf : Aside f) :
    Alike (f s).2 (f s').2 ∧ (f s).1 = (f s').1 := by
  obtain ⟨buckets, roster, rfl, c, hc, hs, hs'⟩ := h
  obtain ⟨hactive, hsame⟩ := hf s
  rw [hsame buckets roster]
  refine ⟨⟨buckets, roster, rfl, c, ?_, ?_, hs'⟩, rfl⟩
  · rwa [activeConfig, hactive]
  · rwa [hactive]

theorem Alike.sweep_right (h : Alike s s') : Alike s s'.sweep.2 := by
  obtain ⟨buckets, roster, rfl, c, hc, hs, hserves, hlawful⟩ := h
  exact ⟨(buckets.sweep roster).2.1, (buckets.sweep roster).2.2, rfl, c, hc, hs,
    (Container.follows_sweep buckets roster).serves c hserves,
    Container.lawful_sweep hlawful roster⟩

theorem Alike.sweep_left (h : Alike s s') : Alike s.sweep.2 s' := by
  obtain ⟨buckets, roster, rfl, c, hc, ⟨hserves, hlawful⟩, hs'⟩ := h
  exact ⟨buckets, roster, rfl, c, hc, ⟨(Container.follows_sweep _ s.roster).serves c hserves,
    Container.lawful_sweep hlawful s.roster⟩, hs'⟩

theorem alike_happen (d : Happening) (s s' : Site) (h : Alike s s') :
    Alike (happen d s) (happen d s') := by
  cases d with
  | elsewhere link archive wallClock =>
      exact (h.step (f := fun s => ((), happen (.elsewhere link archive wallClock) s))
        fun _ => ⟨rfl, fun _ _ => rfl⟩).1
  | sweep => exact h.sweep_left.sweep_right

/-- A request finds buckets with the same terms on both sides, or none on both. -/
theorem Alike.resolve (h : Alike s s') (hlimitless : s.Limitless) (ns bucket : String) :
    Alike (s.resolve ns bucket).2 (s'.resolve ns bucket).2 ∧
      (s.resolve ns bucket).1.map Bucket.terms = (s'.resolve ns bucket).1.map Bucket.terms := by
  obtain ⟨buckets, roster, rfl, c, hc, ⟨hserves, hlawful⟩, hserves', hlawful'⟩ := h
  have hunlimited : c.Unlimited := by
    rcases hc with rfl | rfl
    · exact hlimitless
    · exact ServiceConfig.unlimited_empty
  have hterms := (Container.terms_of_find hserves hlawful hunlimited ns bucket s.roster).trans
    (Container.terms_of_find hserves' hlawful' hunlimited ns bucket roster).symm
  have hafter := (Container.follows_find _ ns bucket s.roster).serves c hserves
  have hafter' := (Container.follows_find _ ns bucket roster).serves c hserves'
  have hstill := Container.lawful_find hlawful ns bucket s.roster
  have hstill' := Container.lawful_find hlawful' ns bucket roster
  unfold Site.resolve withBuckets
  dsimp only
  rcases hfind : s.server.active.buckets.find ns bucket s.roster with ⟨found, after, marks⟩
  rcases hfind' : buckets.find ns bucket roster with ⟨found', after', marks'⟩
  rw [hfind] at hterms hafter hstill
  rw [hfind'] at hterms hafter' hstill'
  have hsame : ∀ marks₁ marks₂, Alike (s.withBuckets after marks₁) (s.withBuckets after' marks₂) :=
    fun _ marks₂ => ⟨after', marks₂, rfl, c, hc, ⟨hafter, hstill⟩, hafter', hstill'⟩
  cases found with
  | none =>
      obtain rfl := Option.map_eq_none_iff.mp hterms.symm
      exact ⟨hsame _ _, rfl⟩
  | some b =>
      obtain ⟨b', rfl, heq⟩ := Option.map_eq_some_iff.mp hterms.symm
      exact ⟨hsame _ _, congrArg Except.ok heq.symm⟩

theorem Alike.accept (h : Alike s s') (hlimitless : s.Limitless) (ns bucket : String)
    (tokens : Int) : Alike (accept ns bucket tokens s).2 (accept ns bucket tokens s').2 ∧
      (accept ns bucket tokens s).1.map Bucket.terms =
        (accept ns bucket tokens s').1.map Bucket.terms := by
  have hresolve := h.resolve hlimitless ns bucket
  have hlifecycle : s'.server.lifecycle = s.server.lifecycle := by
    obtain ⟨buckets, roster, rfl, -⟩ := h
    rfl
  unfold Site.accept
  rw [hlifecycle]
  split
  · exact ⟨h, rfl⟩
  · split
    · exact ⟨h, rfl⟩
    · exact hresolve

theorem Alike.install (h : Alike s s') (config : ServiceConfig) :
    Alike (install config s) (install config s') := by
  obtain ⟨buckets, roster, rfl, -⟩ := h
  exact ⟨(Container.make config roster).1, (Container.make config roster).2, rfl, config, .inl rfl,
    ⟨Container.serves_make config s.roster, Container.lawful_make config s.roster⟩,
    ⟨Container.serves_make config roster, Container.lawful_make config roster⟩⟩

/-- The activity comes to the same where the dynamic buckets are others. -/
def Unaware (a : Work α) : Prop := a.run.Blind Alike Limitless

theorem unaware_pure (a : α) : Unaware (pure a) := trivial

theorem unaware_throw (e : QuotaError) : Unaware (throw e : Work α) := trivial

theorem Unaware.bind {β : Type} {a : Work α} {f : α → Work β} (ha : Unaware a)
    (hf : ∀ x, Unaware (f x)) : Unaware (a >>= f) :=
  Action.blind_bind ha hf

theorem Unaware.outcome {a : Work α} (ha : Unaware a) : Unaware (Action.outcome a) :=
  Action.blind_outcome ha

theorem unaware_ofExcept (x : Except QuotaError α) : Unaware (Action.ofExcept x) :=
  Action.blind_ofExcept x

theorem unaware_atOnce {f : Site → Except QuotaError α × Site} (hf : Aside f) :
    Unaware (Action.atOnce f) :=
  Task.blind_atOnce fun _ _ h _ => h.step hf

theorem unaware_read {f : Site → α} (hf : Aside fun s => (f s, s)) : Unaware (Action.read f) :=
  Action.blind_ofTask (Task.blind_read fun _ _ h => (h.step hf).2)

theorem unaware_modify {f : Site → Site} (hf : Aside fun s => ((), f s)) :
    Unaware (Action.modify f) :=
  Action.blind_ofTask (Task.blind_modify fun _ _ h => (h.step hf).1)

theorem unaware_await {ready : Site → Bool} {change : Site → Site}
    (hf : Aside fun s => (ready s, change s)) :
    Unaware (Action.ofTask (Task.await ready change)) :=
  Action.blind_ofTask (Task.blind_await (fun _ _ h => (h.step hf).2) fun _ _ h => (h.step hf).1)

/-- Activities on a part that the buckets are none of. -/
theorem unaware_onPart {τ : Type} {p : Part Site τ} (hget : Aside fun s => (p.get s, s))
    (hset : ∀ r, Aside fun s => ((), p.set r s)) (a : Action QuotaError τ α) :
    Unaware (Action.onPart p a) :=
  Task.blind_onPart (fun _ _ h => (h.step hget).2) (fun _ _ r h => (h.step (hset r)).1) a.run

theorem unaware_onLink (a : Link.Client α) : Unaware (onLink a) :=
  unaware_onPart (fun _ => ⟨rfl, fun _ _ => rfl⟩) (fun _ _ => ⟨rfl, fun _ _ => rfl⟩) a

theorem unaware_onArchive (a : Archive.Keeper α) : Unaware (onArchive a) :=
  unaware_onPart (fun _ => ⟨rfl, fun _ _ => rfl⟩) (fun _ _ => ⟨rfl, fun _ _ => rfl⟩) a

theorem Unaware.holding {a : Work α} (ha : Unaware a) : Unaware (Action.holding lock a) := by
  refine Task.Blind.holding ha (fun s s' h => ?_) fun s s' b h => ?_
  · exact (h.step (f := fun s => (lock.get s, s)) fun _ => ⟨rfl, fun _ _ => rfl⟩).2
  · exact (h.step (f := fun s => ((), lock.set b s)) fun _ => ⟨rfl, fun _ _ => rfl⟩).1

theorem unaware_readArchive : Unaware readArchive := by
  refine Unaware.bind (Action.blind_ofTask ?_) fun _ => unaware_onArchive _
  refine Task.Blind.andThen (Task.blind_atOnce fun s s' h _ => ?_) fun late => Task.blind_pause _
  exact h.step (f := fun s => ((slowReads.get s).isHit, slowReads.set (slowReads.get s).called s))
    fun _ => ⟨rfl, fun _ _ => rfl⟩

theorem unaware_apply (config : ServiceConfig) : Unaware (apply config) := by
  refine Unaware.bind (unaware_onLink _).outcome fun r => ?_
  cases r with
  | error e => exact unaware_throw _
  | ok u =>
      exact Unaware.bind (Action.blind_ofTask (Task.blind_modify fun _ _ h => h.install config))
        fun _ => unaware_pure _

theorem unaware_publish (outcome : Outcome) : Unaware (publish outcome) :=
  unaware_modify fun _ => ⟨rfl, fun _ _ => rfl⟩

theorem unaware_loadFirst : Unaware loadFirst := by
  refine Unaware.bind (unaware_modify fun _ => ⟨rfl, fun _ _ => rfl⟩) fun _ =>
    Unaware.bind unaware_readArchive fun content => ?_
  have hload : ∀ config, Unaware (do
      Action.ofExcept (validate config)
      let version ← apply config
      publish (.applied version)) := fun config =>
    Unaware.bind (unaware_ofExcept _) fun _ =>
      Unaware.bind (unaware_apply config) fun _ => unaware_publish _
  cases content with
  | some content => exact Unaware.bind (unaware_ofExcept _) hload
  | none => exact Unaware.bind (unaware_read fun _ => ⟨rfl, fun _ _ => rfl⟩) hload

theorem aside_transition (source target : Lifecycle) : Aside (transition source target) := by
  intro s
  unfold transition
  constructor
  · split
    · rfl
    · rfl
  · intro buckets roster
    change (if s.server.lifecycle = source then _ else _) = _
    split
    · rfl
    · rfl

theorem aside_launch : Aside launch := by
  intro s
  obtain ⟨hactive, hsame⟩ := aside_transition .starting .started { s with
    server.reloader := .waiting
    server.sinceSweep := if s.server.sweepMillis = 0 then none else some 0 }
  exact ⟨hactive, hsame⟩

theorem unaware_start : Unaware start := by
  refine Unaware.bind (unaware_atOnce (aside_transition _ _)) fun _ =>
    Unaware.bind unaware_loadFirst.outcome fun r => ?_
  cases r with
  | error e =>
      exact Unaware.bind (unaware_modify fun _ => ⟨rfl, fun _ _ => rfl⟩) fun _ => unaware_throw e
  | ok u => exact unaware_atOnce aside_launch

theorem unaware_stop : Unaware stop :=
  Unaware.bind (unaware_atOnce (aside_transition _ _)) fun _ =>
    Unaware.bind (unaware_await fun _ => ⟨rfl, fun _ _ => rfl⟩) fun _ => unaware_onLink _

/-- The bucket that is found may be another one in each run, but the answer is the same. -/
theorem unaware_allow (ns bucket : String) (tokens : Int) (maxWait : Nat) :
    Unaware (allow ns bucket tokens maxWait) := by
  refine Task.blind_atOnce_andThen (fun s s' h hlimitless => ?_) fun r => ?_
  · obtain ⟨hafter, hterms⟩ := h.accept hlimitless ns bucket tokens
    refine ⟨hafter, ?_⟩
    generalize (accept ns bucket tokens s).1 = r at hterms
    generalize (accept ns bucket tokens s').1 = r' at hterms
    cases r with
    | error e =>
        cases r' with
        | error e' => rw [Except.error.inj hterms]
        | ok b' => cases hterms
    | ok b =>
        cases r' with
        | error e' => cases hterms
        | ok b' =>
            have hterms := Except.ok.inj hterms
            have hdynamic : b.dynamic = b'.dynamic := congrArg (fun t => t.2.2.2) hterms
            simp only [ExceptT.bindCont, Link.take_congr hterms, hdynamic]
  · cases r with
    | error e => exact unaware_throw e
    | ok b =>
        refine Unaware.bind (unaware_read fun _ => ⟨rfl, fun _ _ => rfl⟩) fun retry =>
          Unaware.bind (unaware_onLink _) fun verdict => ?_
        split
        · exact Unaware.bind (unaware_modify fun _ => ⟨rfl, fun _ _ => rfl⟩) fun _ =>
            unaware_pure _
        · exact unaware_pure _

theorem unaware_persist (user : String) (config : ServiceConfig) :
    Unaware (persist user config) :=
  Unaware.bind (unaware_ofExcept _) fun _ =>
    Unaware.bind (unaware_read fun _ => ⟨rfl, fun _ _ => rfl⟩) fun _ =>
    Unaware.bind unaware_readArchive fun _ =>
    Unaware.bind (unaware_read fun _ => ⟨rfl, fun _ _ => rfl⟩) fun _ => unaware_onArchive _

theorem unaware_latest : Unaware latest := by
  refine Unaware.bind unaware_readArchive fun content => ?_
  cases content with
  | some content => exact unaware_ofExcept _
  | none => exact unaware_read fun _ => ⟨rfl, fun _ _ => rfl⟩

theorem unaware_edit (user : String) (e : Edit) : Unaware (edit user e) := by
  refine Unaware.bind (Unaware.holding ?_) fun _ => ?_
  · exact Unaware.bind unaware_latest fun _ =>
      Unaware.bind (unaware_ofExcept _) fun edited => unaware_persist user edited
  · cases e with
    | deleteNamespace ns => exact unaware_modify fun _ => ⟨rfl, fun _ _ => rfl⟩
    | _ => exact unaware_pure _

theorem unaware_reload : Unaware reload := by
  refine Unaware.bind unaware_readArchive fun content => ?_
  cases content with
  | none => exact unaware_throw _
  | some content =>
      refine Unaware.bind (unaware_ofExcept _) fun config =>
        Unaware.bind (unaware_read fun _ => ⟨rfl, fun _ _ => rfl⟩) fun current => ?_
      obtain ⟨active, wallClock⟩ := current
      dsimp only
      split
      · exact unaware_pure _
      · exact unaware_apply _

theorem unaware_reloadOnce : Unaware reloadOnce := by
  refine Unaware.bind (unaware_await fun _ => ⟨rfl, fun _ _ => rfl⟩) fun _ =>
    Unaware.bind (Unaware.bind unaware_reload.outcome fun r => ?_) fun _ =>
      unaware_modify fun _ => ⟨rfl, fun _ _ => rfl⟩
  cases r with
  | error e => exact unaware_publish _
  | ok version => exact unaware_publish _

/-- No request but one to take idle buckets out of service comes to something else. -/
theorem unaware_perform {r : Request} (h : r ≠ .sweep) : Unaware (perform r) := by
  cases r with
  | start => exact Unaware.bind unaware_start fun _ => unaware_pure _
  | stop => exact Unaware.bind unaware_stop fun _ => unaware_pure _
  | allow ns bucket tokens maxWait =>
      exact Unaware.bind (unaware_allow ns bucket tokens maxWait) fun _ => unaware_pure _
  | update user config =>
      exact Unaware.bind (unaware_persist user config).holding fun _ => unaware_pure _
  | edit user e => exact Unaware.bind (unaware_edit user e) fun _ => unaware_pure _
  | history =>
      exact Unaware.bind (Unaware.bind (unaware_onArchive _) fun _ => unaware_ofExcept _)
        fun _ => unaware_pure _
  | health => exact Unaware.bind (unaware_onLink _) fun _ => unaware_pure _
  | sweep => exact absurd rfl h
  | round => exact Unaware.bind unaware_reloadOnce fun _ => unaware_pure _

/-- A turn in which idle buckets are taken out of service. -/
def isSweep : Turn Request Happening → Bool
  | .outside .sweep => true
  | _ => false

variable {p p' : Pool Request Site (Except QuotaError Reply)} {t : Turn Request Happening}
  {turns turns' : List (Turn Request Happening)}

theorem twins_sweep_left (h : Pool.Twins Alike Limitless p p') (ht : isSweep t = true) :
    Pool.Twins Alike Limitless (p.turn work happen t) p' := by
  unfold isSweep at ht
  split at ht
  · exact h.set_states h.state.sweep_left
  · cases ht

theorem twins_sweeps_right (h : Pool.Twins Alike Limitless p p')
    (hsweeps : ∀ t ∈ turns, isSweep t = true) :
    Pool.Twins Alike Limitless p (p'.play work happen turns) := by
  induction turns generalizing p' with
  | nil => exact h
  | cons t rest ih =>
      rw [List.forall_mem_cons] at hsweeps
      obtain ⟨ht, hrest⟩ := hsweeps
      refine ih ?_ hrest
      unfold isSweep at ht
      split at ht
      · exact h.set_states h.state.sweep_right
      · cases ht

/-- The same turns, with sweeps at any places in both, keep two pools alike. -/
theorem twins_play (h : Pool.Twins Alike Limitless p p')
    (hsame : turns.filter (fun t => !isSweep t) = turns'.filter (fun t => !isSweep t))
    (hasked : ∀ t ∈ turns, t ≠ .join .sweep)
    (hlimitless : ∀ pre, pre <+: turns → (p.play work happen pre).state.Limitless) :
    Pool.Twins Alike Limitless (p.play work happen turns) (p'.play work happen turns') := by
  induction turns generalizing p p' turns' with
  | nil =>
      refine twins_sweeps_right h fun t ht => ?_
      have hnone := List.filter_eq_nil_iff.mp hsame.symm t ht
      simpa using hnone
  | cons t rest ih =>
      obtain ⟨hne, hrest⟩ := List.forall_mem_cons.mp hasked
      have hlater : ∀ pre, pre <+: rest →
          ((p.turn work happen t).play work happen pre).state.Limitless :=
        fun pre hpre => hlimitless (t :: pre) (List.prefix_cons_inj t |>.mpr hpre)
      by_cases ht : isSweep t = true
      · rw [List.filter_cons_of_neg (by simp [ht])] at hsame
        exact ih (twins_sweep_left h ht) hsame hrest hlater
      · -- The other run makes this turn too, after sweeps of its own.
        rw [List.filter_cons_of_pos (by simp [ht])] at hsame
        obtain ⟨sweeps, others, rfl, hsweeps, -, hothers⟩ :=
          List.filter_eq_cons_iff.mp hsame.symm
        have hhere : p.state.Limitless := hlimitless [] (List.nil_prefix)
        have hswept : Pool.Twins Alike Limitless p (p'.play work happen sweeps) :=
          twins_sweeps_right h fun x hx => by simpa using hsweeps x hx
        have hnext : Pool.Twins Alike Limitless (p.turn work happen t)
            ((p'.play work happen sweeps).turn work happen t) :=
          hswept.turn hhere alike_happen fun i hi => unaware_perform fun hsweep =>
            hne (by rw [hi, hsweep])
        have hrun := ih hnext hothers.symm hrest hlater
        rw [Pool.play_append]
        exact hrun

/-- What comes of some turns at a server that nobody has asked for anything. -/
def course (s₀ : Site) (turns : List (Turn Request Happening)) :
    Pool Request Site (Except QuotaError Reply) :=
  Pool.play work happen turns ⟨s₀, []⟩

/-- The courses of turns are the runs in which nothing else happens outside. -/
theorem exists_course_iff {s₀ : Site} :
    (∃ turns, s₀.course turns = p) ↔
      ∃ es, Pool.Run work (fun s s' => ∃ d, happen d s = s') s₀ es p := by
  constructor
  · rintro ⟨turns, rfl⟩
    exact Pool.Run.start.play (fun d _ => ⟨d, rfl⟩) turns
  · rintro ⟨es, h⟩
    exact h.exists_turns fun _ _ hs => hs

/-- Idle dynamic buckets may be taken out of service at any times, in a run of a fresh server or of
one with the buckets of its configuration. As long as no active configuration limits their number,
every caller gets to the same place with the same result, and the store and the counts of hits and
misses are the same. -/
theorem sweeps_transparent {s₀ : Site}
    (hstart : s₀.IsFresh ∨ s₀.server.active.buckets.IsOf s₀.activeConfig)
    (turns turns' : List (Turn Request Happening))
    (hsame : turns.filter (fun t => !isSweep t) = turns'.filter (fun t => !isSweep t))
    (hasked : ∀ t ∈ turns, t ≠ .join .sweep)
    (hunlimited : ∀ pre, pre <+: turns → (s₀.course pre).state.activeConfig.Unlimited) :
    (s₀.course turns').callers = (s₀.course turns).callers ∧
      (s₀.course turns').state.link = (s₀.course turns).state.link ∧
      (s₀.course turns').state.server.stats = (s₀.course turns).state.server.stats := by
  have hnobody : Pool.Twins Alike Limitless ⟨s₀, []⟩
      (⟨s₀, []⟩ : Pool Request Site (Except QuotaError Reply)) :=
    ⟨alike_self hstart, rfl, fun c hc => absurd hc List.not_mem_nil⟩
  have htwins : Pool.Twins Alike Limitless (s₀.course turns) (s₀.course turns') :=
    twins_play hnobody hsame hasked hunlimited
  obtain ⟨buckets, roster, hstate, -⟩ := htwins.state
  rw [hstate]
  exact ⟨htwins.callers, rfl, rfl⟩

/-- A bucket is taken out of service between two requests for it, in one of two runs. -/
theorem sweeps_transparent_remade :
    let ns : NamespaceConfig := { NamespaceConfig.ofName "api" with template := some (.ofRate 1 2) }
    let c : ServiceConfig := ⟨1, 1, "", none, (∅ : NameMap NamespaceConfig).insert "api" ns⟩
    let made := fresh (.ofStorage (.shelf .empty))
    let s₀ : Site := { made with
      server.lifecycle := .started
      server.active := ⟨c, (Container.make c .empty).1⟩
      server.reloader := .waiting
      link.connections.current := some ⟨0, 1, "take"⟩
      link.backend.store.scripts := ["take"] }
    let take (n : Nat) : List (Turn Request Happening) :=
      .join (.allow "api" "a" 1 0) :: List.replicate 5 (.next n)
    let turns := take 0 ++ take 1
    let turns' := take 0 ++ (.outside .sweep :: .outside .sweep :: take 1)
    (s₀.course turns).state.roster.destroyed = [] ∧
      (s₀.course turns').state.roster.destroyed = [0] ∧
      (s₀.course turns).state.server.stats.scores? "api" "a" = some ⟨2, 0⟩ ∧
      (s₀.course turns').callers = (s₀.course turns).callers ∧
      (s₀.course turns').state.link = (s₀.course turns).state.link ∧
      (s₀.course turns').state.server.stats = (s₀.course turns).state.server.stats := by
  intro ns c made s₀ take turns turns'
  have hconfig : ∀ n < 13, (s₀.course (turns.take n)).state.activeConfig = c := by
    decide +kernel
  have hunlimited : c.Unlimited := by
    intro key nc hns _
    change ((∅ : NameMap NamespaceConfig).insert "api" ns).get? key = some nc at hns
    rw [NameMap.get?_insert] at hns
    split at hns
    · cases hns
      rfl
    · cases hns
  have hasked : ∀ t ∈ turns, t ≠ .join .sweep := by
    simp [turns, take]
  refine ⟨by decide +kernel, by decide +kernel, by decide +kernel, ?_⟩
  refine sweeps_transparent (.inr ⟨Container.serves_make c .empty, Container.lawful_make c .empty⟩)
    turns turns' rfl hasked fun pre hpre => ?_
  rw [List.prefix_iff_eq_take.mp hpre, hconfig _ (Nat.lt_succ_of_le hpre.length_le)]
  exact hunlimited

end Site

end TokenQuota
