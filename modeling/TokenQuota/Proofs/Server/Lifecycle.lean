import TokenQuota.Proofs.Server.Phases
import TokenQuota.Proofs.Server.Rounds

/-!
The life of a server. It is started once and stopped once, a start that fails leaves it as it was,
and after it was stopped nothing that happens shows.
-/

namespace TokenQuota

namespace Site

open TokenQuota.Task (Ends Steps)

/-- What is applied and what was reported are the same, and so are the cells in the store. -/
structure AsBefore (s s' : Site) : Prop extends Unapplied s s' where
  outcome : s'.server.outcome = s.server.outcome

theorem covers_asBefore : Covers AsBefore where
  refl _ := ⟨⟨rfl, rfl⟩, rfl⟩
  late _ _ := ⟨⟨rfl, rfl⟩, rfl⟩
  archive _ _ := ⟨⟨rfl, rfl⟩, rfl⟩
  lock _ _ := ⟨⟨rfl, rfl⟩, rfl⟩
  stats _ _ := ⟨⟨rfl, rfl⟩, rfl⟩

variable {l : List (Site × Site)} {e : QuotaError}

theorem asBefore_of_ends_apply {config : ServiceConfig}
    (h : Ends (apply config).run l (.error e)) : ∀ c ∈ l, AsBefore c.1 c.2 := by
  obtain ⟨e', -, hprepare⟩ := ends_apply_error h
  have hlink : CoversLink fun s s' => s'.server.outcome = s.server.outcome := ⟨fun _ _ => rfl⟩
  intro c hc
  exact ⟨unapplied_of_ends_prepare hprepare c hc,
    (hlink.changes_onLink _).of_steps hprepare c hc⟩

/-- To load the first configuration succeeds, or else leaves all as it was. -/
theorem asBefore_of_ends_loadFirst (h : Ends loadFirst.run l (.error e)) :
    ∀ c ∈ l, AsBefore c.1 c.2 := by
  have happly : ∀ config l, Ends (do
      let version ← apply config
      publish (.applied version) : Work Unit).run l (.error e) → ∀ c ∈ l, AsBefore c.1 c.2 := by
    intro config l h
    rcases Action.ends_bind h with ⟨v, l₁, l₂, rfl, -, hpublish⟩ | ⟨e', he, happly⟩
    · obtain ⟨u, heq, -⟩ := Action.ends_ofTask hpublish
      cases heq
    · cases he
      exact asBefore_of_ends_apply happly
  have hfirst : ∀ config l, Ends (do
      Action.ofExcept (validate config)
      let version ← apply config
      publish (.applied version) : Work Unit).run l (.error e) → ∀ c ∈ l, AsBefore c.1 c.2 :=
    fun config _ => Action.changes_of_ends_error (Action.changes_ofExcept _ _)
      fun _ => happly config
  refine Action.changes_of_ends_error ?_ (fun _ l h => ?_) h
  · exact Action.changes_ofTask (Task.changes_modify fun _ => ⟨⟨rfl, rfl⟩, rfl⟩)
  · refine Action.changes_of_ends_error covers_asBefore.changes_readArchive ?_ h
    rintro (_ | content) l h
    · exact Action.changes_of_ends_error (covers_asBefore.changes_read _) hfirst h
    · exact Action.changes_of_ends_error (Action.changes_ofExcept _ _) hfirst h

/-- So does a start, whether it was refused or could not load. -/
theorem asBefore_of_ended {φ : Phase} {n : Nat} (h : φ.Ended n l .start (.error e)) :
    ∀ c ∈ l, AsBefore c.1 c.2 := by
  cases h with
  | refused hl =>
      intro c hc
      rw [hl c hc]
      exact covers_asBefore.refl c.1
  | failed hload =>
      intro c hc
      rcases List.mem_cons.mp hc with rfl | hc
      · exact ⟨⟨rfl, rfl⟩, rfl⟩
      · rcases List.mem_append.mp hc with hc | hc
        · exact asBefore_of_ends_loadFirst hload c hc
        · rw [List.mem_singleton.mp hc]
          exact ⟨⟨rfl, rfl⟩, rfl⟩

/-- To stop the server is to end its loops. -/
theorem ended_of_ends_stop {r : Reply} (h : Ends (work .stop) l (.ok r)) :
    ∃ c ∈ l, c.2.server.reloader = .ended := by
  rw [work_stop] at h
  obtain ⟨s, l', rfl, -, hrest⟩ := Task.ends_step h
  cases hmoved : (transition .started .stopped s).1 with
  | error e =>
      rw [hmoved] at hrest
      obtain ⟨-, heq⟩ := Task.ends_done hrest
      cases heq
  | ok u =>
      rw [hmoved] at hrest
      rcases Action.ends_bind hrest with ⟨u', l₁, l₂, rfl, hloops, -⟩ | ⟨e, heq, -⟩
      · obtain ⟨u'', -, hawait⟩ := Action.ends_ofTask hloops
        obtain ⟨s', rfl, -⟩ := Task.ends_await hawait
        exact ⟨_, List.mem_cons_of_mem _ List.mem_cons_self, rfl⟩
      · cases heq

/-- A request for tokens that comes while the server does not run is refused at once. -/
theorem refused_of_steps_allow {ns bucket : String} {tokens : Int} {maxWait : Nat}
    {c : Site × Site} {t : Task Site (Except QuotaError Reply)}
    (h : Steps (work (.allow ns bucket tokens maxWait)) (c :: l) t)
    (hc : c.1.server.lifecycle ≠ .started) :
    c.2 = c.1 ∧ l = [] ∧ t = .done (.error (.lifecycle "Server is not started")) := by
  change Steps (Task.step _ _ _) _ _ at h
  cases h with
  | @step _ _ _ s _ _ hready rest =>
      have haccept : accept ns bucket tokens s =
          (.error (.lifecycle "Server is not started"), s) := if_pos hc
      change Steps (((Task.done (accept ns bucket tokens s).1).andThen _).andThen _) _ _ at rest
      rw [haccept] at rest
      refine ⟨congrArg Prod.snd haccept, ?_⟩
      cases rest with
      | refl => exact ⟨rfl, rfl⟩

/-- A caller has come to its end, and did not fail. -/
def HasReturned (p : Pool Request Site (Except QuotaError Reply)) (n : Nat) (i : Request) : Prop :=
  ∃ r, p.callers[n]? = some ⟨i, .done (.ok r)⟩

/-- The steps so far go by the rules of a server's life. -/
structure IsOrderly (es : List (Event Site)) (p : Pool Request Site (Except QuotaError Reply)) :
    Prop where
  /-- The stage of life changes from phase to phase only. -/
  lived : ∃ φ, Phase.Lived p.callers es φ ∧ p.state.server.lifecycle = φ.lifecycle
  startedOnce : ∀ n k, HasReturned p n .start → HasReturned p k .start → n = k
  stoppedOnce : ∀ n k, HasReturned p n .stop → HasReturned p k .stop → n = k
  /-- A start that succeeds takes all its steps before those of the stop that succeeds. -/
  stoppedAfter : ∀ k, HasReturned p k .stop → ∃ n, HasReturned p n .start ∧
    es.Pairwise fun e e' => e.caller = k → e'.caller ≠ n
  /-- A start that fails leaves all as it was. -/
  failed : ∀ n e, p.callers[n]? = some ⟨.start, .done (.error e)⟩ →
    ∀ c ∈ Pool.changesOf n es, AsBefore c.1 c.2
  refused : ∀ n ns bucket tokens maxWait t c l,
    p.callers[n]? = some ⟨.allow ns bucket tokens maxWait, t⟩ → Pool.changesOf n es = c :: l →
      c.1.server.lifecycle ≠ .started →
        c.2 = c.1 ∧ l = [] ∧ t = .done (.error (.lifecycle "Server is not started"))
  /-- After the last step of the stop that succeeds, nothing is applied or reported any more. -/
  settled : ∀ k before x after, HasReturned p k .stop → es = before ++ x :: after → x.caller = k →
    (∀ e ∈ after, e.caller ≠ k) →
      (∀ e ∈ after, Staging.EndedAs x.after e.before ∧ Staging.Settled e.before e.after) ∧
        Staging.EndedAs x.after p.state

variable {s₀ : Site} {es : List (Event Site)} {p : Pool Request Site (Except QuotaError Reply)}

theorem ended_of_hasReturned (hrun : Pool.Run work Meanwhile s₀ es p) {k : Nat}
    (hk : HasReturned p k .stop) : ∃ y ∈ es, y.caller = k ∧ y.after.server.reloader = .ended := by
  obtain ⟨r, hr⟩ := hk
  obtain ⟨c, hc, hended⟩ := ended_of_ends_stop (hrun.steps hr)
  obtain ⟨y, hy, hcaller, rfl⟩ := Pool.mem_of_mem_changesOf hc
  exact ⟨y, hy, hcaller, hended⟩

/-- The last step of the stop that succeeds leaves the loops ended. -/
theorem ended_of_last (hfresh : s₀.IsFresh) (hrun : Pool.Run work Meanwhile s₀ es p) {k : Nat}
    (hk : HasReturned p k .stop) {before after : List (Event Site)} {x : Event Site}
    (hes : es = before ++ x :: after) (hafter : ∀ e ∈ after, e.caller ≠ k) :
    x.after.server.reloader = .ended := by
  obtain ⟨y, hy, hcaller, hended⟩ := ended_of_hasReturned hrun hk
  obtain ⟨hpairwise, -⟩ := Staging.settled_of_ended hfresh hrun
  subst hes
  obtain ⟨-, -, hbefore⟩ := List.pairwise_append.mp hpairwise
  rcases List.mem_append.mp hy with hy | hy
  · obtain ⟨hended', hsettled⟩ := hbefore y hy x List.mem_cons_self hended
    exact hsettled.reloader.trans hended'.reloader
  · rcases List.mem_cons.mp hy with rfl | hy
    · exact hended
    · exact absurd hcaller (hafter y hy)

/-- However starts, stops and all other requests come between each other, a server lives by the
rules. -/
theorem lifecycle_orderly (hfresh : s₀.IsFresh) (hrun : Pool.Run work Meanwhile s₀ es p) :
    IsOrderly es p := by
  obtain ⟨φ, hφ⟩ := Phase.exists_describes hfresh hrun
  constructor
  · exact ⟨φ, hφ.lived, hφ.lifecycle⟩
  · rintro n k ⟨r, hn⟩ ⟨r', hk⟩
    exact Option.some.inj ((hφ.fits n _ _ hn).starter.symm.trans (hφ.fits k _ _ hk).starter)
  · rintro n k ⟨r, hn⟩ ⟨r', hk⟩
    obtain ⟨m, hm⟩ := (hφ.fits n _ _ hn).stopper
    obtain ⟨m', hm'⟩ := (hφ.fits k _ _ hk).stopper
    cases hm.symm.trans hm'
    rfl
  · rintro k ⟨r, hk⟩
    obtain ⟨n, rfl⟩ := (hφ.fits k _ _ hk).stopper
    exact ⟨n, ⟨.done, hφ.lived.starter rfl⟩, hφ.order n k rfl⟩
  · intro n e hn
    exact asBefore_of_ended ((hφ.fits n _ _ hn).ended (.inl rfl))
  · intro n ns bucket tokens maxWait t c l hn hl
    have hsteps := hrun.steps hn
    rw [hl] at hsteps
    exact refused_of_steps_allow hsteps
  · intro k before x after hk hes _ hafter
    have hended := ended_of_last hfresh hrun hk hes hafter
    obtain ⟨hpairwise, hlast⟩ := Staging.settled_of_ended hfresh hrun
    subst hes
    obtain ⟨-, htail, -⟩ := List.pairwise_append.mp hpairwise
    refine ⟨fun e he => (List.pairwise_cons.mp htail).1 e he hended, hlast x (by simp) hended⟩

/-- A server is started and stopped again. Both calls succeed, so no others ever do. -/
theorem lifecycle_orderly_stopped : ∃ es p,
    Pool.Run work Meanwhile (fresh (.ofStorage (.shelf .empty))) es p ∧ IsOrderly es p ∧
      HasReturned p 0 .start ∧ HasReturned p 1 .stop := by
  have h₀ : Pool.Run work Meanwhile (fresh (.ofStorage (.shelf .empty))) []
      ⟨fresh (.ofStorage (.shelf .empty)), []⟩ := .start
  let started := ((work .start).run (fun _ s => s) (fresh (.ofStorage (.shelf .empty)))).2
  have hok : ∀ {o : Option (Except QuotaError Reply)} {r : Except QuotaError Reply},
      o = some r → o.any Except.isOk = true → ∃ reply, r = .ok reply := by
    rintro o (e | reply) rfl hr
    · cases hr
    · exact ⟨reply, rfl⟩
  obtain ⟨es₁, r₁, h₁, hr₁, -⟩ := h₀.joinAndFinish .start (by decide +kernel)
  have hends : ((work .stop).run (fun _ s => s) started).1.isSome = true := by decide +kernel
  obtain ⟨es₂, r₂, h₂, hr₂, -⟩ := h₁.joinAndFinish .stop hends
  have hstopped : ((work .stop).run (fun _ s => s) started).1.any Except.isOk = true := by
    decide +kernel
  obtain ⟨first, rfl⟩ := hok hr₁ (by decide +kernel)
  obtain ⟨second, rfl⟩ := hok hr₂ hstopped
  exact ⟨es₂, _, h₂, lifecycle_orderly (isFresh_fresh _) h₂, ⟨first, rfl⟩, ⟨second, rfl⟩⟩

end Site

end TokenQuota
