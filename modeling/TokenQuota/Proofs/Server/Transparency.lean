import TokenQuota.Proofs.Server.Tallying

/-!
Reloads do not show in the buckets that they do not change. Whatever requests come together, those
for such a bucket are answered, one after the other, as if they were all that was ever made.
-/

namespace TokenQuota

namespace Site

open TokenQuota.Task (Ends)

/-- The requests for the tokens of a bucket in a run, in the order in which the store decided them,
each with the place of its caller. -/
structure IsLog (b : Bucket) (es : List (Event Site))
    (p : Pool Request Site (Except QuotaError Reply)) (takes : List (Nat × Receipt)) : Prop where
  /-- Each was decided at a step of its own caller, at the reading of the clock then. -/
  order : (takes.map fun x => (x.1, x.2.visit.now)).Sublist
    (es.map fun e => (e.caller, e.before.link.backend.now))
  once : (takes.map Prod.fst).Nodup
  asked : ∀ n t, (n, t) ∈ takes → t.bucket.terms = b.terms ∧
    FoundFirst es n t.visit.ns t.visit.name t.visit.requested t.bucket ∧
    ∃ rest, p.callers[n]? =
      some ⟨.allow t.visit.ns t.visit.name t.visit.requested t.visit.maxWait, rest⟩
  /-- None is missing: whoever asked for the bucket and is done was answered. -/
  answered : ∀ (n : Nat) (ns name : String) (tokens : Int) (maxWait : Nat)
    (r : Except QuotaError Reply) (found : Bucket),
    p.callers[n]? = some ⟨.allow ns name tokens maxWait, .done r⟩ →
    FoundFirst es n ns name tokens found → found.terms = b.terms →
      ∃ now v, r = .ok (.verdict v) ∧
        (n, ⟨⟨ns, name, tokens, maxWait, now⟩, found, some (.ok v)⟩) ∈ takes

variable {b : Bucket} {elapse : Nat → Link → Link} {retry : Retry} {s₀ s : Site}
  {es : List (Event Site)} {p : Pool Request Site (Except QuotaError Reply)}
  {roles : List (Request × Stage)} {takes : List (Nat × Receipt)}

theorem pair_apply {config : ServiceConfig} {l : List (Site × Site)}
    {r : Except QuotaError UInt64} (hns : ':' ∉ b.ns.toList) (h : Ends (apply config).run l r)
    (hoffers : ∀ c ∈ l, c.2.activeConfig.Offers b.terms) :
    ∀ c ∈ l, c.2.link.pair b.keys = c.1.link.pair b.keys := by
  cases r with
  | error e =>
      obtain ⟨e', -, hprepare⟩ := ends_apply_error h
      exact fun c hc => Store.pair_congr (unapplied_of_ends_prepare hprepare c hc).cells b.keys
  | ok v =>
      obtain ⟨prepare, s, rfl, hprepare⟩ := ends_apply_ok h
      rw [List.forall_mem_append] at hoffers ⊢
      have haccounts : config.Accounts b.ns b.name :=
        ServiceConfig.accounts_of_offers (hoffers.2 _ List.mem_cons_self)
      have hchanges : (onLink (Link.prepare config)).run.Changes fun s s' =>
          s'.link.pair b.keys = s.link.pair b.keys :=
        Task.Changes.onPart (fun _ _ hpair => hpair) (Link.pair_prepare haccounts hns)
      refine ⟨hchanges.of_steps hprepare, fun c hc => ?_⟩
      cases List.mem_singleton.mp hc
      rfl

/-- A round after each step of which a bucket is offered has not touched its cells. -/
theorem pair_round {l attempt : List (Site × Site)} {r : Except QuotaError UInt64}
    (hns : ':' ∉ b.ns.toList) (h : IsRound l attempt r)
    (hoffers : ∀ c ∈ l, c.2.activeConfig.Offers b.terms) :
    ∀ c ∈ l, c.2.link.pair b.keys = c.1.link.pair b.keys := by
  obtain ⟨s₁, s₂, s₃, -, rfl⟩ := h.changes
  have hattempt : ∀ c ∈ attempt, c.2.link.pair b.keys = c.1.link.pair b.keys := by
    have hunapplied : (∀ c ∈ attempt, Unapplied c.1 c.2) →
        ∀ c ∈ attempt, c.2.link.pair b.keys = c.1.link.pair b.keys :=
      fun hall c hc => Store.pair_congr (hall c hc).cells b.keys
    -- Only an attempt that puts its configuration in place has cleaned the store.
    cases course_of_ends h.ends with
    | unread hread => exact hunapplied (unapplied_of_error h.ends)
    | nothing hread => exact hunapplied (unapplied_of_error h.ends)
    | illFormed hread hdecode => exact hunapplied (unapplied_of_error h.ends)
    | unchanged hall => exact hunapplied hall
    | @applying config before rest r hparts hbefore happly =>
        subst hparts
        rw [List.forall_mem_append]
        refine ⟨fun c hc => Store.pair_congr (hbefore c hc).cells b.keys, ?_⟩
        exact pair_apply hns happly fun c hc => hoffers c (by simp [hc])
  rw [List.forall_mem_cons, List.forall_mem_append]
  exact ⟨rfl, hattempt, by simp [report, leaveOff]⟩

/-- Rounds that came to their ends have not touched the cells of a bucket that is offered all the
time. -/
theorem untouched_of_run (hns : ':' ∉ b.ns.toList) (hrun : Pool.Run work Elsewhere s₀ es p)
    (hsame : ∀ e ∈ es, e.before.activeConfig.Offers b.terms)
    (hlast : p.state.activeConfig.Offers b.terms)
    (hrounds : ∀ n t, p.callers[n]? = some ⟨.round, t⟩ →
      Pool.changesOf n es = [] ∨ ∃ r, t = .done r)
    {Q : Request → Stage → Except QuotaError Reply → Site → Prop}
    (hguarded : Pool.Guarded (Taking.rules b) Q roles p) : Untouched b roles es := by
  have hafter : ∀ e ∈ es, e.after.activeConfig.Offers b.terms := by
    refine hrun.holds_after (K := fun s => s.activeConfig.Offers b.terms) ?_ hsame hlast
    rintro s _ ⟨now, archive, wallClock, rfl⟩ hoffers
    exact hoffers
  intro e he hround
  obtain ⟨⟨i, t⟩, hn⟩ : ∃ c, p.callers[e.caller]? = some c :=
    ⟨_, List.getElem?_eq_getElem (hrun.caller_lt e he)⟩
  obtain ⟨m, hm, -⟩ := hguarded.safe _ _ hn
  obtain rfl : i = .round := by
    rw [List.getElem?_map, hm] at hround
    exact Option.some.inj hround
  have hmem := Pool.mem_changesOf he
  -- The round has come to its end, so that its steps are those of a whole round.
  rcases hrounds _ t hn with hnone | ⟨r, rfl⟩
  · rw [hnone] at hmem
    cases hmem
  · obtain ⟨attempt, result, hisRound⟩ := isRound_of_ends (hrun.steps hn)
    refine pair_round hns hisRound (fun c hc => ?_) _ hmem
    obtain ⟨e', he', -, rfl⟩ := Pool.mem_of_mem_changesOf hc
    exact hafter e' he'

theorem isLog_of_tally (h : Tallied b elapse retry s₀ p.state roles es)
    (htakes : IsTally b elapse retry s₀ s roles es takes)
    (hguarded : Pool.Guarded (Taking.rules b)
      (fun i m r _ => isTake i = true → Taking.Concludes m r) roles p) :
    IsLog b es p takes := by
  refine ⟨htakes.order, htakes.once, fun n t ht => ?_, ?_⟩
  · obtain ⟨⟨⟨i, m⟩, hm, hreceipt⟩, hterms⟩ := (htakes.mem n t).mp ht
    have hlt : n < p.callers.length := by
      rw [hguarded.length_eq]
      exact (List.getElem?_eq_some_iff.mp hm).1
    obtain ⟨⟨j, rest⟩, hn⟩ : ∃ c, p.callers[n]? = some c := ⟨_, List.getElem?_eq_getElem hlt⟩
    obtain ⟨m', hm', -⟩ := hguarded.safe n _ hn
    obtain ⟨rfl, rfl⟩ := Prod.mk.inj (Option.some.inj (hm.symm.trans hm'))
    obtain ⟨v, rfl, rfl, -⟩ := receipt?_eq_some hreceipt
    cases h.stages n _ _ hm with
    | other hi => cases hi
    | answered hfound => exact ⟨hterms, hfound, rest, hn⟩
  · intro n ns name tokens maxWait r found hn hfound hterms
    obtain ⟨m, hm, hsafe⟩ := hguarded.safe n _ hn
    rcases hsafe p.state h.up (fun _ hscript => hscript) rfl with ⟨rfl, e, rfl⟩ |
      ⟨b', now, v, rfl, rfl⟩
    · cases h.stages n _ _ hm with
      | other hi => cases hi
      | refused hfirst haccept =>
          obtain ⟨c, hfirst', haccept'⟩ := hfound
          obtain rfl := Option.some.inj (hfirst.symm.trans hfirst')
          rw [haccept] at haccept'
          cases haccept'
    · cases h.stages n _ _ hm with
      | other hi => cases hi
      | answered hfound' =>
          obtain rfl := hfound.unique hfound'
          exact ⟨now, v, rfl, (htakes.mem n _).mpr ⟨⟨_, hm, rfl⟩, hterms⟩⟩

/-- Requests of all kinds come to a server that is up, over a link on which no call of a request
fails, and every round that has begun has come to its end. A bucket that the configuration offers
all the time, whatever else is changed, answers its requests, and has the cells, as if these
requests were all that was made, at the same readings of the clock. -/
theorem reload_transparency (b : Bucket) (hup : s₀.IsUp)
    (hunlocked : s₀.link.connections.locked = false)
    (hrun : Pool.Run work Elsewhere s₀ es p)
    (hsame : ∀ e ∈ es, e.before.activeConfig.Offers b.terms)
    (hlast : p.state.activeConfig.Offers b.terms)
    (hrounds : ∀ n t, p.callers[n]? = some ⟨.round, t⟩ →
      Pool.changesOf n es = [] ∨ ∃ r, t = .done r) (elapse : Nat → Link → Link) (retry : Retry) :
    ∃ takes, IsLog b es p takes ∧
      let alone := Link.answers elapse retry (takes.map fun x => (x.2.visit, b)) s₀.link
      alone.1.map Receipt.answer = takes.map (fun x => x.2.answer) ∧
        alone.2.pair b.keys = p.state.link.pair b.keys := by
  obtain ⟨roles, htallied, hguarded⟩ := tallied_of_run b elapse retry hup hunlocked hrun hsame
  obtain ⟨takes, htakes⟩ := htallied.tally
  have hns : ':' ∉ b.ns.toList :=
    ServiceConfig.separator_notMem_of_offers htallied.up.isServed.check hlast
  refine ⟨takes, isLog_of_tally htallied htakes hguarded, htakes.alone ?_⟩
  exact untouched_of_run hns hrun hsame hlast hrounds hguarded

/-- A request that finds a bucket on a working link is answered when nobody comes between. -/
theorem runsTo_allow {ns bucket : String} {tokens : Int} (maxWait : Nat) (hs : s.link.Works)
    (haccept : (accept ns bucket tokens s).1 = .ok b) :
    ∃ v s', (work (.allow ns bucket tokens maxWait)).RunsTo s (.ok (.verdict v)) s' := by
  have hfound := Action.runsTo_atOnce (accept ns bucket tokens) s
  rw [haccept] at hfound
  obtain ⟨hlink, -, -⟩ := accept_spec ns bucket tokens s
  generalize (accept ns bucket tokens s).2 = s₁ at hfound hlink
  rw [← hlink] at hs
  obtain ⟨l', htake, -, -⟩ := Link.runsTo_take hs s₁.server.retry b tokens maxWait
  generalize Verdict.ofResult _ = v at htake
  have hverdict := htake.onPart (p := linkPart) (s := s₁) ⟨rfl, fun _ => rfl, fun _ _ => rfl⟩ rfl
  have hcount : ∃ s', (do
      if b.dynamic then
        Action.modify fun s =>
          { s with server.stats := s.server.stats.record ns bucket v.admitted }
      return v : Work Verdict).run.RunsTo { s₁ with link := l' } (.ok v) s' := by
    cases b.dynamic with
    | false => exact ⟨_, .done _ _⟩
    | true => exact ⟨_, Action.runsTo_bind (Action.runsTo_modify _ _) (.done _ _)⟩
  obtain ⟨s', hcount⟩ := hcount
  refine ⟨v, s', Action.runsTo_bind ?_ (.done _ _)⟩
  exact Action.runsTo_bind hfound (Action.runsTo_bind (Action.runsTo_read _ _)
    (Action.runsTo_bind hverdict hcount))

/-- However far a run has come, a request that finds a bucket then is answered when nobody comes
between, and leaves the configuration as it is. -/
theorem run_allow (hup : s₀.IsUp) (hunlocked : s₀.link.connections.locked = false)
    (hrun : Pool.Run work Elsewhere s₀ es p)
    (hsame : ∀ s ∈ es.map Event.before, s.activeConfig.Offers b.terms)
    (hlast : p.state.activeConfig.Offers b.terms)
    (hfree : p.state.link.connections.locked = false) {ns bucket : String} {tokens : Int}
    (hfound : (accept ns bucket tokens p.state).1.isOk = true) (maxWait : Nat) :
    ∃ es' s' v, Pool.Run work Elsewhere s₀ es' ⟨s', p.callers ++
        [⟨.allow ns bucket tokens maxWait, .done (.ok (.verdict v))⟩]⟩ ∧
      (∀ s ∈ es'.map Event.before, s.activeConfig.Offers b.terms) ∧
      s'.activeConfig = p.state.activeConfig := by
  obtain ⟨b', haccept⟩ : ∃ b', (accept ns bucket tokens p.state).1 = .ok b' := by
    cases hresult : (accept ns bucket tokens p.state).1 with
    | ok b' => exact ⟨b', rfl⟩
    | error e =>
        rw [hresult] at hfound
        cases hfound
  obtain ⟨roles, htallied, -⟩ := tallied_of_run b (fun _ l => l) s₀.server.retry hup hunlocked hrun
    fun e he => hsame _ (List.mem_map_of_mem he)
  obtain ⟨v, s', hruns⟩ := runsTo_allow maxWait
    ⟨hfree, htallied.up.link.backend, htallied.up.link.current⟩ haccept
  have hends := hruns.run fun _ s => s
  obtain ⟨es', r, hrun', hresult, hvisits⟩ :=
    hrun.joinAndFinish (.allow ns bucket tokens maxWait) (by rw [hends]; rfl)
  obtain ⟨hconfigs, hconfig⟩ := Task.Changes.holds_of_run
    (K := fun s => s.activeConfig = p.state.activeConfig)
    (undisturbed_work (rfl : isMinor (.allow ns bucket tokens maxWait) = true))
    (fun _ _ h hs => h.server.config.trans hs) rfl
  rw [hends] at hrun' hresult hconfig
  cases hresult
  refine ⟨es', s', v, hrun', ?_, hconfig⟩
  rw [hvisits, List.forall_mem_append]
  exact ⟨hsame, fun s hs => hconfigs s hs ▸ hlast⟩

/-- A reload takes one of two buckets away. The other one is asked for before and after it. -/
theorem reload_transparency_removed :
    let bucket : BucketConfig := .ofRate 10 5
    let ns := (NamespaceConfig.ofName "api").withBucket "a" bucket
    let both : ServiceConfig :=
      ⟨1, 1, "", none, (∅ : NameMap NamespaceConfig).insert "api" (ns.withBucket "b" bucket)⟩
    let one : ServiceConfig := ⟨2, 1, "", none, (∅ : NameMap NamespaceConfig).insert "api" ns⟩
    let made := fresh ⟨.shelf ⟨some "next", (∅ : NameMap Bytes).insert "next" one.write, ["next"]⟩,
      true, false⟩
    let s₀ : Site := { made with
      server.lifecycle := .started
      server.active := ⟨both, (Container.make both .empty).1⟩
      server.reloader := .waiting
      link.connections.current := some ⟨0, 1, "take"⟩
      link.backend.store.scripts := ["take"] }
    let b : Bucket := ⟨0, "api", "a", bucket, false⟩
    ∃ es p, Pool.Run work Elsewhere s₀ es p ∧
      p.callers.map Caller.request = [.allow "api" "a" 4 0, .round, .allow "api" "a" 1 0] ∧
      p.state.activeConfig = one ∧ ∃ takes, IsLog b es p takes ∧
        let alone := Link.answers (fun _ l => l) s₀.server.retry
          (takes.map fun x => (x.2.visit, b)) s₀.link
        alone.1.map Receipt.answer = takes.map (fun x => x.2.answer) ∧
          alone.2.pair b.keys = p.state.link.pair b.keys := by
  intro bucket ns both one made s₀ b
  have hup : s₀.IsUp := by
    refine ⟨.inl rfl, ⟨by decide +kernel, Container.serves_make both .empty⟩,
      Container.lawful_make both .empty, ⟨fun _ => rfl, fun _ => rfl, fun _ => rfl, fun _ => rfl,
        fun _ => rfl, ?_⟩, ?_⟩
    · rintro name ⟨⟩
      exact List.mem_cons_self
    · rintro h ⟨⟩
      exact List.mem_cons_self
  have hboth : both.Offers b.terms :=
    .named (show both.namespaces.get? "api" = some (ns.withBucket "b" bucket) by decide +kernel)
      (by decide +kernel)
  have hone : one.Offers b.terms :=
    .named (show one.namespaces.get? "api" = some ns by decide +kernel) (by decide +kernel)
  have h₀ : Pool.Run work Elsewhere s₀ [] ⟨s₀, []⟩ := .start
  obtain ⟨es₁, r₁, h₁, -, hvisits₁⟩ :=
    h₀.joinAndFinish (.allow "api" "a" 4 0) (by decide +kernel)
  -- The states are named, so that they are looked into only where something is computed.
  obtain ⟨s₁, hs₁⟩ : ∃ s, s = ((work (.allow "api" "a" 4 0)).run (fun _ s => s) s₀).2 := ⟨_, rfl⟩
  rw [← hs₁] at h₁
  have hends₂ : ((work .round).run (fun _ s => s) s₁).1.isSome = true := by
    rw [hs₁]
    decide +kernel
  obtain ⟨es₂, r₂, h₂, -, hvisits₂⟩ := h₁.joinAndFinish .round hends₂
  obtain ⟨s₂, hs₂⟩ : ∃ s, s = ((work .round).run (fun _ s => s) s₁).2 := ⟨_, rfl⟩
  rw [← hs₂] at h₂
  have hsame₂ : ∀ s ∈ es₂.map Event.before, s.activeConfig.Offers b.terms := by
    have hall : ∀ s ∈ (work (.allow "api" "a" 4 0)).visits s₀ ++ (work .round).visits s₁,
        s.activeConfig = both ∨ s.activeConfig = one := by
      rw [hs₁]
      decide +kernel
    rw [hvisits₂, hvisits₁]
    intro s hs
    rcases hall s hs with hconfig | hconfig
    · exact hconfig ▸ hboth
    · exact hconfig ▸ hone
  have hconfig₂ : s₂.activeConfig = one := by
    rw [hs₂, hs₁]
    decide +kernel
  have hfree₂ : s₂.link.connections.locked = false := by
    rw [hs₂, hs₁]
    decide +kernel
  have hfound₂ : (accept "api" "a" 1 s₂).1.isOk = true := by
    rw [hs₂, hs₁]
    decide +kernel
  obtain ⟨es₃, s₃, v, h₃, hsame₃, hconfig₃⟩ :=
    run_allow (b := b) hup rfl h₂ hsame₂ (hconfig₂ ▸ hone) hfree₂ hfound₂ 0
  have hlast₃ : s₃.activeConfig.Offers b.terms := hconfig₃ ▸ hconfig₂ ▸ hone
  refine ⟨es₃, _, h₃, rfl, hconfig₃.trans hconfig₂, reload_transparency b hup rfl h₃
    (fun e he => hsame₃ _ (List.mem_map_of_mem he)) hlast₃ ?_ _ _⟩
  intro n t hn
  rcases n with - | - | - | n
  · cases hn
  · cases hn
    exact .inr ⟨r₂, rfl⟩
  · cases hn
  · cases hn

end Site

end TokenQuota
