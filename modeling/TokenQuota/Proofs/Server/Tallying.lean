import TokenQuota.Proofs.Server.Taking

/-!
The requests for one bucket in a run, in the order in which the store decided them. Made alone in
that order, at the same readings of the clock, they have the same answers and leave the same cells,
as long as no round has touched these.
-/

namespace TokenQuota

namespace Site

/-- Around a server time goes by and outsiders write to the archive, but the store is its own. -/
def Elsewhere (s s' : Site) : Prop :=
  ∃ now archive wallClock, s' = { s with link.backend.now := now, archive, wallClock }

/-- The bucket that was found for a request when its caller made its first step. -/
def FoundFirst (es : List (Event Site)) (n : Nat) (ns bucket : String) (tokens : Int)
    (b : Bucket) : Prop :=
  ∃ c, (Pool.changesOf n es).head? = some c ∧ (accept ns bucket tokens c.1).1 = .ok b

/-- What the steps of a caller so far say of its request. -/
inductive IsAt (b : Bucket) (es : List (Event Site)) (n : Nat) : Request → Stage → Prop
  | other {i : Request} {m : Stage} (hi : isTake i = false) : IsAt b es n i m
  | waiting {i : Request} (hnone : Pool.changesOf n es = []) : IsAt b es n i .waiting
  | refused {ns bucket : String} {tokens : Int} {maxWait : Nat} {c : Site × Site} {e : QuotaError}
      (hfirst : (Pool.changesOf n es).head? = some c)
      (haccept : (accept ns bucket tokens c.1).1 = .error e) :
      IsAt b es n (.allow ns bucket tokens maxWait) .refused
  | asking {ns bucket : String} {tokens : Int} {maxWait : Nat} {b' : Bucket}
      (hfound : FoundFirst es n ns bucket tokens b') (hkin : IsKin b b') :
      IsAt b es n (.allow ns bucket tokens maxWait) (.asking b')
  | answered {ns bucket : String} {tokens : Int} {maxWait : Nat} {b' : Bucket} {now : Int}
      {v : Verdict} (hfound : FoundFirst es n ns bucket tokens b') :
      IsAt b es n (.allow ns bucket tokens maxWait) (.answered b' now v)

/-- The answer to a request for tokens, once it is decided. -/
def receipt? : Request → Stage → Option Receipt
  | .allow ns name requested maxWait, .answered b now v =>
    some ⟨⟨ns, name, requested, maxWait, now⟩, b, some (.ok v)⟩
  | _, _ => none

/-- A caller has its answer. -/
def Holds (roles : List (Request × Stage)) (n : Nat) (t : Receipt) : Prop :=
  ∃ c, roles[n]? = some c ∧ receipt? c.1 c.2 = some t

/-- No round has touched the cells of a bucket so far. -/
def Untouched (b : Bucket) (roles : List (Request × Stage)) (es : List (Event Site)) : Prop :=
  ∀ e ∈ es, (roles.map Prod.fst)[e.caller]? = some .round →
    e.after.link.pair b.keys = e.before.link.pair b.keys

/-- The requests for a bucket that were decided so far, each with the place of its caller. -/
structure IsTally (b : Bucket) (elapse : Nat → Link → Link) (retry : Retry) (s₀ s : Site)
    (roles : List (Request × Stage)) (es : List (Event Site)) (takes : List (Nat × Receipt)) :
    Prop where
  /-- Each was decided at a step of its own caller, at the reading of the clock then. -/
  order : (takes.map fun x => (x.1, x.2.visit.now)).Sublist
    (es.map fun e => (e.caller, e.before.link.backend.now))
  once : (takes.map Prod.fst).Nodup
  mem : ∀ n t, (n, t) ∈ takes ↔ Holds roles n t ∧ t.bucket.terms = b.terms
  alone : Untouched b roles es →
    let alone := Link.answers elapse retry (takes.map fun x => (x.2.visit, b)) s₀.link
    alone.1.map Receipt.answer = takes.map (fun x => x.2.answer) ∧
      alone.2.pair b.keys = s.link.pair b.keys

/-- What holds of a server, of the requests that came, and of the steps so far. -/
structure Tallied (b : Bucket) (elapse : Nat → Link → Link) (retry : Retry) (s₀ s : Site)
    (roles : List (Request × Stage)) (es : List (Event Site)) : Prop where
  up : s.IsUp
  callers : ∀ e ∈ es, e.caller < roles.length
  stages : ∀ n i m, roles[n]? = some (i, m) → IsAt b es n i m
  tally : ∃ takes, IsTally b elapse retry s₀ s roles es takes

variable {b b' : Bucket} {elapse : Nat → Link → Link} {retry : Retry} {s₀ s s' : Site}
  {roles : List (Request × Stage)} {es : List (Event Site)} {takes : List (Nat × Receipt)}
  {i : Request} {m m' : Stage} {n k : Nat} {t : Receipt}

theorem isUp_elsewhere (h : s.IsUp) (hs : Elsewhere s s') : s'.IsUp := by
  obtain ⟨now, archive, wallClock, rfl⟩ := hs
  exact isUp_of_active_eq h rfl rfl (h.link.setNow now)

theorem head?_changesOf_append {c : Site × Site} (h : (Pool.changesOf n es).head? = some c)
    (e : Event Site) : (Pool.changesOf n (es ++ [e])).head? = some c := by
  rw [Pool.changesOf, List.filter_append, List.map_append, List.head?_append]
  rw [Pool.changesOf] at h
  rw [h]
  rfl

theorem head?_changesOf_self (h : Pool.changesOf n es = []) (s s' : Site) :
    (Pool.changesOf n (es ++ [⟨n, s, s'⟩])).head? = some (s, s') := by
  rw [Pool.changesOf_append_self, h]
  rfl

theorem FoundFirst.append {ns bucket : String} {tokens : Int}
    (h : FoundFirst es n ns bucket tokens b) (e : Event Site) :
    FoundFirst (es ++ [e]) n ns bucket tokens b := by
  obtain ⟨c, hfirst, haccept⟩ := h
  exact ⟨c, head?_changesOf_append hfirst e, haccept⟩

theorem FoundFirst.unique {ns bucket : String} {tokens : Int}
    (h : FoundFirst es n ns bucket tokens b) (h' : FoundFirst es n ns bucket tokens b') :
    b = b' := by
  obtain ⟨c, hfirst, haccept⟩ := h
  obtain ⟨c', hfirst', haccept'⟩ := h'
  obtain rfl := Option.some.inj (hfirst.symm.trans hfirst')
  exact Except.ok.inj (haccept.symm.trans haccept')

theorem IsAt.append (h : IsAt b es n i m) (e : Event Site)
    (hbegun : e.caller = n → isTake i = false ∨ m ≠ .waiting) : IsAt b (es ++ [e]) n i m := by
  cases h with
  | other hi => exact .other hi
  | waiting hnone =>
      by_cases hcaller : e.caller = n
      · rcases hbegun hcaller with hi | hm
        · exact .other hi
        · exact absurd rfl hm
      · refine .waiting ?_
        rw [← hnone]
        exact Pool.changesOf_append_of_ne hcaller es e.before e.after
  | refused hfirst haccept => exact .refused (head?_changesOf_append hfirst e) haccept
  | asking hfound hkin => exact .asking (hfound.append e) hkin
  | answered hfound => exact .answered (hfound.append e)

/-- A step takes a request to its next stage. -/
theorem IsAt.advance (h : IsAt b es n i m) (hadvance : Advance b i s s' m m') :
    IsAt b (es ++ [⟨n, s, s'⟩]) n i m' := by
  cases hadvance with
  | aside hcells hbegun => exact h.append _ fun _ => hbegun
  | applying => exact .other rfl
  | refused haccept hcells =>
      cases h with
      | other hi => cases hi
      | waiting hnone => exact .refused (head?_changesOf_self hnone s s') haccept
  | found haccept hkin hcells =>
      cases h with
      | other hi => cases hi
      | waiting hnone => exact .asking ⟨_, head?_changesOf_self hnone s s', haccept⟩ hkin
  | decided hcells =>
      cases h with
      | other hi => cases hi
      | asking hfound hkin => exact .answered (hfound.append _)

theorem receipt?_waiting (i : Request) : receipt? i .waiting = none := by
  cases i with
  | _ => rfl

theorem receipt?_eq_some (h : receipt? i m = some t) :
    ∃ v, i = .allow t.visit.ns t.visit.name t.visit.requested t.visit.maxWait ∧
      m = .answered t.bucket t.visit.now v ∧ t.answer = some (.ok v) := by
  unfold receipt? at h
  split at h
  · cases h
    exact ⟨_, rfl, rfl, rfl⟩
  · cases h

theorem holds_set_self (hn : roles[n]? = some (i, m)) :
    Holds (roles.set n (i, m')) n t ↔ receipt? i m' = some t := by
  constructor
  · rintro ⟨c, hc, ht⟩
    rcases (getElem?_set_eq_some hn).mp hc with ⟨-, rfl⟩ | ⟨hne, -⟩
    · exact ht
    · exact absurd rfl hne
  · intro ht
    exact ⟨(i, m'), (getElem?_set_eq_some hn).mpr (.inl ⟨rfl, rfl⟩), ht⟩

theorem holds_set_of_ne (hn : roles[n]? = some (i, m)) (hne : k ≠ n) :
    Holds (roles.set n (i, m')) k t ↔ Holds roles k t := by
  constructor
  · rintro ⟨c, hc, ht⟩
    rcases (getElem?_set_eq_some hn).mp hc with ⟨heq, -⟩ | ⟨-, hc⟩
    · exact absurd heq hne
    · exact ⟨c, hc, ht⟩
  · rintro ⟨c, hc, ht⟩
    exact ⟨c, (getElem?_set_eq_some hn).mpr (.inr ⟨hne, hc⟩), ht⟩

theorem holds_iff_of_role (hn : roles[n]? = some (i, m)) :
    Holds roles n t ↔ receipt? i m = some t := by
  constructor
  · rintro ⟨c, hc, ht⟩
    obtain rfl := Option.some.inj (hn.symm.trans hc)
    exact ht
  · exact fun ht => ⟨_, hn, ht⟩

theorem holds_join (i : Request) :
    Holds (roles ++ [(i, .waiting)]) n t ↔ Holds roles n t := by
  constructor
  · rintro ⟨c, hc, ht⟩
    rw [List.getElem?_append] at hc
    split at hc
    · exact ⟨c, hc, ht⟩
    · obtain rfl := List.mem_singleton.mp (List.mem_of_getElem? hc)
      rw [receipt?_waiting] at ht
      cases ht
  · rintro ⟨c, hc, ht⟩
    exact ⟨c, (List.getElem?_append_left (List.getElem?_eq_some_iff.mp hc).1).trans hc, ht⟩

theorem Untouched.of_join (h : Untouched b (roles ++ [(i, m)]) es) : Untouched b roles es := by
  intro e he hround
  refine h e he ?_
  rw [List.map_append, List.getElem?_append_left (List.getElem?_eq_some_iff.mp hround).1]
  exact hround

theorem Untouched.of_step (hn : roles[n]? = some (i, m))
    (h : Untouched b (roles.set n (i, m')) (es ++ [⟨n, s, s'⟩])) :
    Untouched b roles es ∧ (i = .round → s'.link.pair b.keys = s.link.pair b.keys) := by
  have hrequest : (roles.map Prod.fst)[n]? = some i := by rw [List.getElem?_map, hn]; rfl
  have hsame : (roles.set n (i, m')).map Prod.fst = roles.map Prod.fst := by
    obtain ⟨hlt, hget⟩ := List.getElem?_eq_some_iff.mp hrequest
    rw [List.map_set, ← hget, List.set_getElem_self]
  rw [Untouched, hsame, List.forall_mem_append] at h
  refine ⟨h.1, ?_⟩
  rintro rfl
  exact h.2 _ List.mem_cons_self hrequest

/-- Whatever a step makes of its request, the tally stays as it was if the request is not answered
by it, or not for the bucket in question. -/
theorem IsTally.pass (h : IsTally b elapse retry s₀ s roles es takes)
    (hn : roles[n]? = some (i, m))
    (hmem : ∀ t, t.bucket.terms = b.terms → (receipt? i m' = some t ↔ receipt? i m = some t))
    (hpair : (i = .round → s'.link.pair b.keys = s.link.pair b.keys) →
      s'.link.pair b.keys = s.link.pair b.keys) :
    IsTally b elapse retry s₀ s' (roles.set n (i, m')) (es ++ [⟨n, s, s'⟩]) takes := by
  refine ⟨?_, h.once, fun k t => ?_, fun huntouched => ?_⟩
  · rw [List.map_append]
    exact h.order.trans (List.sublist_append_left _ _)
  · rw [h.mem]
    refine and_congr_left fun ht => ?_
    by_cases hk : k = n
    · subst hk
      rw [holds_set_self hn, holds_iff_of_role hn, hmem t ht]
    · exact (holds_set_of_ne hn hk).symm
  · -- Only a step of a round may have touched the cells, and it is given that none did.
    obtain ⟨hbefore, hround⟩ := huntouched.of_step hn
    obtain ⟨hanswers, hcells⟩ := h.alone hbefore
    exact ⟨hanswers, hcells.trans (hpair hround).symm⟩

theorem IsTally.notMem (h : IsTally b elapse retry s₀ s roles es takes)
    (hn : roles[n]? = some (i, m)) (hreceipt : receipt? i m = none) : (n, t) ∉ takes := by
  rw [h.mem, holds_iff_of_role hn, hreceipt]
  rintro ⟨heq, -⟩
  cases heq

/-- A request for the bucket is the next one in the tally when the store has decided it. -/
theorem IsTally.next (h : IsTally b elapse retry s₀ s roles es takes) (hworks : s₀.link.Works)
    {ns name : String} {requested : Int} {maxWait : Nat}
    (hn : roles[n]? = some (.allow ns name requested maxWait, .asking b'))
    (hterms : b'.terms = b.terms)
    (hcells : s'.link.cells = (s.link.reply b' requested maxWait).2.cells) :
    let v := Verdict.ofResult (s.link.reply b' requested maxWait).1.result
    let now := s.link.backend.now
    IsTally b elapse retry s₀ s'
      (roles.set n (.allow ns name requested maxWait, .answered b' now v))
      (es ++ [⟨n, s, s'⟩])
      (takes ++ [(n, ⟨⟨ns, name, requested, maxWait, now⟩, b', some (.ok v)⟩)]) := by
  intro v now
  refine ⟨?_, ?_, fun k t => ?_, fun huntouched => ?_⟩
  · rw [List.map_append, List.map_append]
    exact h.order.append (.refl _)
  · rw [List.map_append, List.nodup_append']
    refine ⟨h.once, List.nodup_singleton n, ?_⟩
    rintro _ hmem hlast
    obtain ⟨⟨_, t⟩, ht, rfl⟩ := List.mem_map.mp hmem
    rw [List.map_singleton, List.mem_singleton] at hlast
    subst hlast
    exact h.notMem hn rfl ht
  · rw [List.mem_append, List.mem_singleton]
    by_cases hk : k = n
    · subst hk
      rw [holds_set_self hn, or_iff_right (h.notMem hn rfl)]
      constructor
      · rintro ⟨⟩
        exact ⟨rfl, hterms⟩
      · rintro ⟨hholds, -⟩
        exact congrArg (Prod.mk k) (Option.some.inj hholds).symm
    · rw [holds_set_of_ne hn hk, h.mem, or_iff_left fun heq => hk (congrArg Prod.fst heq)]
  · -- Here and in the run alone the store decides on the same cells.
    obtain ⟨hanswers, hpair⟩ := h.alone (huntouched.of_step hn).1
    obtain ⟨hanswers', hpair'⟩ := Link.answers_append_of_pair_eq elapse retry
      (takes.map fun x => (x.2.visit, b)) ⟨ns, name, requested, maxWait, now⟩ hterms.symm hworks
      hpair
    dsimp only
    rw [List.map_append, List.map_append, List.map_singleton, List.map_singleton, ← hanswers]
    exact ⟨hanswers', hpair'.trans (Store.pair_congr hcells b.keys).symm⟩

theorem IsTally.step (h : IsTally b elapse retry s₀ s roles es takes) (hworks : s₀.link.Works)
    (hn : roles[n]? = some (i, m)) (hat : IsAt b es n i m) (hadvance : Advance b i s s' m m') :
    ∃ takes', IsTally b elapse retry s₀ s' (roles.set n (i, m')) (es ++ [⟨n, s, s'⟩]) takes' := by
  have hkept : s'.link.cells = s.link.cells → s'.link.pair b.keys = s.link.pair b.keys :=
    fun hcells => Store.pair_congr hcells b.keys
  cases hadvance with
  | aside hcells hbegun => exact ⟨takes, h.pass hn (fun _ _ => .rfl) fun _ => hkept hcells⟩
  | applying => exact ⟨takes, h.pass hn (fun _ _ => .rfl) fun hround => hround rfl⟩
  | refused haccept hcells =>
      exact ⟨takes, h.pass hn (fun _ _ => .rfl) fun _ => hkept hcells⟩
  | found haccept hkin hcells =>
      exact ⟨takes, h.pass hn (fun _ _ => .rfl) fun _ => hkept hcells⟩
  | @decided ns bucket tokens maxWait s s' b' hcells =>
      by_cases hterms : b'.terms = b.terms
      · exact ⟨_, h.next hworks hn hterms hcells⟩
      · -- The request is for another bucket, which has no key in common with this one.
        have hapart : b.keys.Apart b'.keys := by
          cases hat with
          | other hi => cases hi
          | asking hfound hkin => exact hkin.resolve_left hterms
        refine ⟨takes, h.pass hn (fun t ht => ?_) fun _ => ?_⟩
        · constructor
          · intro hreceipt
            obtain rfl := Option.some.inj hreceipt
            exact absurd ht hterms
          · intro hreceipt
            cases hreceipt
        · rw [Link.pair, Link.pair, Store.pair_congr hcells]
          exact Store.pair_take_of_apart hapart _ _ _

theorem tallied_start (hup : s₀.IsUp) : Tallied b elapse retry s₀ s₀ [] [] := by
  refine ⟨hup, by simp, by simp, [], .refl _, List.nodup_nil, fun n t => ?_, fun _ => ⟨rfl, rfl⟩⟩
  refine ⟨nofun, ?_⟩
  rintro ⟨⟨c, hc, -⟩, -⟩
  cases hc

theorem tallied_join (h : Tallied b elapse retry s₀ s roles es) (i : Request) :
    Tallied b elapse retry s₀ s (roles ++ [(i, .waiting)]) es := by
  refine ⟨h.up, fun e he => ?_, fun n j m hn => ?_, ?_⟩
  · have hlt := h.callers e he
    rw [List.length_append]
    omega
  · rw [List.getElem?_append] at hn
    split at hn
    · exact h.stages n j m hn
    · rename_i hlt
      cases List.mem_singleton.mp (List.mem_of_getElem? hn)
      refine .waiting (Pool.changesOf_eq_nil fun e he => ?_)
      have hcaller := h.callers e he
      omega
  · obtain ⟨takes, htakes⟩ := h.tally
    exact ⟨takes, htakes.order, htakes.once, fun n t => by rw [holds_join, htakes.mem],
      fun huntouched => htakes.alone huntouched.of_join⟩

theorem tallied_step (h : Tallied b elapse retry s₀ s roles es) (hworks : s₀.link.Works)
    (hn : roles[n]? = some (i, m)) (hup : s'.IsUp) (hadvance : Advance b i s s' m m') :
    Tallied b elapse retry s₀ s' (roles.set n (i, m')) (es ++ [⟨n, s, s'⟩]) := by
  refine ⟨hup, fun e he => ?_, fun k j r hk => ?_, ?_⟩
  · rw [List.length_set]
    rcases List.mem_append.mp he with he | he
    · exact h.callers e he
    · rw [List.mem_singleton.mp he]
      exact (List.getElem?_eq_some_iff.mp hn).1
  · rcases (getElem?_set_eq_some hn).mp hk with ⟨rfl, heq⟩ | ⟨hne, hk⟩
    · cases heq
      exact (h.stages k i m hn).advance hadvance
    · exact (h.stages k j r hk).append _ fun hcaller => absurd hcaller.symm hne
  · obtain ⟨takes, htakes⟩ := h.tally
    exact htakes.step hworks hn (h.stages n i m hn) hadvance

theorem tallied_elsewhere (h : Tallied b elapse retry s₀ s roles es) (hs : Elsewhere s s') :
    Tallied b elapse retry s₀ s' roles es := by
  refine ⟨isUp_elsewhere h.up hs, h.callers, h.stages, ?_⟩
  obtain ⟨takes, htakes⟩ := h.tally
  obtain ⟨now, archive, wallClock, rfl⟩ := hs
  exact ⟨takes, htakes.order, htakes.once, htakes.mem, htakes.alone⟩

theorem keeps_tallied (b : Bucket) (elapse : Nat → Link → Link) (retry : Retry)
    (hworks : s₀.link.Works) :
    (Taking.rules b).Keeps .waiting Elsewhere (Tallied b elapse retry s₀) where
  inv h := h.up
  join := tallied_join
  step h _ hn hmove := tallied_step h hworks hn hmove.1 hmove.2.2
  rely_step _ _ hmove _ _ _ _ _ := hmove.2.1
  change := tallied_elsewhere
  rely_change _ hs _ _ _ _ := by
    obtain ⟨now, archive, wallClock, rfl⟩ := hs
    exact fun _ hscript => hscript

/-- Whatever requests come to a server that is up, while the configuration offers a bucket, what was
said so far holds. -/
theorem tallied_of_run {p : Pool Request Site (Except QuotaError Reply)} (b : Bucket)
    (elapse : Nat → Link → Link) (retry : Retry) (hup : s₀.IsUp)
    (hunlocked : s₀.link.connections.locked = false) (hrun : Pool.Run work Elsewhere s₀ es p)
    (hsame : ∀ e ∈ es, e.before.activeConfig.Offers b.terms) :
    ∃ roles, Tallied b elapse retry s₀ p.state roles es ∧ Pool.Guarded (Taking.rules b)
      (fun i m r _ => isTake i = true → Taking.Concludes m r) roles p :=
  hrun.guarded (keeps_tallied b elapse retry ⟨hunlocked, hup.link.backend, hup.link.current⟩)
    Taking.safe_work (tallied_start hup) hsame

end Site

end TokenQuota
