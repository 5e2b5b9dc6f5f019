import TokenQuota.Proofs.Bucket.Finding
import TokenQuota.Proofs.Bucket.Flowing
import TokenQuota.Proofs.Server.Charging

/-!
All that a request for tokens comes to at a server that runs: it is refused and nothing changes, or
the bucket that its name stands for is marked as used and asked for the tokens.
-/

namespace TokenQuota

namespace Container

/-- Nothing changes when no bucket is found. -/
theorem find_of_none {c : Container} {key name : String} {r : Roster}
    (h : (c.find key name r).1 = none) : c.find key name r = (none, c, r) := by
  unfold find at h ⊢
  cases hns : c.namespaces.get? key with
  | none =>
      rw [hns] at h
      exact congrArg (fun o => (o, c, r)) h
  | some nb =>
      rw [hns] at h
      dsimp only at h ⊢
      cases hnamed : nb.named.get? name with
      | some b =>
          rw [hnamed] at h
          cases h
      | none =>
          rw [hnamed] at h
          dsimp only at h ⊢
          rcases nb.findDynamic_cases key name r hnamed with
            ⟨-, hdynamic⟩ | ⟨-, x, nb', r', hdynamic, -⟩
          · rw [hdynamic] at h ⊢
            exact congrArg (fun o => (o, c, r)) h
          · rw [hdynamic] at h
            cases h

end Container

namespace Site

variable {ns bucket : String} {tokens : Int} {maxWait : Nat} {s s' : Site} {b : Bucket}

/-- The bucket that a name stands for, if there is one, and the buckets and marks after it was
looked up. -/
def found (s : Site) (ns bucket : String) : Option Bucket × Container × Roster :=
  s.server.active.buckets.find ns bucket s.roster

/-- The bucket of a name was looked up and marked as used. Of the rest, only the counts may have
changed, and the cells. -/
structure Marks (s : Site) (ns bucket : String) (b : Bucket) (stats : Stats) (s' : Site) :
    Prop where
  found : (s.found ns bucket).1 = some b
  roster : s'.roster = (s.found ns bucket).2.2.report b.id
  server : s'.server = { s.server with
    active.buckets := (s.found ns bucket).2.1
    stats := stats }

/-- The counts after a decision: only requests of dynamic buckets are counted. -/
def countsAfter (s : Site) (ns bucket : String) (b : Bucket) (v : Verdict) : Stats :=
  if b.dynamic then s.server.stats.record ns bucket v.admitted else s.server.stats

/-- What a request for tokens comes to at a server that runs. -/
inductive Allows (ns bucket : String) (tokens : Int) (maxWait : Nat) (s s' : Site) :
    Except QuotaError Verdict → Prop
  | tooFew (hfew : tokens < 1) (hstill : still s' = still s) :
    Allows ns bucket tokens maxWait s s' (.error (.validation "tokens must be positive"))
  | unknown (hmany : 1 ≤ tokens) (hfind : (s.found ns bucket).1 = none)
    (hstill : still s' = still s) :
    Allows ns bucket tokens maxWait s s' (.error (.noSuchBucket ns bucket))
  | unanswered {b : Bucket} (hmany : 1 ≤ tokens) (hmarks : s.Marks ns bucket b s.server.stats s')
    (hcells : s'.link.cells = s.link.cells) :
    Allows ns bucket tokens maxWait s s' (.error (.retriesExhausted s.server.retry.count))
  | decided {b : Bucket} {now : Int} {v : Verdict} (hmany : 1 ≤ tokens)
    (hmarks : s.Marks ns bucket b (s.countsAfter ns bucket b v) s')
    (hcharged : Store.Charged b.keys now (b.limits.take now tokens maxWait) v
      s.link.backend.store s'.link.backend.store) :
    Allows ns bucket tokens maxWait s s' (.ok v)

/-- A server that runs refuses too few tokens and unknown names, and marks the bucket otherwise. -/
theorem accept_cases (hstarted : s.server.lifecycle = .started) (ns bucket : String)
    (tokens : Int) :
    (tokens < 1 ∧
      accept ns bucket tokens s = (.error (.validation "tokens must be positive"), s)) ∨
    (1 ≤ tokens ∧ (s.found ns bucket).1 = none ∧
      accept ns bucket tokens s = (.error (.noSuchBucket ns bucket), s)) ∨
    1 ≤ tokens ∧ ∃ b s₁, accept ns bucket tokens s = (.ok b, s₁) ∧ s₁.link = s.link ∧
      s.Marks ns bucket b s.server.stats s₁ := by
  rw [accept, if_neg (not_not.mpr hstarted)]
  by_cases hfew : tokens < 1
  · exact .inl ⟨hfew, if_pos hfew⟩
  · rw [if_neg hfew, resolve]
    cases hfind : (s.found ns bucket).1 with
    | none =>
        rw [Container.find_of_none hfind]
        exact .inr (.inl ⟨Int.not_lt.mp hfew, rfl, rfl⟩)
    | some b =>
        have hfound : s.server.active.buckets.find ns bucket s.roster =
            (some b, (s.found ns bucket).2) := Prod.ext hfind rfl
        rw [hfound]
        exact .inr (.inr ⟨Int.not_lt.mp hfew, b, _, rfl, rfl, hfind, rfl, rfl⟩)

theorem found_congr {s₀ : Site} (h : still s₀ = still s) : s₀.found = s.found := by
  obtain ⟨hserver, hroster, -⟩ := of_still_eq h
  unfold found
  rw [hserver, hroster]

theorem Marks.congr {stats : Stats} {s₀ s₁ : Site} (h : s₀.Marks ns bucket b stats s₁)
    (hbefore : still s₀ = still s) (hserver : s'.server = s₁.server)
    (hroster : s'.roster = s₁.roster) : s.Marks ns bucket b stats s' := by
  have hfound := found_congr hbefore
  constructor
  · rw [← hfound]
    exact h.found
  · rw [hroster, h.roster, hfound]
  · rw [hserver, h.server, hfound, (of_still_eq hbefore).1]

/-- Only what is still matters. -/
theorem Allows.congr {r : Except QuotaError Verdict} {s₀ s₁ : Site}
    (h : Allows ns bucket tokens maxWait s₀ s₁ r) (hbefore : still s₀ = still s)
    (hafter : still s' = still s₁) : Allows ns bucket tokens maxWait s s' r := by
  obtain ⟨hserver, -, hcells⟩ := of_still_eq hbefore
  obtain ⟨hserver', hroster', hcells'⟩ := of_still_eq hafter
  cases h with
  | tooFew hfew hstill => exact .tooFew hfew ((hafter.trans hstill).trans hbefore)
  | unknown hmany hfind hstill =>
      refine .unknown hmany ?_ ((hafter.trans hstill).trans hbefore)
      rw [← found_congr hbefore]
      exact hfind
  | unanswered hmany hmarks hleft =>
      have hmarks' := hmarks.congr hbefore hserver' hroster'
      rw [hserver] at hmarks' ⊢
      exact .unanswered hmany hmarks' ((hcells'.trans hleft).trans hcells)
  | @decided b now v hmany hmarks hcharged =>
      have hmarks' := hmarks.congr hbefore hserver' hroster'
      unfold countsAfter at hmarks'
      rw [hserver] at hmarks'
      exact .decided hmany hmarks' (hcharged.congr hcells hcells')

/-- The answer is given after its request was counted, if that is due. -/
theorem marks_of_endsAmid_count {v : Verdict} {r : Except QuotaError Verdict} {s₁ : Site}
    (hmarks : s.Marks ns bucket b s.server.stats s₁)
    (h : (do
      if b.dynamic then
        Action.modify fun s =>
          { s with server.stats := s.server.stats.record ns bucket v.admitted }
      return v : Work Verdict).run.EndsAmid still s₁ r s') :
    r = .ok v ∧ s.Marks ns bucket b (s.countsAfter ns bucket b v) s' ∧
      s'.link.cells = s₁.link.cells := by
  unfold countsAfter
  cases hdynamic : b.dynamic with
  | true =>
      rw [hdynamic] at h
      rcases Action.endsAmid_bind h with ⟨u, s₂, hmodify, hreturn⟩ | ⟨e, s₂, -, hmodify, -⟩
      · obtain ⟨rfl, hstill'⟩ := Task.endsAmid_done hreturn
        obtain ⟨-, s₃, hstill₃, hstill₂⟩ := Action.endsAmid_modify hmodify
        obtain ⟨hserver', hroster', hcells'⟩ := of_still_eq (hstill'.trans hstill₂)
        obtain ⟨hserver₃, hroster₃, hcells₃⟩ := of_still_eq hstill₃
        refine ⟨rfl, ⟨hmarks.found, ?_, ?_⟩, hcells'.trans hcells₃⟩
        · rw [hroster', hroster₃, hmarks.roster]
        · rw [hserver', hserver₃, hmarks.server]
          rfl
      · cases (Action.endsAmid_modify hmodify).1
  | false =>
      rw [hdynamic] at h
      obtain ⟨rfl, hstill'⟩ := Task.endsAmid_done h
      obtain ⟨hserver', hroster', hcells'⟩ := of_still_eq hstill'
      exact ⟨rfl, hmarks.congr rfl hserver' hroster', hcells'⟩

/-- Whatever is said to the store, the server and the marks are left alone. -/
theorem kept_of_endsAmid_onLink {α : Type} {a : Link.Client α} {r : Except QuotaError α}
    (h : (onLink a).run.EndsAmid still s r s') :
    s'.server = s.server ∧ s'.roster = s.roster := by
  have hchanges : (onLink a).run.Changes fun s s' =>
      (s'.server, s'.roster) = (s.server, s.roster) :=
    Task.Changes.onPart (fun _ _ _ => rfl) (Task.changes_true _)
  have hkept := hchanges.kept_of_endsAmid (fun s => (s.server, s.roster)) (fun s s' hstill => by
    obtain ⟨hserver, hroster, -⟩ := of_still_eq hstill
    rw [hserver, hroster]) h
  exact ⟨congrArg Prod.fst hkept, congrArg Prod.snd hkept⟩

/-- Once its bucket is marked as used, a request is decided or gets no answer. -/
theorem allows_of_endsAmid_rest {r : Except QuotaError Verdict} {s₁ : Site} (hmany : 1 ≤ tokens)
    (hmarks : s.Marks ns bucket b s.server.stats s₁) (hcells : s₁.link.cells = s.link.cells)
    (h : (do
      let retry ← Action.read fun s => s.server.retry
      let verdict ← onLink (Link.take retry b tokens maxWait)
      if b.dynamic then
        Action.modify fun s =>
          { s with server.stats := s.server.stats.record ns bucket verdict.admitted }
      return verdict : Work Verdict).run.EndsAmid still s₁ r s') :
    Allows ns bucket tokens maxWait s s' r := by
  rcases Action.endsAmid_bind h with ⟨retry, s₂, hread, htake⟩ | ⟨e, s₂, -, hread, -⟩
  · obtain ⟨s₃, hretry, hstill₃, hstill₂⟩ := Action.endsAmid_read hread
    obtain ⟨hserver₂, hroster₂, hcells₂⟩ := of_still_eq hstill₂
    have hmarks₂ := hmarks.congr rfl hserver₂ hroster₂
    rcases Action.endsAmid_bind htake with ⟨v, s₄, hverdict, hcount⟩ | ⟨e, s₄, rfl, hfail, hdone⟩
    · obtain ⟨⟨now, hcharged⟩, -⟩ := settled_onLink retry b hverdict
      obtain ⟨hserver₄, hroster₄⟩ := kept_of_endsAmid_onLink hverdict
      obtain ⟨rfl, hmarks', hcells'⟩ :=
        marks_of_endsAmid_count (hmarks₂.congr rfl hserver₄ hroster₄) hcount
      exact .decided hmany hmarks' (hcharged.congr (hcells₂.trans hcells) hcells')
    · obtain ⟨hcells₄, -⟩ := settled_onLink retry b hfail
      obtain ⟨hserver₄, hroster₄⟩ := kept_of_endsAmid_onLink hfail
      obtain ⟨hserver', hroster', hcells'⟩ := of_still_eq hdone
      have hlink := Task.endsAmid_onPart Link.cells (fun _ _ => rfl)
        (fun s s' hstill => congrArg (fun v => v.2.2) hstill) hfail
      have herror := Link.error_of_endsAmid_takeFrom retry b tokens maxWait _ _ hlink
      have hcount : retry = s.server.retry := by
        rw [Except.ok.inj hretry, (of_still_eq hstill₃).1, hmarks.server]
      rw [herror, hcount]
      refine .unanswered hmany (hmarks₂.congr rfl (hserver'.trans hserver₄)
        (hroster'.trans hroster₄)) ?_
      exact ((hcells'.trans hcells₄).trans hcells₂).trans hcells
  · obtain ⟨a, heq, -⟩ := Action.endsAmid_read hread
    cases heq

/-- A server that runs refuses a request for tokens, or asks the bucket for exactly these tokens. -/
theorem allows_of_endsAmid (hstarted : s.server.lifecycle = .started)
    {r : Except QuotaError Verdict}
    (h : (allow ns bucket tokens maxWait).run.EndsAmid still s r s') :
    Allows ns bucket tokens maxWait s s' r := by
  have hstarted₀ {s₀ : Site} (hstill₀ : still s₀ = still s) :
      s₀.server.lifecycle = .started := by rw [(of_still_eq hstill₀).1, hstarted]
  rcases Action.endsAmid_bind h with ⟨b, s₁, haccept, hrest⟩ | ⟨e, s₁, rfl, haccept, hdone⟩
  · obtain ⟨s₀, hstill₀, hb, hstill₁⟩ := Action.endsAmid_atOnce haccept
    rcases accept_cases (hstarted₀ hstill₀) ns bucket tokens with
      ⟨-, hrefused⟩ | ⟨-, -, hrefused⟩ | ⟨hmany, b', s₂, haccepted, hlink, hmarks⟩
    · rw [hrefused] at hb
      cases hb
    · rw [hrefused] at hb
      cases hb
    · rw [haccepted] at hb hstill₁
      cases hb
      obtain ⟨hserver₁, hroster₁, hcells₁⟩ := of_still_eq hstill₁
      have hcells : s₁.link.cells = s₀.link.cells := by rw [hcells₁, hlink]
      exact (allows_of_endsAmid_rest hmany (hmarks.congr rfl hserver₁ hroster₁) hcells
        hrest).congr hstill₀ rfl
  · obtain ⟨s₀, hstill₀, he, hstill₁⟩ := Action.endsAmid_atOnce haccept
    have hafter := hdone.trans hstill₁
    rcases accept_cases (hstarted₀ hstill₀) ns bucket tokens with
      ⟨hfew, hrefused⟩ | ⟨hmany, hfind, hrefused⟩ | ⟨-, b', s₂, haccepted, -⟩
    · rw [hrefused] at he hafter
      cases he
      exact .tooFew hfew (hafter.trans hstill₀)
    · rw [hrefused] at he hafter
      cases he
      exact (Allows.unknown hmany hfind hafter).congr hstill₀ rfl
    · rw [haccepted] at he
      cases he

/-- Somebody holds the lock of the connection. -/
def isLinkLocked (s : Site) : Bool := Link.lock.get (linkPart.get s)

/-- A request for tokens only waits for the lock of the connection. -/
theorem flows_allow (ns bucket : String) (tokens : Int) (maxWait : Nat) :
    (allow ns bucket tokens maxWait).run.Flows isLinkLocked false := by
  have haccept (s : Site) : isLinkLocked (accept ns bucket tokens s).2 = isLinkLocked s :=
    congrArg Link.lock.get (accept_spec ns bucket tokens s).1
  refine Action.flows_bind (Task.flows_atOnce haccept) fun b => ?_
  refine Action.flows_bind (Action.flows_read _) fun retry => ?_
  refine Action.flows_bind ((Link.flows_take retry b tokens maxWait).onPart fun _ _ => rfl)
    fun v => ?_
  cases b.dynamic with
  | true =>
      exact Action.flows_bind (Action.flows_ofTask (Task.flows_modify fun _ => rfl)) fun _ =>
        Task.flows_done _
  | false => exact Task.flows_done _

end Site

end TokenQuota
