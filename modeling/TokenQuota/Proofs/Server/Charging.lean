import TokenQuota.Proofs.Bucket.Charging
import TokenQuota.Proofs.Server.Requests
import TokenQuota.Proofs.Stats

/-!
A request for tokens that is answered was charged to its bucket exactly once, and one that fails
was not charged, whichever calls to the store fail on the way.
-/

namespace TokenQuota

namespace Site

/-- What is as it was when a request goes on: the server, the marks of the buckets, and the cells.
Meanwhile scripts may be forgotten, other calls to the store may fail, its clock may go on, and the
connection may be replaced or closed. -/
def still (s : Site) : Server × Roster × NameMap Cell := (s.server, s.roster, s.link.cells)

variable {ns bucket : String} {tokens : Int} {maxWait : Nat} {s s' : Site}

theorem accept_spec (ns bucket : String) (tokens : Int) (s : Site) :
    (accept ns bucket tokens s).2.link = s.link ∧
      (accept ns bucket tokens s).2.server.stats = s.server.stats ∧
      ∀ b, (accept ns bucket tokens s).1 = .ok b →
        (s.server.active.buckets.find ns bucket s.roster).1 = some b := by
  unfold accept
  split
  · exact ⟨rfl, rfl, fun b hb => by cases hb⟩
  · split
    · exact ⟨rfl, rfl, fun b hb => by cases hb⟩
    · unfold resolve
      split
      · rename_i b buckets roster heq
        refine ⟨rfl, rfl, ?_⟩
        rintro _ ⟨⟩
        rw [heq]
      · exact ⟨rfl, rfl, fun b hb => by cases hb⟩

/-- The answer to a request is what became of its decision, and the cells show nothing else. -/
theorem settled_onLink (retry : Retry) (b : Bucket) {r : Except QuotaError Verdict}
    (h : (onLink (Link.take retry b tokens maxWait)).run.EndsAmid still s r s') :
    Store.Settled b tokens maxWait s.link.backend.store s'.link.backend.store r ∧
      s'.server.stats = s.server.stats := by
  constructor
  · have hlink := Task.endsAmid_onPart Link.cells (fun _ _ => rfl)
      (fun s s' hstill => congrArg (fun v => v.2.2) hstill) h
    exact Link.settled_take retry b tokens maxWait hlink
  · have hchanges : (onLink (Link.take retry b tokens maxWait)).run.Changes
        fun s s' => s'.server.stats = s.server.stats :=
      Task.Changes.onPart (fun _ _ _ => rfl) (Task.changes_true _)
    exact hchanges.kept_of_endsAmid (fun s => s.server.stats)
      (fun s s' hstill => congrArg (fun v => v.1.stats) hstill) h

theorem of_still_eq (h : still s' = still s) : s'.server = s.server ∧ s'.roster = s.roster ∧
    s'.link.cells = s.link.cells := by
  simpa [still] using h

/-- The answer is given as it is, after the request was counted if its bucket is a dynamic one. -/
theorem counted_of_endsAmid {b : Bucket} {v : Verdict} {r : Except QuotaError Verdict}
    (h : (do
      if b.dynamic then
        Action.modify fun s =>
          { s with server.stats := s.server.stats.record ns bucket v.admitted }
      return v : Work Verdict).run.EndsAmid still s r s') :
    r = .ok v ∧ s'.link.cells = s.link.cells ∧
      (b.dynamic = true → s.server.stats.CountsOne ns bucket v.admitted s'.server.stats) ∧
      (b.dynamic = false → s'.server.stats = s.server.stats) := by
  cases hdynamic : b.dynamic with
  | true =>
      rw [hdynamic] at h
      rcases Action.endsAmid_bind h with ⟨u, s₁, hmodify, hreturn⟩ | ⟨e, s₁, -, hmodify, -⟩
      · obtain ⟨rfl, hstill'⟩ := Task.endsAmid_done hreturn
        obtain ⟨-, s₂, hstill₂, hstill₁⟩ := Action.endsAmid_modify hmodify
        obtain ⟨hserver', -, hcells'⟩ := of_still_eq (hstill'.trans hstill₁)
        obtain ⟨hserver₂, -, hcells₂⟩ := of_still_eq hstill₂
        refine ⟨rfl, hcells'.trans hcells₂, fun _ => ?_, fun hne => absurd hne (by simp)⟩
        rw [hserver', hserver₂]
        exact Stats.countsOne_record _ _ _ _
      · cases (Action.endsAmid_modify hmodify).1
  | false =>
      rw [hdynamic] at h
      obtain ⟨rfl, hstill'⟩ := Task.endsAmid_done h
      obtain ⟨hserver', -, hcells'⟩ := of_still_eq hstill'
      exact ⟨rfl, hcells', fun hne => absurd hne (by simp), fun _ => congrArg Server.stats hserver'⟩

/-- A request that is answered was decided once, on the cells of the bucket that its name stands
for and at one reading of the clock, and is counted once if the bucket is a dynamic one. A request
that fails has touched neither a cell nor a count. -/
theorem allow_charges_once {r : Except QuotaError Verdict}
    (h : (allow ns bucket tokens maxWait).run.EndsAmid still s r s') :
    (∀ v, r = .ok v → ∃ b now, (s.server.active.buckets.find ns bucket s.roster).1 = some b ∧
      Store.Charged b.keys now (b.limits.take now tokens maxWait) v s.link.backend.store
        s'.link.backend.store ∧
      (b.dynamic = true → s.server.stats.CountsOne ns bucket v.admitted s'.server.stats) ∧
      (b.dynamic = false → s'.server.stats = s.server.stats)) ∧
    (∀ e, r = .error e → s'.link.cells = s.link.cells ∧ s'.server.stats = s.server.stats) := by
  rcases Action.endsAmid_bind h with ⟨b, s₁, haccept, hrest⟩ | ⟨e, s₁, rfl, haccept, hdone⟩
  · obtain ⟨s₀, hstill₀, hb, hstill₁⟩ := Action.endsAmid_atOnce haccept
    obtain ⟨hlink, hstats, hfound⟩ := accept_spec ns bucket tokens s₀
    obtain ⟨hserver₀, hroster₀, hcells₀⟩ := of_still_eq hstill₀
    have hfind := hfound b hb.symm
    rw [hserver₀, hroster₀] at hfind
    rcases Action.endsAmid_bind hrest with ⟨retry, s₂, hread, htake⟩ | ⟨e, s₂, -, hread, -⟩
    · obtain ⟨-, -, -, hstill₂⟩ := Action.endsAmid_read hread
      obtain ⟨hserver₂, -, hcells₂⟩ := of_still_eq (hstill₂.trans hstill₁)
      rw [hlink, hcells₀] at hcells₂
      have hstats₂ : s₂.server.stats = s.server.stats := by rw [hserver₂, hstats, hserver₀]
      rcases Action.endsAmid_bind htake with ⟨v, s₃, hverdict, hcount⟩ | ⟨e, s₃, rfl, hfail, hdone⟩
      · obtain ⟨⟨now, hcharged⟩, hstats₃⟩ := settled_onLink retry b hverdict
        obtain ⟨rfl, hcells', hcounted⟩ := counted_of_endsAmid hcount
        rw [hstats₃, hstats₂] at hcounted
        refine ⟨?_, (fun e he => nomatch he)⟩
        rintro _ ⟨⟩
        exact ⟨b, now, hfind, hcharged.congr hcells₂ hcells', hcounted⟩
      · obtain ⟨hcells₃, hstats₃⟩ := settled_onLink retry b hfail
        obtain ⟨hserver', -, hcells'⟩ := of_still_eq hdone
        refine ⟨(fun v hv => nomatch hv), fun _ _ => ⟨?_, ?_⟩⟩
        · exact (hcells'.trans hcells₃).trans hcells₂
        · rw [hserver', hstats₃, hstats₂]
    · obtain ⟨a, heq, -⟩ := Action.endsAmid_read hread
      cases heq
  · obtain ⟨s₀, hstill₀, -, hstill₁⟩ := Action.endsAmid_atOnce haccept
    obtain ⟨hlink, hstats, -⟩ := accept_spec ns bucket tokens s₀
    obtain ⟨hserver₀, -, hcells₀⟩ := of_still_eq hstill₀
    obtain ⟨hserver₁, -, hcells₁⟩ := of_still_eq (hdone.trans hstill₁)
    refine ⟨(fun v hv => nomatch hv), fun _ _ => ⟨?_, ?_⟩⟩
    · rw [hcells₁, hlink, hcells₀]
    · rw [hserver₁, hstats, hserver₀]

/-- A request for a dynamic bucket is admitted, and then the connection is lost: the first request
is charged and counted, and the next one fails and leaves it at that. -/
theorem allow_charges_once_lost :
    let config : ServiceConfig := ⟨1, 1, "", none, (∅ : NameMap NamespaceConfig).insert "a"
      ((NamespaceConfig.ofName "a").withTemplate (.ofRate 10 10) 0)⟩
    let made := fresh (.ofStorage (.shelf .empty))
    let started : Site := { made with
      server.lifecycle := .started
      server.active := ⟨config, (Container.make config .empty).1⟩
      link.connections.current := some ⟨0, 1, "take"⟩
      link.backend.store.scripts := ["take"] }
    let after (s : Site) := (allow "a" "b" 3 0).run.run (fun _ s => s) s
    let lost : Site := { (after started).2 with link.backend.outages.takes := .always }
    (∃ b now, (started.server.active.buckets.find "a" "b" started.roster).1 = some b ∧
      Store.Charged b.keys now (b.limits.take now 3 0) ⟨0, true⟩ started.link.backend.store
        (after started).2.link.backend.store ∧
      started.server.stats.CountsOne "a" "b" true (after started).2.server.stats) ∧
    (after lost).2.link.cells = lost.link.cells ∧
      (after lost).2.server.stats = lost.server.stats := by
  intro config made started after lost
  have hends : ∀ (s : Site) (r : Except QuotaError Verdict), (after s).1 = some r →
      (allow "a" "b" 3 0).run.EndsAmid still s r (after s).2 :=
    fun s r hr => Task.endsAmid_of_run (fun _ s => s) (fun _ _ => rfl) (Prod.ext hr rfl)
  have hfails : ∀ s : Site, (after s).1.map Except.isOk = some false →
      (after s).2.link.cells = s.link.cells ∧ (after s).2.server.stats = s.server.stats := by
    intro s hs
    obtain ⟨r, hr, herror⟩ := Option.map_eq_some_iff.mp hs
    cases r with
    | ok v => cases herror
    | error e => exact (allow_charges_once (hends s _ hr)).2 e rfl
  constructor
  · have hadmitted : (after started).1.map Except.toOption = some (some ⟨0, true⟩) := by
      decide +kernel
    have hdynamic : (started.server.active.buckets.find "a" "b" started.roster).1.map
        Bucket.dynamic = some true := by
      decide +kernel
    obtain ⟨r, hr, hverdict⟩ := Option.map_eq_some_iff.mp hadmitted
    obtain rfl : r = .ok ⟨0, true⟩ := by
      cases r with
      | error e => cases hverdict
      | ok v => exact congrArg Except.ok (Option.some.inj hverdict)
    obtain ⟨b, now, hfind, hstore, hcounts, -⟩ :=
      (allow_charges_once (hends started _ hr)).1 _ rfl
    rw [hfind] at hdynamic
    exact ⟨b, now, hfind, hstore, hcounts (Option.some.inj hdynamic)⟩
  · exact hfails lost (by decide +kernel)

end Site

end TokenQuota
