import TokenQuota.Proofs.Http.AdminRequests
import TokenQuota.Proofs.Http.Segments
import TokenQuota.Proofs.Http.TokenRequests
import TokenQuota.Proofs.Server.Counts

/-!
Requests over HTTP for the counts of buckets. The two words that lead to the lists of a namespace
stand where the name of a bucket would, and hide it: the counts of a bucket whose name is one of
them are shown on other ways of writing the name only.
-/

namespace TokenQuota.Http

/-- The response shows the counts of a bucket, or that there are none. -/
structure ShowsCounts (ns bucket : String) (hits misses : Nat) (response : Response) : Prop where
  some_counts : 0 < hits ∨ 0 < misses →
    response = .scores ⟨hits, misses⟩ ∧ response.status.code = 200
  no_counts : hits = 0 → misses = 0 →
    response = .ofError (.noSuchBucket ns bucket) ∧ response.status.code = 404

/-- What a request for the counts of a bucket is shown, by the last part of its path: the counts, or
one of the lists of the namespace. -/
structure Shows (events : List Stats.Event) (bucketSegment ns bucket : String)
    (response : Response) : Prop where
  counts : bucketSegment ≠ "hits" → bucketSegment ≠ "misses" →
    ShowsCounts ns bucket (Stats.counted events ns bucket true)
      (Stats.counted events ns bucket false) response
  topHits : bucketSegment = "hits" → ∃ l, response = .ranks l ∧
    Stats.IsTop (fun bucket => Stats.counted events ns bucket true) l
  topMisses : bucketSegment = "misses" → ∃ l, response = .ranks l ∧
    Stats.IsTop (fun bucket => Stats.counted events ns bucket false) l

/-- The answer to a request for the counts of a bucket, by the last part of its path. -/
def countsAnswer (bucketSegment ns bucket : String) (stats : Stats) : Response :=
  if bucketSegment = "hits" then .ranks (stats.topHits ns)
  else if bucketSegment = "misses" then .ranks (stats.topMisses ns)
  else match stats.scores? ns bucket with
    | some counts => .scores counts
    | none => .ofError (.noSuchBucket ns bucket)

variable {r : Request} {nsSegment bucketSegment ns bucket : String}

/-- An operation that looks at the state once is answered by what it sees there. -/
theorem serve_of_read {written resource : Resource String} {op : Operation}
    {f : Site → Except QuotaError Response} (hget : r.method = .get)
    (htarget : Resource.ofTarget? r.target = some written) (hmethod : .get ∈ written.methods)
    (hdecode : written.decode = .ok resource) (hop : Operation.of? resource .get = some op)
    (hrun : (op.run r).run = Task.read f) :
    r.serve = Task.read fun s => r.reply (reported (f s)) := by
  have hanswer : r.answerAt written =
      (Task.read f).andThen fun result => .done (reported result) := by
    unfold Request.answerAt
    rw [hget, if_pos hmethod, hdecode, ← hrun]
    simp only [hop]
    change (op.run r).run.andThen _ = _
    congr 1
    funext result
    cases result <;> rfl
  rw [serve_of_target (hget ▸ by decide) (hget ▸ by decide) htarget, hanswer]
  rfl

theorem run_showScores (r : Request) (ns bucket : String) :
    ((Operation.showScores ns bucket).run r).run = Task.read fun s =>
      match s.server.stats.scores? ns bucket with
      | some counts => .ok (.scores counts)
      | none => .error (.noSuchBucket ns bucket) := by
  change Task.step _ _ _ = Task.step _ _ _
  congr 1
  funext s
  beta_reduce
  cases s.server.stats.scores? ns bucket <;> rfl

/-- A request for the counts of a bucket looks at the counts once, and changes nothing. -/
theorem serve_counts (hget : r.method = .get)
    (hpath : r.target.path = countsPath nsSegment bucketSegment) (hns : Writes nsSegment ns)
    (hbucket : Writes bucketSegment bucket) (hne : bucket ≠ "") :
    r.serve = Task.read fun s => r.reply (countsAnswer bucketSegment ns bucket s.server.stats) := by
  have hnsName : Resource.name .ns nsSegment = .ok ns := by rw [Resource.name, hns.decodes]
  have hbucketName : Resource.name .bucket bucketSegment = .ok bucket := by
    rw [Resource.name, hbucket.decodes]
  have htarget := ofTarget?_countsPath hpath hns.noSlash hbucket.noSlash (hbucket.ne_empty hne)
  unfold countsAnswer
  split at htarget
  · rename_i hhits
    have hdecode : (Resource.topHits nsSegment).decode = .ok (.topHits ns) := by
      rw [Resource.decode, hnsName]
      rfl
    simp only [if_pos hhits]
    exact serve_of_read hget htarget List.mem_cons_self hdecode rfl rfl
  · rename_i hhits
    simp only [if_neg hhits]
    split at htarget
    · rename_i hmisses
      have hdecode : (Resource.topMisses nsSegment).decode = .ok (.topMisses ns) := by
        rw [Resource.decode, hnsName]
        rfl
      simp only [if_pos hmisses]
      exact serve_of_read hget htarget List.mem_cons_self hdecode rfl rfl
    · rename_i hmisses
      have hdecode : (Resource.scores nsSegment bucketSegment).decode =
          .ok (.scores ns bucket) := by
        rw [Resource.decode, hnsName, hbucketName]
        rfl
      simp only [if_neg hmisses]
      rw [serve_of_read hget htarget List.mem_cons_self hdecode rfl (run_showScores r ns bucket)]
      congr 1
      funext s
      cases s.server.stats.scores? ns bucket <;> rfl

theorem shows_countsAnswer (events : List Stats.Event) (bucketSegment ns bucket : String) :
    Shows events bucketSegment ns bucket
      (countsAnswer bucketSegment ns bucket (Stats.after events)) := by
  unfold countsAnswer
  constructor
  · intro hhits hmisses
    rw [if_neg hhits, if_neg hmisses, Stats.scores?_after, Stats.scoresOf]
    constructor
    · intro hsome
      rw [if_neg (by omega)]
      exact ⟨rfl, rfl⟩
    · intro hnohits hnomisses
      rw [if_pos ⟨hnohits, hnomisses⟩]
      exact ⟨rfl, rfl⟩
  · rintro rfl
    exact ⟨_, rfl, Stats.isTop_top events ns Scores.hits rfl⟩
  · rintro rfl
    exact ⟨_, rfl, Stats.isTop_top events ns Scores.misses rfl⟩

/-- At every state of a server, whoever asks for the counts of a bucket is shown those of its
requests since its namespace was last reset, or that there are none, unless the last part of the
path is one of the two words that lead to the lists of the namespace. Then these are shown, also if
the word is the name of a bucket. A lawful name writes itself, and any name is written by some part
that is neither of the two words. -/
theorem counts_reachable {s₀ : Site} {es : List (Event Site)}
    {p : Pool TokenQuota.Request Site (Except QuotaError Reply)} (hfresh : s₀.IsFresh)
    (hrun : Pool.Run Site.work Site.Meanwhile s₀ es p) :
    (∃ events, Site.Counted es p events ∧ p.state.server.stats = Stats.after events ∧
      ∀ (r : Request) (nsSegment bucketSegment ns bucket : String) (elapse : Nat → Site → Site),
        r.method = .get → r.target.path = countsPath nsSegment bucketSegment →
        Writes nsSegment ns → Writes bucketSegment bucket → bucket ≠ "" →
        ∃ response, r.serve.run elapse p.state = (some (r.reply response), p.state) ∧
          Shows events bucketSegment ns bucket response) ∧
    (∀ kind name, checkName kind name = .ok () → Writes name name ∧ name ≠ "") ∧
    ∀ name, ∃ segment, Writes segment name ∧ segment ≠ "hits" ∧ segment ≠ "misses" := by
  refine ⟨?_, fun kind name hname => ⟨writes_of_checkName hname, ?_⟩, fun name =>
    ⟨percentEncode name, writes_percentEncode name, ?_, ?_⟩⟩
  · obtain ⟨events, hcounted, hstats⟩ := Site.counted_of_run hfresh hrun
    refine ⟨events, hcounted, hstats, ?_⟩
    intro r nsSegment bucketSegment ns bucket elapse hget hpath hns hbucket hne
    have hshows := shows_countsAnswer events bucketSegment ns bucket
    rw [← hstats] at hshows
    refine ⟨_, ?_, hshows⟩
    rw [serve_counts hget hpath hns hbucket hne]
    rfl
  · rintro rfl
    cases hname
  · exact percentEncode_ne (by decide) (by decide) name
  · exact percentEncode_ne (by decide) (by decide) name

section Trial

/-- A server whose namespace `users` makes a bucket for every name, and a store that answers. -/
def usersSite : Site :=
  { Site.fresh (.ofStorage (.shelf .empty)) with
    server := .create ⟨0, 1, "", none, (∅ : NameMap NamespaceConfig).insert "users"
      { NamespaceConfig.ofName "users" with
        template := some { BucketConfig.ofRate 1 5 with dynamic := true } }⟩ 0 ⟨1, 0, fun _ => 0⟩ 0
    link.connections.current := some ⟨0, 1, "take"⟩
    link.backend.store.scripts := ["take"] }

/-- The site after a request, with the store as it was in the beginning. -/
def usersAfter (s : Site) (i : TokenQuota.Request) : Site :=
  { usersSite with server := ((Site.work i).run (fun _ s => s) s).2.server }

theorem run_next {es : List (Event Site)} {s : Site}
    {callers : List (Caller TokenQuota.Request Site (Except QuotaError Reply))}
    (hrun : Pool.Run Site.work Site.Meanwhile usersSite es ⟨s, callers⟩) (i : TokenQuota.Request)
    (hends : ((Site.work i).run (fun _ s => s) s).1.isSome = true) :
    ∃ es' result, Pool.Run Site.work Site.Meanwhile usersSite es'
      ⟨usersAfter s i, callers ++ [⟨i, .done result⟩]⟩ := by
  obtain ⟨es', result, hrun', -, -⟩ := hrun.joinAndFinish i hends
  exact ⟨es', result, hrun'.outside (.around rfl)⟩

/-- The site once the server was started, and a bucket with the name `hits` was asked for one token
and for more than it can give. -/
def triedSite : Site :=
  [.start, .allow "users" "hits" 1 0, .allow "users" "hits" 50 0].foldl usersAfter usersSite

theorem exists_trial : ∃ es p, Pool.Run Site.work Site.Meanwhile usersSite es p ∧
    p.callers.map Caller.request =
      [.start, .allow "users" "hits" 1 0, .allow "users" "hits" 50 0] ∧ p.state = triedSite := by
  obtain ⟨es₁, result₁, hrun₁⟩ := run_next .start .start (by decide +kernel)
  obtain ⟨es₂, result₂, hrun₂⟩ := run_next hrun₁ (.allow "users" "hits" 1 0) (by decide +kernel)
  obtain ⟨es₃, result₃, hrun₃⟩ := run_next hrun₂ (.allow "users" "hits" 50 0) (by decide +kernel)
  exact ⟨es₃, _, hrun₃, rfl, rfl⟩

theorem scores?_triedSite : triedSite.server.stats.scores? "users" "hits" = some ⟨1, 1⟩ := by
  decide +kernel

theorem topHits_triedSite : triedSite.server.stats.topHits "users" = [⟨"hits", 1⟩] := by
  decide +kernel

end Trial

/-- The counts of a bucket with the name `hits` are shown when its name is written with a percent
sign. -/
theorem counts_reachable_encoded :
    let r : Request := ⟨.get, .ofText "/api/v1/namespaces/users/stats/%68its", [], [], none⟩
    ∃ es p events, Pool.Run Site.work Site.Meanwhile usersSite es p ∧
      p.callers.map Caller.request =
        [.start, .allow "users" "hits" 1 0, .allow "users" "hits" 50 0] ∧
      Site.Counted es p events ∧ Stats.counted events "users" "hits" true = 1 ∧
      Stats.counted events "users" "hits" false = 1 ∧
      r.serve.run (fun _ s => s) p.state = (some (r.reply (.scores ⟨1, 1⟩)), p.state) := by
  intro r
  obtain ⟨es, p, hrun, hrequests, hstate⟩ := exists_trial
  have hfresh : usersSite.IsFresh := ⟨_, _, _, _, rfl⟩
  obtain ⟨⟨events, hcounted, hstats, hanswers⟩, -, -⟩ := counts_reachable hfresh hrun
  have hscores := scores?_triedSite
  rw [← hstate, hstats, Stats.scores?_after, Stats.scoresOf] at hscores
  split at hscores
  · cases hscores
  rename_i hsome
  obtain ⟨hhits, hmisses⟩ := Scores.mk.inj (Option.some.inj hscores)
  obtain ⟨response, hserve, hshows⟩ := hanswers r "users" "%68its" "users" "hits" (fun _ s => s) rfl
    (by decide +kernel) ⟨by decide, by decide +kernel⟩ ⟨by decide, by decide +kernel⟩ (by decide)
  obtain ⟨hresponse, -⟩ := (hshows.counts (by decide) (by decide)).some_counts (by omega)
  rw [hresponse, hhits, hmisses] at hserve
  exact ⟨es, p, events, hrun, hrequests, hcounted, hhits, hmisses, hserve⟩

/-- The name `hits` is a lawful one, but its bucket is hidden behind the list of the namespace. -/
theorem counts_reachable_hidden :
    let r : Request := ⟨.get, .ofText (countsPath "users" "hits"), [], [], none⟩
    checkName .bucket "hits" = .ok () ∧
    ∃ es p, Pool.Run Site.work Site.Meanwhile usersSite es p ∧
      p.callers.map Caller.request =
        [.start, .allow "users" "hits" 1 0, .allow "users" "hits" 50 0] ∧
      p.state.server.stats.scores? "users" "hits" = some ⟨1, 1⟩ ∧
      ∃ response log, r.serve.run (fun _ s => s) p.state = (some (response, log), p.state) ∧
        response.body = (Response.ranks [⟨"hits", 1⟩]).body ∧
        response.body ≠ (Response.scores ⟨1, 1⟩).body := by
  intro r
  obtain ⟨es, p, hrun, hrequests, hstate⟩ := exists_trial
  have hpath : r.target.path = countsPath "users" "hits" := by decide +kernel
  have hname : checkName .bucket "hits" = .ok () := by decide +kernel
  have hns : checkName .ns "users" = .ok () := by decide +kernel
  have hserve := serve_counts (r := r) rfl hpath (writes_of_checkName hns)
    (writes_of_checkName hname) (by decide)
  have hanswer : countsAnswer "hits" "users" "hits" p.state.server.stats =
      .ranks [⟨"hits", 1⟩] := by
    rw [countsAnswer, if_pos rfl, hstate, topHits_triedSite]
  refine ⟨hname, es, p, hrun, hrequests, hstate ▸ scores?_triedSite, _, _, by rw [hserve]; rfl,
    ?_, ?_⟩
  · rw [hanswer]
    rfl
  · rw [hanswer]
    decide +kernel

end TokenQuota.Http
