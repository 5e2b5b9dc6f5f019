import TokenQuota.Http.Service
import TokenQuota.Proofs.Server.Asking

/-!
Requests over HTTP for tokens. The bucket is asked for what the body says, and for one token at once
if the body is empty or cannot be used. A request that is refused changes nothing.
-/

namespace TokenQuota.Http

open TokenQuota.Site (still)

/-- What the body of a request asks for. A body that is empty asks for one token at once, and so
does one that cannot be used. -/
inductive Request.Means (r : Request) : TokenRequest → Prop
  | said {t : TokenRequest} (hbody : r.read Json.Reader.tokenRequest = .ok t) : r.Means t
  | nothing (hbody : r.body = []) : r.Means .default
  | faulty {fault : BodyFault} (hsome : r.body ≠ [])
    (hbody : r.read Json.Reader.tokenRequest = .error fault) : r.Means .default

/-- The reasons for which a request for tokens is refused, and the statuses that report them. -/
inductive Refused (nsSegment bucketSegment : String) (t : TokenRequest) (s : Site) : Status → Prop
  | segment {fault : Resource.BadSegment}
    (hdecode : (Resource.tokens nsSegment bucketSegment).decode = .error fault) :
    Refused nsSegment bucketSegment t s .badRequest
  | tooFew {ns bucket : String}
    (hdecode : (Resource.tokens nsSegment bucketSegment).decode = .ok (.tokens ns bucket))
    (hfew : t.tokens.toInt < 1) : Refused nsSegment bucketSegment t s .unprocessableEntity
  | unknown {ns bucket : String}
    (hdecode : (Resource.tokens nsSegment bucketSegment).decode = .ok (.tokens ns bucket))
    (hmany : 1 ≤ t.tokens.toInt) (hfind : (s.found ns bucket).1 = none) :
    Refused nsSegment bucketSegment t s .notFound

/-- A bucket was marked as used and asked for tokens, and the answer reports what came of it: it
echoes the number of tokens exactly if they were granted. -/
inductive Asked (ns bucket : String) (b : Bucket) (t : TokenRequest) (s s' : Site) :
    Response → Prop
  | granted {now : Int} {wait : Nat}
    (hmarks : s.Marks ns bucket b (s.countsAfter ns bucket b ⟨wait, true⟩) s')
    (hcharged : Store.Charged b.keys now
      (b.limits.take now t.tokens.toInt (t.maxWaitMillis.toNat * 1000000)) ⟨wait, true⟩
      s.link.backend.store s'.link.backend.store) :
    Asked ns bucket b t s s' (.granted ⟨ns, bucket, t.tokens.toInt, wait⟩)
  | rejected {now : Int} {wait : Nat}
    (hmarks : s.Marks ns bucket b (s.countsAfter ns bucket b ⟨wait, false⟩) s')
    (hcharged : Store.Charged b.keys now
      (b.limits.take now t.tokens.toInt (t.maxWaitMillis.toNat * 1000000)) ⟨wait, false⟩
      s.link.backend.store s'.link.backend.store) :
    Asked ns bucket b t s s' (.ofError (.quotaExceeded ns bucket))
  | unanswered (hmarks : s.Marks ns bucket b s.server.stats s')
    (hcells : s'.link.cells = s.link.cells) :
    Asked ns bucket b t s s' (.ofError (.retriesExhausted s.server.retry.count))

variable {r : Request} {nsSegment bucketSegment ns bucket : String} {t : TokenRequest}
variable {s s' : Site}

/-- Nothing can be read in an empty body. -/
theorem read_of_empty (hbody : r.body = []) (t : TokenRequest) :
    r.read Json.Reader.tokenRequest ≠ .ok t := by
  unfold Request.read
  rw [hbody]
  split
  · exact nofun
  · exact nofun

/-- A body stands for one request only. -/
theorem means_iff {t : TokenRequest} : r.Means t ↔ t = r.tokenRequest := by
  unfold Request.tokenRequest
  constructor
  · intro h
    cases h with
    | said hbody => rw [hbody]
    | nothing hbody =>
        cases hread : r.read Json.Reader.tokenRequest with
        | ok t => exact absurd hread (read_of_empty hbody t)
        | error fault => rfl
    | faulty hsome hbody => rw [hbody]
  · rintro rfl
    cases hread : r.read Json.Reader.tokenRequest with
    | ok t => exact .said hread
    | error fault =>
        by_cases hbody : r.body = []
        · exact .nothing hbody
        · exact .faulty hbody hread

theorem Refused.isClientFault {status : Status}
    (h : Refused nsSegment bucketSegment t s status) : 400 ≤ status.code ∧ status.code < 500 := by
  cases h with
  | segment => decide
  | tooFew => decide
  | unknown => decide

/-- Only what is still in the end matters. -/
theorem Asked.congr {b : Bucket} {response : Response} {s₁ : Site}
    (h : Asked ns bucket b t s s₁ response) (hafter : still s' = still s₁) :
    Asked ns bucket b t s s' response := by
  obtain ⟨hserver, hroster, hcells⟩ := Site.of_still_eq hafter
  cases h with
  | granted hmarks hcharged =>
      exact .granted (hmarks.congr rfl hserver hroster) (hcharged.congr rfl hcells)
  | rejected hmarks hcharged =>
      exact .rejected (hmarks.congr rfl hserver hroster) (hcharged.congr rfl hcells)
  | unanswered hmarks hleft =>
      exact .unanswered (hmarks.congr rfl hserver hroster) (hcells.trans hleft)

/-- The answer to a request for tokens by its result. -/
def tokensReply (ns bucket : String) (t : TokenRequest) : Except QuotaError Verdict → Response
  | .ok v =>
    if v.admitted then .granted ⟨ns, bucket, t.tokens.toInt, v.wait⟩
    else .ofError (.quotaExceeded ns bucket)
  | .error e => .ofError e

/-- A response as it is sent, with the entries that are left in the access log. -/
def Request.reply (r : Request) (response : Response) : Response × List LogEntry :=
  (response.withHeaders (anyOrigin ++ anyHeader), [r.logEntry, r.outcomeEntry response.status])

theorem serve_of_target {resource : Resource String} (hoptions : r.method ≠ .options)
    (hhead : r.method ≠ .head) (htarget : Resource.ofTarget? r.target = some resource) :
    r.serve = (r.answerAt resource).andThen fun response => .done (r.reply response) := by
  unfold Request.serve Request.answer
  rw [if_neg hoptions, htarget]
  simp only [if_neg hhead]
  change (((r.answerAt _).andThen _).andThen _) = _
  rw [Task.andThen_assoc]
  rfl

theorem serve_eq (hpost : r.method = .post)
    (htarget : Resource.ofTarget? r.target = some (.tokens nsSegment bucketSegment)) :
    r.serve = (r.answerAt (.tokens nsSegment bucketSegment)).andThen fun response =>
      .done (r.reply response) :=
  serve_of_target (hpost ▸ by decide) (hpost ▸ by decide) htarget

theorem mem_methods (hpost : r.method = .post) :
    r.method ∈ (Resource.tokens nsSegment bucketSegment).methods :=
  List.mem_singleton.mpr hpost

theorem answerAt_of_error (hpost : r.method = .post) {fault : Resource.BadSegment}
    (hdecode : (Resource.tokens nsSegment bucketSegment).decode = .error fault) :
    r.answerAt (.tokens nsSegment bucketSegment) = .done (.ofBadSegment fault) := by
  unfold Request.answerAt
  rw [if_pos (mem_methods hpost), hdecode]
  rfl

theorem answerAt_of_ok (hpost : r.method = .post)
    (hdecode : (Resource.tokens nsSegment bucketSegment).decode = .ok (.tokens ns bucket)) :
    r.answerAt (.tokens nsSegment bucketSegment) =
      (Site.allow ns bucket r.tokenRequest.tokens.toInt
        (r.tokenRequest.maxWaitMillis.toNat * 1000000)).run.andThen fun result =>
          .done (tokensReply ns bucket r.tokenRequest result) := by
  unfold Request.answerAt
  rw [if_pos (mem_methods hpost), hdecode, hpost]
  change (((Site.allow _ _ _ _).run.andThen _).andThen _) = _
  rw [Task.andThen_assoc]
  congr 1
  funext result
  cases result with
  | error e => rfl
  | ok v =>
      obtain ⟨wait, admitted⟩ := v
      cases admitted with
      | true => rfl
      | false => rfl

theorem eq_tokens_of_decode {resource : Resource String}
    (h : (Resource.tokens nsSegment bucketSegment).decode = .ok resource) :
    ∃ ns bucket, resource = .tokens ns bucket := by
  rw [Resource.decode] at h
  cases hns : Resource.name .ns nsSegment with
  | error fault =>
      rw [hns] at h
      cases h
  | ok ns =>
      cases hbucket : Resource.name .bucket bucketSegment with
      | error fault =>
          rw [hns, hbucket] at h
          cases h
      | ok bucket =>
          rw [hns, hbucket] at h
          exact ⟨ns, bucket, (Except.ok.inj h).symm⟩

theorem flows_answerAt (hpost : r.method = .post) :
    (r.answerAt (.tokens nsSegment bucketSegment)).Flows Site.isLinkLocked false := by
  cases hdecode : (Resource.tokens nsSegment bucketSegment).decode with
  | error fault =>
      rw [answerAt_of_error hpost hdecode]
      exact Task.flows_done _
  | ok resource =>
      obtain ⟨ns, bucket, rfl⟩ := eq_tokens_of_decode hdecode
      rw [answerAt_of_ok hpost hdecode]
      exact (Site.flows_allow _ _ _ _).andThen fun _ => Task.flows_done _

/-- What a request for tokens is answered, and what it has changed by then. -/
theorem answers_of_endsAmid (hpost : r.method = .post) (hstarted : s.server.lifecycle = .started)
    {response : Response}
    (h : (r.answerAt (.tokens nsSegment bucketSegment)).EndsAmid still s response s') :
    (∃ ns bucket b, (Resource.tokens nsSegment bucketSegment).decode = .ok (.tokens ns bucket) ∧
      1 ≤ r.tokenRequest.tokens.toInt ∧ Asked ns bucket b r.tokenRequest s s' response) ∨
    (Refused nsSegment bucketSegment r.tokenRequest s response.status ∧ still s' = still s) := by
  cases hdecode : (Resource.tokens nsSegment bucketSegment).decode with
  | error fault =>
      rw [answerAt_of_error hpost hdecode] at h
      obtain ⟨rfl, hstill⟩ := Task.endsAmid_done h
      exact .inr ⟨.segment hdecode, hstill⟩
  | ok resource =>
      obtain ⟨ns, bucket, rfl⟩ := eq_tokens_of_decode hdecode
      rw [answerAt_of_ok hpost hdecode] at h
      obtain ⟨result, s₁, hallow, hdone⟩ := Task.endsAmid_andThen h
      obtain ⟨rfl, hstill⟩ := Task.endsAmid_done hdone
      have hallows := (Site.allows_of_endsAmid hstarted hallow).congr rfl hstill
      cases hallows with
      | tooFew hfew hsame => exact .inr ⟨.tooFew hdecode hfew, hsame⟩
      | unknown hmany hfind hsame => exact .inr ⟨.unknown hdecode hmany hfind, hsame⟩
      | @unanswered b hmany hmarks hcells =>
          exact .inl ⟨ns, bucket, b, rfl, hmany, .unanswered hmarks hcells⟩
      | @decided b now v hmany hmarks hcharged =>
          refine .inl ⟨ns, bucket, b, rfl, hmany, ?_⟩
          obtain ⟨wait, admitted⟩ := v
          cases admitted with
          | true => exact .granted hmarks hcharged
          | false => exact .rejected hmarks hcharged

/-- A request for tokens to a server that runs is answered if it is alone and nobody holds the lock
of the connection. It is refused and changes nothing, or the bucket of its name is marked as used
and asked for exactly the tokens that the body stands for, and tokens that are granted are echoed.
A body that cannot be used is not refused, but stands for one token. -/
theorem tokens_charged (hpost : r.method = .post)
    (htarget : Resource.ofTarget? r.target = some (.tokens nsSegment bucketSegment))
    (hstarted : s.server.lifecycle = .started) :
    (∀ elapse : Nat → Site → Site,
      (∀ millis s, (elapse millis s).isLinkLocked = s.isLinkLocked) → s.isLinkLocked = false →
      ∃ answer s', r.serve.run elapse s = (some answer, s')) ∧
    ∃ t, (∀ t', r.Means t' ↔ t' = t) ∧
      ∀ response log s', r.serve.EndsAmid still s (response, log) s' →
      (∃ ns bucket b plain,
        (Resource.tokens nsSegment bucketSegment).decode = .ok (.tokens ns bucket) ∧
        1 ≤ t.tokens.toInt ∧ Asked ns bucket b t s s' plain ∧
        response = plain.withHeaders (anyOrigin ++ anyHeader)) ∨
      (Refused nsSegment bucketSegment t s response.status ∧ 400 ≤ response.status.code ∧
        response.status.code < 500 ∧ still s' = still s) := by
  have hserve := serve_eq hpost htarget
  constructor
  · intro elapse helapse hfree
    have hflows : r.serve.Flows Site.isLinkLocked false := by
      rw [hserve]
      exact (flows_answerAt hpost).andThen fun _ => Task.flows_done _
    exact hflows.run helapse hfree
  · refine ⟨r.tokenRequest, fun t => means_iff, fun response log s' hends => ?_⟩
    rw [hserve] at hends
    obtain ⟨plain, s₁, hanswer, hdone⟩ := Task.endsAmid_andThen hends
    obtain ⟨heq, hstill⟩ := Task.endsAmid_done hdone
    cases heq
    rcases answers_of_endsAmid hpost hstarted hanswer with
      ⟨ns, bucket, b, hdecode, hmany, hasked⟩ | ⟨hrefused, hsame⟩
    · exact .inl ⟨ns, bucket, b, plain, hdecode, hmany, hasked.congr hstill, rfl⟩
    · exact .inr ⟨hrefused, hrefused.isClientFault.1, hrefused.isClientFault.2,
        hstill.trans hsame⟩

/-- Three tokens are asked for and granted. -/
theorem tokens_charged_three :
    let config : ServiceConfig := ⟨1, 1, "", none, (∅ : NameMap NamespaceConfig).insert "api"
      ((NamespaceConfig.ofName "api").withBucket "search" (.ofRate 1 5))⟩
    let made := Site.fresh (.ofStorage (.shelf .empty))
    let s : Site := { made with
      server.lifecycle := .started
      server.active := ⟨config, (Container.make config .empty).1⟩
      link.connections.current := some ⟨0, 1, "take"⟩
      link.backend.store.scripts := ["take"] }
    let r : Request := ⟨.post, .ofText "/api/v1/allow/api/search",
      [⟨"content-type", Bytes.ofString "application/json"⟩],
      Bytes.ofString "\x7b\"tokens\":3\x7d", none⟩
    ∃ response log s' b plain, r.serve.run (fun _ s => s) s = (some (response, log), s') ∧
      Asked "api" "search" b ⟨3, 0⟩ s s' plain ∧ response.status = .ok := by
  intro config made s r
  have htarget : Resource.ofTarget? r.target = some (.tokens "api" "search") := by
    decide +kernel
  have hread : (r.read Json.Reader.tokenRequest).toOption = some ⟨3, 0⟩ := by
    decide +kernel
  have hstatus : (r.serve.run (fun _ s => s) s).1.map (fun out => out.1.status) = some .ok := by
    decide +kernel
  have hsaid : r.read Json.Reader.tokenRequest = .ok ⟨3, 0⟩ := by
    cases h : r.read Json.Reader.tokenRequest with
    | error fault =>
        rw [h] at hread
        cases hread
    | ok t =>
        rw [h] at hread
        exact congrArg Except.ok (Option.some.inj hread)
  have hdecode : (Resource.tokens "api" "search").decode = .ok (.tokens "api" "search") := by
    rfl
  obtain ⟨hanswers, t, hmeans, hspec⟩ := tokens_charged (s := s) (r := r) rfl htarget rfl
  obtain rfl := (hmeans _).mp (.said hsaid)
  obtain ⟨⟨response, log⟩, s', hrun⟩ := hanswers (fun _ s => s) (fun _ _ => rfl) rfl
  rw [hrun] at hstatus
  have hok : response.status = .ok := Option.some.inj hstatus
  rcases hspec response log s' (Task.endsAmid_of_run (fun _ s => s) (fun _ _ => rfl) hrun) with
    ⟨ns, bucket, b, plain, hnames, -, hasked, -⟩ | ⟨-, hfault, -⟩
  · rw [hdecode] at hnames
    obtain ⟨rfl, rfl⟩ := Resource.tokens.inj (Except.ok.inj hnames)
    exact ⟨response, log, s', b, plain, hrun, hasked, hok⟩
  · rw [hok] at hfault
    exact absurd hfault (by decide)

/-- Fifty tokens are asked for with a number in quotation marks, which is no number of tokens. The
request is not refused: one token is granted and charged. -/
theorem tokens_charged_misread :
    let config : ServiceConfig := ⟨1, 1, "", none, (∅ : NameMap NamespaceConfig).insert "api"
      ((NamespaceConfig.ofName "api").withBucket "search" (.ofRate 1 5))⟩
    let made := Site.fresh (.ofStorage (.shelf .empty))
    let s : Site := { made with
      server.lifecycle := .started
      server.active := ⟨config, (Container.make config .empty).1⟩
      link.connections.current := some ⟨0, 1, "take"⟩
      link.backend.store.scripts := ["take"] }
    let r : Request := ⟨.post, .ofText "/api/v1/allow/api/search",
      [⟨"content-type", Bytes.ofString "application/json"⟩],
      Bytes.ofString "\x7b\"tokens\":\"50\"\x7d", none⟩
    let out := r.serve.run (fun _ s => s) s
    r.body ≠ [] ∧ (∀ t, r.read Json.Reader.tokenRequest ≠ .ok t) ∧
    out.1.map (fun answer => (answer.1.status, answer.1.body)) =
      some (.ok, Grant.write ⟨"api", "search", 1, 0⟩) ∧
    out.2.link.cells ≠ s.link.cells := by
  intro config made s r out
  have hread : (r.read Json.Reader.tokenRequest).toOption = none := by
    decide +kernel
  refine ⟨by decide +kernel, ?_, by decide +kernel, by decide +kernel⟩
  intro t hsaid
  rw [hsaid] at hread
  cases hread

end TokenQuota.Http
