import TokenQuota.Http.Service
import TokenQuota.Proofs.Server.Proposals

/-!
Requests over HTTP for changes of the configuration. Whether one is accepted is seen from the
status of the answer: then exactly what it asks for was kept, and otherwise nothing was.
-/

namespace TokenQuota.Http

open TokenQuota.Task (Spans)

/-- The method and the resource by which a change is asked for. -/
def Operation.route? : Operation → Option (Method × Resource String)
  | replaceConfig => some (.put, .config)
  | addNamespace => some (.post, .namespaces)
  | updateNamespace ns => some (.put, .ofNamespace ns)
  | deleteNamespace ns => some (.delete, .ofNamespace ns)
  | addBucket ns => some (.post, .buckets ns)
  | updateBucket ns bucket => some (.put, .ofBucket ns bucket)
  | deleteBucket ns bucket => some (.delete, .ofBucket ns bucket)
  | _ => none

theorem Operation.route_of {op : Operation} {resource : Resource String} {method : Method}
    {route : Method × Resource String} (h : of? resource method = some op)
    (hroute : op.route? = some route) : route = (method, resource) := by
  cases resource <;> cases method <;> simp only [of?, isLook, Option.some.injEq, reduceCtorEq,
    if_true, Bool.false_eq_true, if_false] at h <;> subst h <;> cases hroute <;> rfl

namespace Request

/-- A request has a method, and its target names a resource. -/
structure IsFor (r : Request) (method : Method) (resource : Resource String) : Prop where
  method_eq : r.method = method
  target : ∃ written, Resource.ofTarget? r.target = some written ∧ written.decode = .ok resource

/-- Who is responsible for a request: the one whom its header names, without the blanks around the
name, or else nobody in particular. -/
def IsFrom (r : Request) (user : String) : Prop :=
  (∃ text, r.readableHeader? userHeader = some text ∧ Text.trim text ≠ "" ∧
    user = Text.trim text) ∨
  ((∀ text, r.readableHeader? userHeader = some text → Text.trim text = "") ∧ user = anonymous)

/-- The changes that a request may ask for, and the only namespace that may change, if there is
such a one. It is named by the path, or by the body if the path names none. -/
inductive Asks (r : Request) (user : String) : TokenQuota.Request → Option String → Prop
  | replaceConfig {config : ServiceConfig} (hroute : r.IsFor .put .config)
    (hbody : r.read Json.Reader.serviceConfig = .ok config) :
    r.Asks user (.update user config) none
  | addNamespace {config : NamespaceConfig} (hroute : r.IsFor .post .namespaces)
    (hbody : r.read Json.Reader.namespaceConfig = .ok config) :
    r.Asks user (.edit user (.addNamespace config)) (some config.name)
  | updateNamespace {ns : String} {config : NamespaceConfig}
    (hroute : r.IsFor .put (.ofNamespace ns))
    (hbody : r.read Json.Reader.namespaceConfig = .ok config)
    (hname : config.name = "" ∨ config.name = ns) :
    r.Asks user (.edit user (.updateNamespace { config with name := ns })) (some ns)
  | deleteNamespace {ns : String} (hroute : r.IsFor .delete (.ofNamespace ns)) :
    r.Asks user (.edit user (.deleteNamespace ns)) (some ns)
  | addBucket {ns : String} {b : NewBucket} (hroute : r.IsFor .post (.buckets ns))
    (hbody : r.read Json.Reader.newBucket = .ok b) :
    r.Asks user (.edit user (.addBucket ns b.name b.config)) (some ns)
  | updateBucket {ns bucket : String} {config : BucketConfig}
    (hroute : r.IsFor .put (.ofBucket ns bucket))
    (hbody : r.read Json.Reader.bucketConfig = .ok config) :
    r.Asks user (.edit user (.updateBucket ns bucket config)) (some ns)
  | deleteBucket {ns bucket : String} (hroute : r.IsFor .delete (.ofBucket ns bucket)) :
    r.Asks user (.edit user (.deleteBucket ns bucket)) (some ns)

theorem isFrom_actingUser (r : Request) : r.IsFrom r.actingUser := by
  unfold IsFrom actingUser
  cases hheader : r.readableHeader? userHeader with
  | none => exact .inr ⟨by rintro _ ⟨⟩, rfl⟩
  | some text =>
      by_cases hblank : Text.trim text = ""
      · refine .inr ⟨?_, ?_⟩
        · rintro _ ⟨⟩
          exact hblank
        · simp [hblank]
      · exact .inl ⟨text, rfl, hblank, by simp [hblank]⟩

theorem Asks.userOf_eq {r : Request} {user : String} {change : TokenQuota.Request}
    {only : Option String} (h : r.Asks user change only) : Site.userOf change = user := by
  cases h <;> rfl

/-- Only an edit of one namespace may change that namespace only. -/
theorem Asks.eq_edit {r : Request} {user ns : String} {change : TokenQuota.Request}
    (h : r.Asks user change (some ns)) : ∃ e, change = .edit user e ∧ e.target = ns := by
  cases h <;> exact ⟨_, rfl, rfl⟩

end Request

theorem status_ofError_ne (e : QuotaError) : (Response.ofError e).status ≠ .accepted := by
  cases e <;> exact Status.noConfusion

theorem status_ofBodyFault_ne (fault : BodyFault) :
    (Response.ofBodyFault fault).status ≠ .accepted := by
  cases fault with
  | unreadable failure =>
      change (if failure.fault.isShape then Status.unprocessableEntity else .badRequest) ≠ .accepted
      split <;> exact Status.noConfusion
  | _ => exact Status.noConfusion

/-- The answer that reports a result. -/
def reported : Except QuotaError Response → Response
  | .ok response => response
  | .error e => .ofError e

/-- What has become of a request when it is answered with a status: nothing was kept and it was not
accepted, or it was and the change that it asks for was kept. -/
inductive Concludes (r : Request) (s : Site) (l : List (Site × Site)) (s' : Site) : Status → Prop
  | aside {status : Status} (hstatus : status ≠ .accepted) (hrests : s.Rests l s') :
    Concludes r s l s' status
  | changed {change : TokenQuota.Request} {only : Option String}
    (hasks : r.Asks r.actingUser change only) (hsettles : Site.Settles change s l s' (.ok ())) :
    Concludes r s l s' .accepted

/-- However an activity ends at a server that keeps its configurations in memory, its result reports
what has become of the request. -/
def Obeys (r : Request) (a : Site.Work Response) : Prop :=
  ∀ s l result s', s.IsShelved → a.run.Spans Site.held s l result s' →
    Concludes r s l s' (reported result).status

/-- However an activity ends there, it has left alone what is held. -/
def Passive {α : Type} (a : Site.Work α) : Prop :=
  ∀ s l (result : Except QuotaError α) s', s.IsShelved → a.run.Spans Site.held s l result s' →
    s.Rests l s'

theorem passive_of_changes {α : Type} {a : Site.Work α}
    (h : a.run.Changes fun s s' => s'.held = s.held) : Passive a :=
  fun _ _ _ _ _ hspans => Site.rests_of_changes h hspans

theorem passive_read {α : Type} (f : Site → α) : Passive (Action.read f : Site.Work α) :=
  passive_of_changes (Action.changes_ofTask (Task.changes_read Site.covers_held.refl f))

section Rules

variable {r : Request} {α : Type}

theorem Concludes.after {s s₁ s' : Site} {l l' : List (Site × Site)} {status : Status}
    (hrests : s.Rests l s₁) (h : Concludes r s₁ l' s' status) :
    Concludes r s (l ++ l') s' status := by
  cases h with
  | aside hstatus hrests' => exact .aside hstatus (hrests.append hrests')
  | changed hasks hsettles => exact .changed hasks (hsettles.after hrests)

theorem Concludes.before {s s₁ s' : Site} {l l' : List (Site × Site)} {status : Status}
    (h : Concludes r s l s₁ status) (hrests : s₁.Rests l' s') :
    Concludes r s (l ++ l') s' status := by
  cases h with
  | aside hstatus hrests' => exact .aside hstatus (hrests'.append hrests)
  | changed hasks hsettles => exact .changed hasks (hsettles.before hrests)

theorem obeys_pure {response : Response} (h : response.status ≠ .accepted) :
    Obeys r (pure response) := by
  rintro s l result s' - hspans
  obtain ⟨rfl, rfl, hheld⟩ := Task.spans_done hspans
  exact .aside h (.nil hheld)

theorem obeys_throw (e : QuotaError) : Obeys r (throw e) := by
  rintro s l result s' - hspans
  obtain ⟨rfl, rfl, hheld⟩ := Task.spans_done hspans
  exact .aside (status_ofError_ne e) (.nil hheld)

theorem obeys_bind {a : Site.Work α} {f : α → Site.Work Response} (ha : Passive a)
    (hf : ∀ x, Obeys r (f x)) : Obeys r (a >>= f) := by
  intro s l result s' hshelved hspans
  rcases Action.spans_bind hspans with ⟨x, l₁, l₂, s₁, rfl, hfirst, hrest⟩ | ⟨e, rfl, hfirst⟩
  · have hrests := ha s l₁ _ s₁ hshelved hfirst
    exact (hf x s₁ l₂ result s' (Site.isShelved_of_held hrests.held hshelved) hrest).after hrests
  · exact .aside (status_ofError_ne e) (ha s l _ s' hshelved hfirst)

theorem obeys_ofExcept {x : Except QuotaError α} {f : α → Site.Work Response}
    (hf : ∀ a, x = .ok a → Obeys r (f a)) : Obeys r (Action.ofExcept x >>= f) := by
  cases x with
  | ok a => exact hf a rfl
  | error e => exact obeys_throw e

theorem obeys_withBody {reader : Json.Reader α} {next : α → Site.Work Response}
    (hnext : ∀ a, r.read reader = .ok a → Obeys r (next a)) :
    Obeys r (Operation.withBody reader r next) := by
  unfold Operation.withBody
  split
  · rename_i a hread
    exact hnext a hread
  · exact obeys_pure (status_ofBodyFault_ne _)

/-- A change that settles what the request asks for is reported as such. -/
theorem obeys_change {a : Site.Work Unit} {change : TokenQuota.Request} {only : Option String}
    {message user : String} (hasks : r.Asks r.actingUser change only)
    (ha : ∀ s l result s', s.IsShelved → a.run.Spans Site.held s l result s' →
      Site.Settles change s l s' result) :
    Obeys r (a >>= fun _ => pure (.accepted message user)) := by
  intro s l result s' hshelved hspans
  rcases Action.spans_bind hspans with ⟨u, l₁, l₂, s₁, rfl, hfirst, hrest⟩ | ⟨e, rfl, hfirst⟩
  · obtain ⟨rfl, rfl, hheld⟩ := Task.spans_done hrest
    exact .changed hasks ((ha s l₁ _ s₁ hshelved hfirst).before (.nil hheld))
  · cases ha s l _ s' hshelved hfirst with
    | refused hproposed hrests => exact .aside (status_ofError_ne e) hrests

theorem obeys_edit {e : Edit} {only : Option String} (message : String)
    (hasks : r.Asks r.actingUser (.edit r.actingUser e) only) :
    Obeys r (Operation.edit r e message) :=
  obeys_change hasks fun _ _ _ _ => Site.spans_edit

end Rules

/-- A body that a path may name has the name of the path, or none. -/
theorem name_of_namedBy {ns : String} {config named : NamespaceConfig}
    (h : Operation.namedBy ns config = .ok named) :
    (config.name = "" ∨ config.name = ns) ∧ named = { config with name := ns } := by
  unfold Operation.namedBy at h
  split at h
  · rename_i hempty
    cases h
    exact ⟨.inl (by simpa using hempty), rfl⟩
  · split at h
    · rename_i hname
      cases h
      exact ⟨.inr hname, by rw [← hname]⟩
    · cases h

/-- Every operation settles what the request asks for by its route, or leaves what is kept alone. -/
theorem obeys_run {r : Request} {resource : Resource String} {op : Operation}
    (hfor : r.IsFor r.method resource) (hop : Operation.of? resource r.method = some op) :
    Obeys r (op.run r) := by
  have hroute : ∀ {route : Method × Resource String}, op.route? = some route →
      r.IsFor route.1 route.2 := by
    intro route heq
    rw [Operation.route_of hop heq]
    exact hfor
  cases op with
  | showHealth =>
      refine obeys_bind (passive_of_changes (Site.covers_held.toCoversLink.changes_onLink _))
        fun reachable => obeys_bind (passive_read _) fun health => obeys_pure ?_
      change (if health.isHealthy then Status.ok else .serviceUnavailable) ≠ .accepted
      split <;> exact Status.noConfusion
  | takeTokens ns bucket =>
      refine obeys_bind (passive_of_changes (Site.covers_held.changes_allow _ _ _ _))
        fun verdict => ?_
      split
      · exact obeys_pure Status.noConfusion
      · exact obeys_throw _
  | showConfig => exact obeys_bind (passive_read _) fun _ => obeys_pure Status.noConfusion
  | replaceConfig =>
      exact obeys_withBody fun config hbody => obeys_change (.replaceConfig (hroute rfl) hbody)
        fun _ _ _ _ => Site.spans_updateConfig
  | showHistory =>
      exact obeys_bind (fun _ _ _ _ => Site.spans_history) fun _ => obeys_pure Status.noConfusion
  | addNamespace =>
      exact obeys_withBody fun config hbody => obeys_edit _ (.addNamespace (hroute rfl) hbody)
  | updateNamespace ns =>
      refine obeys_withBody fun config hbody => obeys_ofExcept fun named hnamed => ?_
      obtain ⟨hname, rfl⟩ := name_of_namedBy hnamed
      exact obeys_edit _ (.updateNamespace (hroute rfl) hbody hname)
  | deleteNamespace ns => exact obeys_edit _ (.deleteNamespace (hroute rfl))
  | addBucket ns =>
      exact obeys_withBody fun b hbody => obeys_edit _ (.addBucket (hroute rfl) hbody)
  | updateBucket ns bucket =>
      exact obeys_withBody fun config hbody => obeys_edit _ (.updateBucket (hroute rfl) hbody)
  | deleteBucket ns bucket => exact obeys_edit _ (.deleteBucket (hroute rfl))
  | showTopHits ns => exact obeys_bind (passive_read _) fun _ => obeys_pure Status.noConfusion
  | showTopMisses ns => exact obeys_bind (passive_read _) fun _ => obeys_pure Status.noConfusion
  | showScores ns bucket =>
      refine obeys_bind (passive_read _) fun scores => ?_
      split
      · exact obeys_pure Status.noConfusion
      · exact obeys_throw _

section Answering

variable {r : Request} {s s' : Site} {l : List (Site × Site)} {response : Response}

theorem concludes_done {a : Response} (h : a.status ≠ .accepted)
    (hspans : (Task.done a : Task Site Response).Spans Site.held s l response s') :
    Concludes r s l s' response.status := by
  obtain ⟨rfl, rfl, hheld⟩ := Task.spans_done hspans
  exact .aside h (.nil hheld)

theorem concludes_operation {op : Operation} (hop : Obeys r (op.run r)) (hshelved : s.IsShelved)
    (h : (op.answer r).Spans Site.held s l response s') : Concludes r s l s' response.status := by
  obtain ⟨result, l₁, l₂, s₁, rfl, hrun, hreport⟩ := Task.spans_andThen h
  have hdone : (Task.done (reported result) : Task Site Response).Spans Site.held s₁ l₂ response
      s' := by
    cases result <;> exact hreport
  obtain ⟨rfl, rfl, hheld⟩ := Task.spans_done hdone
  exact (hop s l₁ result s₁ hshelved hrun).before (.nil hheld)

theorem concludes_answerAt {written : Resource String} (hshelved : s.IsShelved)
    (htarget : Resource.ofTarget? r.target = some written)
    (h : (r.answerAt written).Spans Site.held s l response s') :
    Concludes r s l s' response.status := by
  unfold Request.answerAt at h
  split at h
  · split at h
    · exact concludes_done Status.noConfusion h
    · rename_i resource hdecode
      split at h
      · rename_i op hop
        exact concludes_operation (obeys_run ⟨rfl, written, htarget, hdecode⟩ hop) hshelved h
      · exact concludes_done Status.noConfusion h
  · exact concludes_done Status.noConfusion h

theorem concludes_answer (hshelved : s.IsShelved)
    (h : r.answer.Spans Site.held s l response s') : Concludes r s l s' response.status := by
  unfold Request.answer at h
  split at h
  · exact concludes_done Status.noConfusion h
  · rename_i written htarget
    obtain ⟨a, l₁, l₂, s₁, rfl, hanswer, hdone⟩ := Task.spans_andThen h
    obtain ⟨rfl, rfl, hheld⟩ := Task.spans_done hdone
    have hconcludes := (concludes_answerAt hshelved htarget hanswer).before (.nil hheld)
    split
    · exact hconcludes
    · exact hconcludes

theorem concludes_serve {log : List LogEntry} (hshelved : s.IsShelved)
    (h : r.serve.Spans Site.held s l (response, log) s') :
    Concludes r s l s' response.status := by
  unfold Request.serve at h
  split at h
  · obtain ⟨rfl, heq, hheld⟩ := Task.spans_done h
    cases heq
    exact .aside Status.noConfusion (.nil hheld)
  · obtain ⟨a, l₁, l₂, s₁, rfl, hanswer, hdone⟩ := Task.spans_andThen h
    obtain ⟨rfl, heq, hheld⟩ := Task.spans_done hdone
    cases heq
    exact (concludes_answer hshelved hanswer).before (.nil hheld)

end Answering

/-- What has become of a request that was accepted: it asks for a change, by its route, its names
and its body. One configuration was kept and signalled, and nothing else was: what the change makes
of the latest configuration, in the name of the one who is responsible, with the version that comes
after those of the active configuration and of the one that was kept before. -/
structure Accepted (r : Request) (s : Site) (l : List (Site × Site)) (s' : Site)
    (change : TokenQuota.Request) (only : Option String) (config : ServiceConfig) : Prop where
  user : r.IsFrom config.user
  asks : r.Asks config.user change only
  proposed : ∃ unstamped, s.proposed change = .ok unstamped ∧
    config = { unstamped with user := config.user, version := config.version, date := config.date }
  version : s.activeConfig.version ≠ lastVersion → (Site.stampOf s.kept).1 ≠ lastVersion →
    config.version.toNat = max s.activeConfig.version.toNat (Site.stampOf s.kept).1.toNat + 1
  others : ∀ ns, only = some ns → ∃ latest, s.newest = .ok latest ∧
    ∀ other, other ≠ ns → config.namespaces.get? other = latest.namespaces.get? other
  keeps : s.Keeps config.write l s'
  current : s'.kept = some config.write
  signalled : s'.archive.pending = true
  decodes : Site.decode config.write = .ok config

theorem accepted_of_settles {r : Request} {s s' : Site} {l : List (Site × Site)} {user : String}
    {change : TokenQuota.Request} {only : Option String} (hshelved : s.IsShelved)
    (hfrom : r.IsFrom user) (hasks : r.Asks user change only)
    (h : Site.Settles change s l s' (.ok ())) :
    ∃ config, Accepted r s l s' change only config := by
  cases h with
  | @kept unstamped wallClock hproposed hkeeps =>
      rw [hasks.userOf_eq] at hkeeps
      refine ⟨s.stampedFor wallClock user unstamped, hfrom, hasks, ⟨unstamped, hproposed, rfl⟩,
        ?_, ?_, hkeeps, ?_, ?_, Site.decode_write _⟩
      · exact fun hactive hkept => Site.toNat_version_stampedFor hactive hkept wallClock user _
      · rintro ns rfl
        obtain ⟨e, rfl, rfl⟩ := hasks.eq_edit
        obtain ⟨latest, hnewest, hothers⟩ := Site.get?_proposed_of_ne hproposed
        exact ⟨latest, hnewest, hothers⟩
      · rw [Site.kept_congr (congrArg Archive.storage hkeeps.archive)]
        exact Site.kept_putOnShelf hshelved _
      · rw [hkeeps.archive]
        exact Site.pending_putOnShelf hshelved _

/-- Requests for changes are all or nothing. Whatever the target, the headers and the body of a
request are, at a server that keeps its configurations in memory: if it is accepted, exactly one
configuration was kept and signalled, and that is the latest one with the change for which the
request asks. If it is answered in any other way, nothing was kept or signalled. -/
theorem all_or_nothing {r : Request} {s s' : Site} {l : List (Site × Site)} {response : Response}
    {log : List LogEntry} (hshelved : s.IsShelved)
    (h : r.serve.Spans Site.held s l (response, log) s') :
    (response.status = .accepted → ∃ change only config, Accepted r s l s' change only config) ∧
      (response.status ≠ .accepted → s.Rests l s') := by
  generalize hstatus : response.status = status
  have hconcludes : Concludes r s l s' status := hstatus ▸ concludes_serve hshelved h
  cases hconcludes with
  | aside hne hrests => exact ⟨fun heq => absurd heq hne, fun _ => hrests⟩
  | changed hasks hsettles =>
      obtain ⟨config, haccepted⟩ := accepted_of_settles hshelved r.isFrom_actingUser hasks hsettles
      exact ⟨fun _ => ⟨_, _, config, haccepted⟩, fun hne => absurd rfl hne⟩

/-- A namespace is added over HTTP, in the name of a user with blanks around it. -/
theorem all_or_nothing_added :
    let r : Request := ⟨.post, .ofText "/api/v1/namespaces",
      [⟨"Content-Type", Bytes.ofString "application/json"⟩,
        ⟨"X-Quota-User", Bytes.ofString "  ann "⟩],
      Bytes.ofString "\x7b\"name\":\"a\"\x7d", none⟩
    let s := Site.fresh (.ofStorage (.shelf .empty))
    ∃ l response log s', r.serve.Spans Site.held s l (response, log) s' ∧
      response.status = .accepted ∧
      ∃ change only config, Accepted r s l s' change only config := by
  intro r s
  have hstatus : (r.serve.run (fun _ s => s) s).1.map (fun out => out.1.status) =
      some .accepted := by
    decide +kernel
  obtain ⟨⟨response, log⟩, hout, haccepted⟩ := Option.map_eq_some_iff.mp hstatus
  obtain ⟨l, hspans⟩ := Task.exists_spans_of_run (fun _ s => s)
    (fun _ _ => rfl : ∀ (_ : Nat) (s : Site), s.held = s.held) (Prod.ext hout rfl)
  have hshelved : s.IsShelved := rfl
  exact ⟨l, response, log, _, hspans, haccepted, (all_or_nothing hshelved hspans).1 haccepted⟩

end TokenQuota.Http
