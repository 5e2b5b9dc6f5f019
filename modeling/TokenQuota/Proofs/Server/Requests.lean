import TokenQuota.Server.Admin
import TokenQuota.Server.Running
import TokenQuota.Proofs.Bucket.Serving
import TokenQuota.Proofs.Task.Duties

/-!
What callers ask a server for, and which of their steps leave alone what it applies and what is
kept.
-/

namespace TokenQuota

/-- What a caller asks a server for, or does for it. -/
inductive Request
  | start
  | stop
  | allow (ns bucket : String) (tokens : Int) (maxWait : Nat)
  | update (user : String) (config : ServiceConfig)
  | edit (user : String) (edit : Edit)
  | history
  | health
  | sweep
  /-- One round of the loop that applies changes. -/
  | round

/-- What a caller gets back. -/
inductive Reply
  | done
  | verdict (v : Verdict)
  | configs (l : List ServiceConfig)
  | health (isHealthy : Bool)
  | swept (count : Nat)

/-- Nothing was applied, and only dynamic buckets came or went. The server may have been
stopped. -/
structure Server.Steady (v v' : Server) : Prop where
  initial : v'.initial = v.initial
  config : v'.active.config = v.active.config
  buckets : v.active.buckets.Follows v'.active.buckets
  outcome : v'.outcome = v.outcome
  lifecycle : v'.lifecycle = v.lifecycle ∨ (v.lifecycle = .started ∧ v'.lifecycle = .stopped)
  reloader : v'.reloader = v.reloader ∨ (v.reloader ≠ .busy ∧ v'.reloader = .ended)

theorem Server.Steady.refl (v : Server) : v.Steady v :=
  ⟨rfl, rfl, .refl _, rfl, .inl rfl, .inl rfl⟩

namespace Site

/-- The activity that a request stands for. -/
def perform : Request → Work Reply
  | .start => do start; return .done
  | .stop => do stop; return .done
  | .allow ns bucket tokens maxWait => do return .verdict (← allow ns bucket tokens maxWait)
  | .update user config => do updateConfig user config; return .done
  | .edit user e => do edit user e; return .done
  | .history => do return .configs (← history)
  | .health => do return .health (← isHealthy)
  | .sweep => do return .swept (← Action.ofTask (Task.atOnce sweep))
  | .round => do reloadOnce; return .done

/-- What a caller does for a request, and what it gets. -/
def work (r : Request) : Task Site (Except QuotaError Reply) := (perform r).run

/-- The server was made, and nobody has done anything with it. -/
def IsFresh (s : Site) : Prop :=
  ∃ initial sweepMillis retry since, s.server = Server.create initial sweepMillis retry since

/-- A fresh server with an archive, over a store that cannot list its cells. -/
def fresh (archive : Archive) : Site where
  server := .create .empty 0 ⟨1, 0, fun _ => 0⟩ 0
  link := ⟨.none, { Backend.atTime 1 with
    outages := { Outages.none with scans := .always, reportedName := some "take" } }⟩
  archive
  roster := .empty
  wallClock := 1

theorem isFresh_fresh (archive : Archive) : (fresh archive).IsFresh := ⟨_, _, _, _, rfl⟩

/-- The server was started, and maybe stopped since. -/
def WasStarted (s : Site) : Prop :=
  s.server.lifecycle = .started ∨ s.server.lifecycle = .stopped

theorem not_wasStarted {s : Site} (hstarting : s.server.lifecycle = .starting) :
    ¬s.WasStarted := by
  rintro (heq | heq) <;> rw [hstarting] at heq <;> cases heq

theorem wasStarted_iff {s s' : Site} (h : s.server.Steady s'.server) :
    s'.WasStarted ↔ s.WasStarted := by
  unfold WasStarted
  rcases h.lifecycle with heq | ⟨hstarted, hstopped⟩
  · rw [heq]
  · rw [hstarted, hstopped]
    simp

/-- Nothing was applied or kept, and nobody took the lock or left it. -/
structure Undisturbed (s s' : Site) : Prop where
  server : s.server.Steady s'.server
  locked : s'.server.locked = s.server.locked
  archive : s'.archive = s.archive

theorem Undisturbed.refl (s : Site) : s.Undisturbed s := ⟨.refl _, rfl, rfl⟩

/-- Steps that work on the store are of one kind. -/
structure CoversLink (R : Site → Site → Prop) : Prop where
  link : ∀ s link, R s { s with link }

theorem CoversLink.changes_onLink {R : Site → Site → Prop} (h : CoversLink R) {α : Type}
    (a : Link.Client α) : (onLink a).run.Changes R :=
  Task.Changes.onPart (fun s link _ => h.link s link) (Task.changes_true _)

theorem CoversLink.changes_delay {R : Site → Site → Prop} (h : CoversLink R) :
    (Backend.delay slowReads).Changes R := by
  refine Task.Changes.andThen (Task.changes_atOnce fun s => h.link s _) fun late => ?_
  exact Task.changes_pause _ _

/-- So are those that look for buckets, take them out of service, or count requests. -/
structure CoversMinor (R : Site → Site → Prop) : Prop extends CoversLink R where
  refl : ∀ s, R s s
  resolve : ∀ ns bucket s, R s (s.resolve ns bucket).2
  sweep : ∀ s, R s s.sweep.2
  stats : ∀ s stats, R s { s with server.stats := stats }

namespace CoversMinor

variable {R : Site → Site → Prop}

theorem changes_allow (h : CoversMinor R) (ns bucket : String) (tokens : Int) (maxWait : Nat) :
    (allow ns bucket tokens maxWait).run.Changes R := by
  refine Action.changes_bind (Task.changes_atOnce ?_) fun b => ?_
  · intro s
    unfold accept
    split
    · exact h.refl s
    · split
      · exact h.refl s
      · exact h.resolve ns bucket s
  refine Action.changes_bind (Action.changes_ofTask (Task.changes_read h.refl _)) fun retry => ?_
  refine Action.changes_bind (h.changes_onLink _) fun verdict => ?_
  split
  · exact Action.changes_bind (Action.changes_ofTask (Task.changes_modify fun s => h.stats s _))
      fun _ => trivial
  · exact trivial

end CoversMinor

theorem undisturbed_resolve (ns bucket : String) (s : Site) :
    s.Undisturbed (s.resolve ns bucket).2 := by
  have hfind := Container.follows_find s.server.active.buckets ns bucket s.roster
  unfold resolve
  split
  · rename_i b buckets roster heq
    rw [heq] at hfind
    exact ⟨⟨rfl, rfl, hfind, rfl, .inl rfl, .inl rfl⟩, rfl, rfl⟩
  · rename_i buckets roster heq
    rw [heq] at hfind
    exact ⟨⟨rfl, rfl, hfind, rfl, .inl rfl, .inl rfl⟩, rfl, rfl⟩

theorem undisturbed_sweep (s : Site) : s.Undisturbed s.sweep.2 :=
  ⟨⟨rfl, rfl, Container.follows_sweep _ _, rfl, .inl rfl, .inl rfl⟩, rfl, rfl⟩

theorem covers_undisturbed : CoversMinor Undisturbed :=
  ⟨⟨fun s _ => ⟨.refl s.server, rfl, rfl⟩⟩, .refl, undisturbed_resolve, undisturbed_sweep,
    fun _ _ => ⟨⟨rfl, rfl, .refl _, rfl, .inl rfl, .inl rfl⟩, rfl, rfl⟩⟩

theorem undisturbed_onLink {α : Type} (a : Link.Client α) :
    (onLink a).run.Changes Undisturbed :=
  covers_undisturbed.changes_onLink a

theorem undisturbed_delay : (Backend.delay slowReads).Changes Undisturbed :=
  covers_undisturbed.changes_delay

theorem undisturbed_stop : stop.run.Changes Undisturbed := by
  refine Action.changes_bind (Task.changes_atOnce ?_) fun _ => ?_
  · intro s
    unfold transition
    split
    · rename_i hstarted
      exact ⟨⟨rfl, rfl, .refl _, rfl, .inr ⟨hstarted, rfl⟩, .inl rfl⟩, rfl, rfl⟩
    · exact .refl s
  · refine Action.changes_bind (Action.changes_ofTask (Task.changes_await ?_)) fun _ => ?_
    · intro s hready
      have hnot : s.server.reloader ≠ .busy := by simpa using hready
      exact ⟨⟨rfl, rfl, .refl _, rfl, .inl rfl, .inr ⟨hnot, rfl⟩⟩, rfl, rfl⟩
    · exact undisturbed_onLink Link.close

/-- The requests that neither apply nor keep a configuration, nor read what is kept. -/
def isMinor : Request → Bool
  | .stop | .allow .. | .health | .sweep => true
  | _ => false

/-- All of these requests but a stop take such steps only. -/
theorem CoversMinor.changes_work {R : Site → Site → Prop} (h : CoversMinor R) {r : Request}
    (hminor : isMinor r = true) (hstop : r ≠ .stop) : (work r).Changes R := by
  cases r with
  | stop => exact absurd rfl hstop
  | allow ns bucket tokens maxWait =>
      exact Action.changes_bind (h.changes_allow ns bucket tokens maxWait) fun _ => trivial
  | health => exact Action.changes_bind (h.changes_onLink _) fun _ => trivial
  | sweep =>
      exact Action.changes_bind (Action.changes_ofTask (Task.changes_atOnce h.sweep))
        fun _ => trivial
  | _ => cases hminor

theorem undisturbed_work {r : Request} (h : isMinor r = true) : (work r).Changes Undisturbed := by
  by_cases hstop : r = .stop
  · subst hstop
    exact Action.changes_bind undisturbed_stop fun _ => trivial
  · exact covers_undisturbed.changes_work h hstop

/-- Steps that work on the archive, which may be late, or take the lock or leave it, are of one
kind. -/
structure CoversArchive (R : Site → Site → Prop) : Prop where
  refl : ∀ s, R s s
  late : ∀ s outage, R s (slowReads.set outage s)
  archive : ∀ s archive, R s { s with archive }
  lock : ∀ s taken, R s (lock.set taken s)

namespace CoversArchive

variable {R : Site → Site → Prop}

theorem changes_read (h : CoversArchive R) {α : Type} (f : Site → α) :
    (Action.read f : Work α).run.Changes R :=
  Action.changes_ofTask (Task.changes_read h.refl f)

theorem changes_onArchive (h : CoversArchive R) {α : Type} (a : Archive.Keeper α) :
    (onArchive a).run.Changes R :=
  Task.Changes.onPart (fun s archive _ => h.archive s archive) (Task.changes_true _)

theorem changes_readArchive (h : CoversArchive R) : readArchive.run.Changes R := by
  refine Action.changes_bind (Action.changes_ofTask ?_) fun _ => h.changes_onArchive _
  refine Task.Changes.andThen (Task.changes_atOnce fun s => h.late s _) fun late => ?_
  exact Task.changes_pause _ _

theorem changes_holding (h : CoversArchive R) {α : Type} {a : Work α} (ha : a.run.Changes R) :
    (Action.holding Site.lock a).run.Changes R :=
  Task.Changes.holding (fun s _ => h.lock s true) (fun s => h.lock s false) ha

theorem changes_persist (h : CoversArchive R) (user : String) (config : ServiceConfig) :
    (persist user config).run.Changes R := by
  refine Action.changes_bind (Action.changes_ofExcept _ _) fun _ => ?_
  refine Action.changes_bind (h.changes_read _) fun active => ?_
  refine Action.changes_bind h.changes_readArchive fun kept => ?_
  exact Action.changes_bind (h.changes_read _) fun wallClock => h.changes_onArchive _

theorem changes_updateConfig (h : CoversArchive R) (user : String) (config : ServiceConfig) :
    (updateConfig user config).run.Changes R :=
  h.changes_holding (h.changes_persist user config)

theorem changes_change (h : CoversArchive R) (user : String) (e : Edit) :
    (change user e).run.Changes R := by
  refine h.changes_holding (Action.changes_bind ?_ fun config => ?_)
  · refine Action.changes_bind h.changes_readArchive fun content => ?_
    cases content with
    | some content => exact Action.changes_ofExcept _ _
    | none => exact h.changes_read _
  · exact Action.changes_bind (Action.changes_ofExcept _ _) fun edited =>
      h.changes_persist user edited

theorem changes_history (h : CoversArchive R) : history.run.Changes R :=
  Action.changes_bind (h.changes_onArchive _) fun _ => Action.changes_ofExcept _ _

end CoversArchive

/-- So are those that forget counts. -/
structure Covers (R : Site → Site → Prop) : Prop extends CoversArchive R where
  stats : ∀ s stats, R s { s with server.stats := stats }

namespace Covers

variable {R : Site → Site → Prop}

theorem changes_edit (h : Covers R) (user : String) (e : Edit) : (edit user e).run.Changes R := by
  refine Action.changes_bind (h.changes_change user e) fun _ => ?_
  cases e with
  | deleteNamespace ns =>
      exact Action.changes_ofTask (Task.changes_modify fun s => h.stats s _)
  | _ => exact trivial

/-- The requests that change what is kept, or tell what was kept, take no other steps. -/
theorem changes_work (h : Covers R) {r : Request} (hstart : r ≠ .start) (hround : r ≠ .round)
    (hminor : isMinor r = false) : (work r).Changes R := by
  cases r with
  | start => exact absurd rfl hstart
  | round => exact absurd rfl hround
  | update user config =>
      exact Action.changes_bind (h.changes_updateConfig user config) fun _ => trivial
  | edit user e => exact Action.changes_bind (h.changes_edit user e) fun _ => trivial
  | history => exact Action.changes_bind h.changes_history fun _ => trivial
  | _ => cases hminor

end Covers

/-- Steps that apply a configuration, or report what came of it, are of one kind. -/
structure CoversApplying (R : Site → Site → Prop) : Prop extends CoversArchive R, CoversLink R where
  install : ∀ config s, R s (install config s)
  outcome : ∀ s outcome, R s { s with server.outcome := outcome }

namespace CoversApplying

variable {R : Site → Site → Prop}

theorem changes_apply (h : CoversApplying R) (config : ServiceConfig) :
    (apply config).run.Changes R := by
  refine Action.changes_bind (Action.changes_outcome (h.changes_onLink _)) fun r => ?_
  cases r with
  | error e => exact trivial
  | ok u =>
      exact Action.changes_bind (Action.changes_ofTask (Task.changes_modify (h.install config)))
        fun _ => trivial

theorem changes_publish (h : CoversApplying R) (outcome : Outcome) :
    (publish outcome).run.Changes R :=
  Action.changes_ofTask (Task.changes_modify fun s => h.outcome s outcome)

theorem changes_loadFirst (h : CoversApplying R) : loadFirst.run.Changes R := by
  have hfirst : ∀ config, (do
      Action.ofExcept (validate config)
      let version ← apply config
      publish (.applied version) : Work Unit).run.Changes R := fun config =>
    Action.changes_bind (Action.changes_ofExcept _ _) fun _ =>
      Action.changes_bind (h.changes_apply config) fun _ => h.changes_publish _
  refine Action.changes_bind
    (Action.changes_ofTask (Task.changes_modify fun s => h.archive s _)) fun _ => ?_
  refine Action.changes_bind h.changes_readArchive fun content => ?_
  cases content with
  | none => exact Action.changes_bind (h.changes_read _) hfirst
  | some content => exact Action.changes_bind (Action.changes_ofExcept _ _) hfirst

theorem changes_reload (h : CoversApplying R) : reload.run.Changes R := by
  refine Action.changes_bind h.changes_readArchive fun content => ?_
  cases content with
  | none => exact trivial
  | some content =>
      refine Action.changes_bind (Action.changes_ofExcept _ _) fun config => ?_
      refine Action.changes_bind (h.changes_read _) fun now => ?_
      change (if config = now.1 then pure now.1.version
        else apply (restamp now.2 now.1 config) : Work UInt64).run.Changes R
      split
      · exact trivial
      · exact h.changes_apply _

theorem changes_handleChange (h : CoversApplying R) : handleChange.run.Changes R := by
  refine Action.changes_bind (Action.changes_outcome h.changes_reload) fun r => ?_
  cases r <;> exact h.changes_publish _

end CoversApplying

theorem serves_install (config : ServiceConfig) (s : Site) :
    (install config s).server.active.buckets.Serves config :=
  Container.serves_make config s.roster

end Site

end TokenQuota
